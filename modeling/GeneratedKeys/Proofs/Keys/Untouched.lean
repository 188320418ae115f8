import GeneratedKeys.Proofs.Keys.Append
import GeneratedKeys.Proofs.Statement.Problems

/-!
# `GeneratedKeys.Proofs.Keys.Untouched`: statements that stay as they are

A statement must not be touched if it was read with problems, or if it returns columns already.
In both cases the answer is the same for every connection, so nothing that is known of its tables
plays a part. A statement that is read without problems is always understood, since its type is
settled then.

* `understood?_eq_none_iff`, `understood?_of_clean`, `Builder.table_ofStatement`: what a builder
  knows of a statement.
* `answer_untouched`: the answers to all requests, and that keys are promised with every change.
-/

set_option autoImplicit false

namespace GeneratedKeys

/-- A statement that is read without problems is understood, since its type is settled by the time
it ends. -/
theorem understood?_of_clean {sql : Text} {p : ParsedStatement} (h : parse sql = .ok p)
    (hclean : p.isClean = true) : understood? sql = some p.statement := by
  obtain ⟨-, type, ms, ks, hread, -, hparts⟩ := reads_of_clean h hclean
  refine understood?_of_parse h hclean ?_
  rw [hparts]
  exact hread.isSome_type sql

/-- Nothing is known of a statement exactly if it is refused or read with problems, and then every
request leaves it as it is. -/
theorem understood?_eq_none_iff {sql : Text} :
    understood? sql = none ↔
      (∃ e, parse sql = .error e) ∨ ∃ p, parse sql = .ok p ∧ p.diagnostics.count ≠ 0 := by
  cases h : parse sql with
  | error e => simp [understood?, h]
  | ok p =>
      by_cases hclean : p.isClean = true
      · have hcount : p.diagnostics.count = 0 := by simpa [ParsedStatement.isClean] using hclean
        simp [understood?_of_clean h hclean, hcount]
      · have hcount : p.diagnostics.count ≠ 0 := by simpa [ParsedStatement.isClean] using hclean
        simp [understood?, h, hclean, hcount]

namespace Builder

variable {sql : Text} {types : QueryTypes}

/-- The table that a builder knows is the one that was read, whatever types are supported. -/
theorem table_ofStatement {p : ParsedStatement} {table : Text} (h : parse sql = .ok p)
    (hclean : p.isClean = true) (htable : p.statement.table? = some table) (types : QueryTypes) :
    (ofStatement sql types).table = table := by
  have hstatement : (ofStatement sql types).statement? = some p.statement :=
    understood?_of_clean h hclean
  rw [Builder.table, hstatement, Option.bind_some, htable]
  rfl

/-- A statement that is not understood is of no supported type and returns nothing. -/
theorem flags_of_not_understood (h : understood? sql = none) (types : QueryTypes) :
    (ofStatement sql types).isSupported = false ∧ (ofStatement sql types).hasReturning = false := by
  simp [isSupported, hasReturning, ofStatement, h]

/-- Keys are promised with every change. Read the other way round: an answer without keys has the
statement as given. -/
theorem sql_eq_of_not_generatesKeys {b : Builder} {m : Metadata} {r : Request} {q : Query}
    (h : b.answer m r = .ok q) (hkeys : q.generatesKeys = false) : q.sql = b.sql := by
  rcases answer_cases h with rfl | ⟨-, -, items, -, -, rfl⟩
  · rfl
  · cases hkeys

end Builder

/-- The statements that must not be touched. One that is refused or read with problems is the
answer to every request, and no keys are promised; only a request for columns that names none
fails. One that is read without problems and returns columns is the answer to every request, and
keys are promised, also if its type is not supported. In both cases the tables of the connection
do not matter. Where no keys are promised, no statement is changed. -/
theorem answer_untouched (sql : Text) (types : QueryTypes) :
    (((∃ e, parse sql = .error e) ∨ ∃ p, parse sql = .ok p ∧ p.diagnostics.count ≠ 0) →
      (Builder.ofStatement sql types).statement? = none ∧
      (Builder.ofStatement sql types).isSupported = false ∧
      ∀ (m : Metadata) (r : Request), r ≠ .indexes [] → r ≠ .names [] →
        (Builder.ofStatement sql types).answer m r = .ok ⟨false, sql⟩) ∧
    (∀ p, parse sql = .ok p → p.diagnostics.count = 0 → p.statement.hasReturning = true →
      ∀ (m : Metadata) (r : Request),
        (Builder.ofStatement sql types).answer m r = .ok ⟨true, sql⟩) ∧
    ∀ (m : Metadata) (r : Request) (q : Query),
      (Builder.ofStatement sql types).answer m r = .ok q → q.generatesKeys = false →
        q.sql = sql := by
  refine ⟨?problems, ?returning, ?unchanged⟩
  case problems =>
    intro hproblems
    -- Nothing is known of the statement, so it is of no supported type.
    have hnone := understood?_eq_none_iff.2 hproblems
    obtain ⟨hsupported, hreturning⟩ := Builder.flags_of_not_understood hnone types
    refine ⟨hnone, hsupported, fun m r hindexes hnames => ?_⟩
    exact Builder.answer_of_not_isSupported hsupported hreturning hindexes hnames
  case returning =>
    intro p hp hcount hhas m r
    have hclean : p.isClean = true := by rw [ParsedStatement.isClean, hcount]; rfl
    have hreturning : (Builder.ofStatement sql types).hasReturning = true := by
      rw [Builder.hasReturning, Builder.ofStatement, understood?_of_clean hp hclean]
      exact hhas
    exact Builder.answer_of_hasReturning hreturning m r
  case unchanged =>
    intro m r q h hkeys
    exact Builder.sql_eq_of_not_generatesKeys h hkeys

/-- Two statements in one text, and a statement that returns a column though its type is not
supported and the request names none. -/
theorem answer_untouched_two :
    (Builder.ofStatement "DELETE FROM T; DELETE FROM U".toList .full).answer dialectThree
        .allColumns = .ok ⟨false, "DELETE FROM T; DELETE FROM U".toList⟩ ∧
      (Builder.ofStatement "DELETE FROM T RETURNING A".toList .empty).answer dialectThree
        (.names []) = .ok ⟨true, "DELETE FROM T RETURNING A".toList⟩ := by
  have htwo : ∃ p, parse "DELETE FROM T; DELETE FROM U".toList = .ok p ∧
      p.diagnostics.count ≠ 0 := ⟨_, rfl, by decide⟩
  obtain ⟨hproblems, -, -⟩ := answer_untouched "DELETE FROM T; DELETE FROM U".toList .full
  obtain ⟨-, hreturning, -⟩ := answer_untouched "DELETE FROM T RETURNING A".toList .empty
  refine ⟨(hproblems (.inr htwo)).2.2 _ _ Request.noConfusion Request.noConfusion, ?_⟩
  exact hreturning _ rfl rfl rfl dialectThree (.names [])

end GeneratedKeys
