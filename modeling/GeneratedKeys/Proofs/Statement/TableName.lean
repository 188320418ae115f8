import GeneratedKeys.Proofs.Statement.Insertion
import GeneratedKeys.Proofs.Statement.Shape

/-!
# `GeneratedKeys.Proofs.Statement.TableName`: the table of a statement

The table of a statement is one name, and where it stands is settled by the type: only words
are in front of it. Nothing that is read behind it is taken for a table.

* `Yields.exists_table`: a statement that is read without repairs has its table at that place.
* `exists_isTable`: so has every statement that is read without problems.
-/

set_option autoImplicit false

namespace GeneratedKeys

open Rule Grammar Move

/-- How many tokens stand in front of the table, which are the words that open a statement of the
type. -/
def tableIndex : StatementType → Nat
  | .insert | .delete => 2
  | .update => 1
  | .updateOrInsert => 4

/-- The token `x` is the table of the statement `sql`, which was read as `p`: it stands at the place
of the table, it is a name, and its text was kept. -/
structure IsTable (sql : Text) (p : ParsedStatement) (x : Token) : Prop where
  place : ∃ type, p.statement.type? = some type ∧ (visibleTokens sql)[tableIndex type]? = some x
  isName : Name x.kind
  table_eq : p.statement.table? = some x.text

variable {n : Nat} {ts rest : List Token} {ks : List Note}

/-- The first of the notes is the table, and it is the only one. So no later part can replace it. -/
def TableFirst (x : Token) (ks : List Note) : Prop :=
  ∃ ks', ks = .ofTokens .table [x] :: ks' ∧ ∀ k ∈ ks', k.label ≠ .part .table

/-- A table in front of rules that keep no other one is the first note, and no later one replaces
it. -/
theorem tableFirst_of_yields {r : Rule} (h : Yields n (.seq table r) ts ks rest)
    (hr : .part .table ∉ r.labels) :
    ∃ x us, ts = x :: us ∧ Name x.kind ∧ TableFirst x ks := by
  obtain ⟨x, us, ks', rfl, hname, ⟨ms, hread, -⟩, rfl⟩ := yields_table_seq_iff.1 h
  exact ⟨x, us, rfl, hname, ks', rfl, (Retains.reads hread).label_ne hr⟩

/-- A statement that is read without repairs has its table behind its first words, and no other note
is about a table. -/
theorem Yields.exists_table {type : StatementType} (h : Yields n (statement type) ts ks rest) :
    ∃ x, ts[tableIndex type]? = some x ∧ Name x.kind ∧ TableFirst x ks := by
  cases type with
  -- The words in front of the table differ in number, and behind them its name is kept first.
  | insert | delete =>
      obtain ⟨-, us, rfl, -, h₁⟩ := yields_word_seq_iff.1 h
      obtain ⟨-, us, rfl, -, h₂⟩ := yields_word_seq_iff.1 h₁
      obtain ⟨x, us, rfl, hname, hfirst⟩ := tableFirst_of_yields h₂ (by decide)
      exact ⟨x, rfl, hname, hfirst⟩
  | update =>
      obtain ⟨-, us, rfl, -, h₁⟩ := yields_word_seq_iff.1 h
      obtain ⟨x, us, rfl, hname, hfirst⟩ := tableFirst_of_yields h₁ (by decide)
      exact ⟨x, rfl, hname, hfirst⟩
  | updateOrInsert =>
      obtain ⟨-, us, rfl, -, h₁⟩ := yields_word_seq_iff.1 h
      obtain ⟨-, us, rfl, -, h₂⟩ := yields_word_seq_iff.1 h₁
      obtain ⟨-, us, rfl, -, h₃⟩ := yields_word_seq_iff.1 h₂
      obtain ⟨-, us, rfl, -, h₄⟩ := yields_word_seq_iff.1 h₃
      obtain ⟨x, us, rfl, hname, hfirst⟩ := tableFirst_of_yields h₄ (by decide)
      exact ⟨x, rfl, hname, hfirst⟩

/-- Notes of other parts leave the table as it is, each of them, so all of them together. -/
theorem table_foldl_of_label_ne (t : Text) (h : ∀ k ∈ ks, k.label ≠ .part .table)
    (s : Statement Text) : (ks.foldl (Note.applyText t) s).table? = s.table? := by
  induction ks generalizing s with
  | nil => rfl
  | cons k ks ih =>
      rw [List.foldl_cons, ih fun k' hk' => h k' (List.mem_cons_of_mem _ hk')]
      cases k with
      | part p ms =>
          cases p with
          | table => exact absurd rfl (h _ (List.mem_cons_self ..))
          | _ => rfl
      | type | defaults => rfl

/-- The table of the parts is the text of the token, with its quotes if it has any. -/
theorem TableFirst.table_partsOf {t : Text} {x : Token} (h : TableFirst x ks)
    (hx : x ∈ visibleTokens t) : (partsOf t ks).table? = some x.text := by
  obtain ⟨ks', rfl, hothers⟩ := h
  rw [partsOf_eq_foldl, List.foldl_cons, table_foldl_of_label_ne t hothers]
  show some ((range [.pass x]).slice t) = some x.text
  rw [range_pass, slice_of_mem hx]

/-- A statement that is read without problems has its table at the place of its type. So a clean
statement always has one. -/
theorem exists_isTable {sql : Text} {p : ParsedStatement} (h : parse sql = .ok p)
    (hclean : p.isClean = true) : ∃ x, IsTable sql p x := by
  obtain ⟨-, type, ms, ks, hread, hall, hparts⟩ := reads_of_clean h hclean
  have hyields : Yields nestingLimit (statement type) (visibleTokens sql) ks [] :=
    ⟨ms, hread, hall⟩
  obtain ⟨x, hplace, hname, hfirst⟩ := hyields.exists_table
  refine ⟨x, ⟨type, ?_, hplace⟩, hname, ?_⟩
  · rw [hparts]
    exact type_partsOf hyields sql
  · rw [hparts]
    exact hfirst.table_partsOf (List.mem_of_getElem? hplace)

/-- There is one table only: the token at the place that the type of the statement says. -/
theorem IsTable.eq_of_place {sql : Text} {p : ParsedStatement} {x y : Token} {type : StatementType}
    (h : IsTable sql p x) (htype : p.statement.type? = some type)
    (hplace : (visibleTokens sql)[tableIndex type]? = some y) : x = y := by
  obtain ⟨found, hfound, hx⟩ := h.place
  obtain rfl : found = type := Option.some.inj (hfound.symm.trans htype)
  exact Option.some.inj (hx.symm.trans hplace)

/-- The table is one of the tokens of the text, so what is known of all tokens is known of it. -/
theorem IsTable.mem {sql : Text} {p : ParsedStatement} {x : Token} (h : IsTable sql p x) :
    x ∈ tokens sql := by
  obtain ⟨type, -, hplace⟩ := h.place
  exact (List.mem_filter.1 (List.mem_of_getElem? hplace)).1

end GeneratedKeys
