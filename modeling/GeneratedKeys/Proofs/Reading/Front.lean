import GeneratedKeys.Proofs.Reading.Reads
import GeneratedKeys.Proofs.Reading.Tests

/-!
# `GeneratedKeys.Proofs.Reading.Front`: a statement is its clauses and its ending

Every statement ends alike: an optional RETURNING clause, an optional semicolon, and the end.
`Grammar.front` is the rule of what comes before.

* `reads_statement_iff`: a statement is read by reading its front and then its ending.
* `reads_ending_iff`: an ending is a RETURNING clause or none, and a semicolon or none.
-/

set_option autoImplicit false

namespace GeneratedKeys

namespace Grammar

open Rule

/-- What is inserted: values, rows that are selected, or default values. The next token decides, and
any other one is an error. -/
def inserted : Rule :=
  .branch [isWord .values] valuesClause
    (.branch [isWord .select] (.seq .take .skip)
      (.branch [isWord .default] defaultValues (.fail "VALUES, SELECT, or DEFAULT VALUES")))

/-- The clauses of a statement in front of its ending, in their order. Read one after the other they
are the statement, by `front`. -/
def clauses : StatementType → List Rule
  | .insert => [word .insert, word .into, table, optional (isA .leftParen) targetColumns, inserted]
  | .delete => [word .delete, word .from, table, .skip]
  | .update => [word .update, table, word .set, separated assignment, .skip]
  | .updateOrInsert =>
    [word .update, word .or, word .insert, word .into, table,
      optional (isA .leftParen) targetColumns, valuesClause,
      optional (isWord .matching) matchingClause]

/-- A statement without its ending, so that the clause at its end can be looked at apart. -/
def front (type : StatementType) : Rule :=
  inOrder (clauses type)

/-- A statement is its clauses and its ending, in order. All four types have this form, so their
endings are treated once. -/
theorem statement_eq (type : StatementType) :
    statement type = inOrder (clauses type ++ [ending type]) := by
  cases type <;> rfl

end Grammar

open Rule

variable {n : Nat} {ts rest : List Token} {ms : List Move} {ks : List Note}

/-- One rule after several in order. The list is taken apart at its end, where `inOrder` takes it
apart in front. -/
theorem reads_inOrder_concat {r : Rule} {rs : List Rule} (hrs : rs ≠ []) :
    Reads n (inOrder (rs ++ [r])) ts ms ks rest ↔
      ∃ mid ms₁ ms₂ ks₁ ks₂, Reads n (inOrder rs) ts ms₁ ks₁ mid ∧ Reads n r mid ms₂ ks₂ rest ∧
        ms = ms₁ ++ ms₂ ∧ ks = ks₁ ++ ks₂ := by
  induction rs generalizing ts ms ks with
  | nil => exact absurd rfl hrs
  | cons first rs ih =>
      cases rs with
      | nil =>
          constructor
          · intro h
            cases h with
            | seq h₁ h₂ => exact ⟨_, _, _, _, _, h₁, h₂, rfl, rfl⟩
          · rintro ⟨mid, ms₁, ms₂, ks₁, ks₂, h₁, h₂, rfl, rfl⟩
            exact .seq h₁ h₂
      | cons second rs =>
          constructor
          · intro h
            cases h with
            | seq h₁ h₂ =>
                -- The rules behind the first one end with the last one, by induction.
                obtain ⟨mid, ms₁, ms₂, ks₁, ks₂, hothers, hlast, rfl, rfl⟩ :=
                  (ih (List.cons_ne_nil _ _)).1 h₂
                exact ⟨mid, _, ms₂, _, ks₂, .seq h₁ hothers, hlast,
                  (List.append_assoc ..).symm, (List.append_assoc ..).symm⟩
          · rintro ⟨mid, ms₁, ms₂, ks₁, ks₂, h₁, hlast, rfl, rfl⟩
            cases h₁ with
            | seq hfirst hothers =>
                rw [List.append_assoc, List.append_assoc]
                exact .seq hfirst
                  ((ih (List.cons_ne_nil _ _)).2 ⟨mid, _, ms₂, _, ks₂, hothers, hlast, rfl, rfl⟩)

/-- A statement is read by reading its front and then its ending. A clause that is appended touches
the second part only. -/
theorem reads_statement_iff {type : StatementType} :
    Reads n (Grammar.statement type) ts ms ks rest ↔
      ∃ mid ms₁ ms₂ ks₁ ks₂, Reads n (Grammar.front type) ts ms₁ ks₁ mid ∧
        Reads n (Grammar.ending type) mid ms₂ ks₂ rest ∧ ms = ms₁ ++ ms₂ ∧ ks = ks₁ ++ ks₂ := by
  rw [Grammar.statement_eq]
  exact reads_inOrder_concat (by cases type <;> exact List.cons_ne_nil _ _)

/-- The tokens behind the last clause of a statement: a semicolon or none. Nothing may follow the
semicolon. -/
inductive Terminator : List Token → Prop where
  | absent : Terminator []
  | semicolon {t : Token} : t.kind = .semicolon → Terminator [t]

/-- An ending is read as a RETURNING clause or none and a semicolon or none, with nothing
behind. -/
theorem reads_ending_iff {type : StatementType} :
    Reads n (Grammar.ending type) ts ms ks rest ↔
      ∃ mid ms' ks', Reads n (optional (isWord .returning) Grammar.returningClause) ts ms' ks' mid ∧
        Terminator mid ∧ ms = ms' ++ mid.map .pass ∧ ks = ks' ++ [.type type] ∧ rest = [] := by
  constructor
  -- The rules of the ending are opened one by one, down to the semicolon that is there or not.
  · intro h
    cases h with
    | seq hclause hothers =>
        cases hothers with
        | seq hdeclare hend =>
            cases hdeclare
            cases hend with
            | seq hsemicolon hfinish =>
                cases hfinish
                cases hsemicolon with
                | yes hp htake =>
                    cases htake
                    rw [State.passes_one_cons, isA_iff rfl] at hp
                    exact ⟨_, _, _, hclause, .semicolon hp, rfl, rfl, rfl⟩
                | no _ hempty =>
                    cases hempty
                    exact ⟨_, _, _, hclause, .absent, rfl, rfl, rfl⟩
  · rintro ⟨mid, ms', ks', hclause, hmid, rfl, rfl, rfl⟩
    -- Back from the parts: the semicolon is taken by its test, and then the end is met.
    have hend : Reads n (inOrder [optional (isA .semicolon) .take, .finish]) mid
        (mid.map .pass) [] [] := by
      cases hmid with
      | absent => exact .seq (.no rfl .empty) .finish
      | @semicolon t ht =>
          exact .seq (.yes (passes_isA rfl ht []) .take) .finish
    exact .seq hclause (.seq .declare hend)

end GeneratedKeys
