import GeneratedKeys.Proofs.Reading.Levels
import GeneratedKeys.Proofs.Token.Scanned
import GeneratedKeys.Proofs.Value.Complete

/-!
# `GeneratedKeys.Proofs.Value.Coverage`: which tokens a value covers

Reading a value and deriving one agree. Binding powers, the way a negative number is read
as a subtraction and the place where the loop over the operators stops decide how a value
is put together, but not which tokens belong to it.

* `readValue_covers`: what is read as a value without a repair is a value, and a value in
  front of something that ends it is read up to that, or nested too deep.
* `isNegative_iff_text`: the numbers that the grammar calls negative are those written with
  a minus sign.
-/

set_option autoImplicit false

namespace GeneratedKeys

/-- Reading a value, at any place outside attempts. What is read without a repair is derived
from the grammar of values, at every level of nesting and for every binding power. A derived
value in front of a separator, a closing bracket, the end or a reserved word other than
COLLATE is read up to exactly there, without a repair, or it is nested too deep. -/
theorem readValue_covers (s : State) :
    (∀ (levels power : Nat) (t : State),
      readValue levels power { s with attempts := 0 } = .ok t → t.repairs = s.repairs →
        Derives .value s.after t.after) ∧
    (∀ rest : List Token, Derives .value s.after rest → Ends rest →
      (∃ t, readValue nestingLimit 0 { s with attempts := 0 } = .ok t ∧ t.after = rest ∧
        t.repairs = s.repairs) ∨
      Outcome.TooDeep (readValue nestingLimit 0 { s with attempts := 0 })) := by
  have run_iff : ∀ (levels power : Nat) (rest : List Token),
      Passes levels (.value power) s.after rest ↔
        ∃ t, readValue levels power { s with attempts := 0 } = .ok t ∧ t.after = rest ∧
          t.repairs = s.repairs := by
    intro levels power rest
    exact passes_iff_run (r := .value power) rfl rfl (s := { s with attempts := 0 }) rfl
  constructor
  · intro levels power t hrun hrepairs
    exact derives_value levels power _ _ ((run_iff levels power _).2 ⟨t, hrun, rfl, hrepairs⟩)
  · intro rest hderives hends
    obtain ⟨t, hrun, hrest⟩ := (run_iff _ 0 rest).1 (passes_value_of_derives hderives hends)
    -- As many levels as tokens are enough; the limit agrees with them or cuts off.
    rcases Nat.le_total s.after.length nestingLimit with hle | hle
    · rcases readValue_levels hle 0 { s with attempts := 0 } with hsame | ⟨place, u, hdeep⟩
      · exact Or.inl ⟨t, hsame ▸ hrun, hrest⟩
      · rw [hdeep] at hrun
        cases hrun
    · rcases readValue_levels hle 0 { s with attempts := 0 } with hsame | hdeep
      · exact Or.inl ⟨t, hsame.trans hrun, hrest⟩
      · exact Or.inr hdeep

/-- `-a -1 || b` in front of a closing parenthesis. The second sign belongs to its number, and is a
subtraction all the same. -/
def signedSum : List Token :=
  [⟨.minus, ['-'], 0⟩, ⟨.identifier ['a'], ['a'], 1⟩, ⟨.integer true, ['-', '1'], 3⟩,
    ⟨.concat, ['|', '|'], 6⟩, ⟨.identifier ['b'], ['b'], 9⟩, ⟨.rightParen, [')'], 10⟩]

/-- `-a -1 || b` is a value, and reading it stops in front of the parenthesis. It has a sign, a
subtraction and an operator in it. -/
theorem readValue_covers_signedSum :
    Derives .value signedSum (signedSum.drop 5) ∧
      ∃ t, readValue nestingLimit 0 (.initial signedSum 11) = .ok t ∧
        t.after = signedSum.drop 5 ∧ t.repairs = [] := by
  obtain ⟨sound, complete⟩ := readValue_covers (.initial signedSum 11)
  have hrun : readValue nestingLimit 0 (.initial signedSum 11)
      = .ok (State.takeMany 5 (.initial signedSum 11)) := by decide +kernel
  have hderives := sound nestingLimit 0 _ hrun rfl
  refine ⟨hderives, (complete (signedSum.drop 5) hderives (ends_closing rfl)).resolve_right ?_⟩
  rintro ⟨place, t, hdeep⟩
  cases hrun.symm.trans hdeep

/-- Among the tokens of a text the negative numbers are those written with a minus sign. So the flag
of the token says nothing that the text does not. -/
theorem isNegative_iff_text {t : Text} {x : Token} (h : x ∈ tokens t) :
    Grammar.isNegative x.kind = true ↔
      (∃ sign, x.kind = .integer sign ∨ x.kind = .real sign) ∧ x.text.head? = some '-' := by
  obtain ⟨start, c, u, rfl⟩ := exists_firstToken h
  rw [isNegative_iff, show (firstToken start c u).text.head? = some c from rfl,
    Option.some.injEq]
  constructor
  · intro hneg
    have hsign := sign_of_number hneg
    exact ⟨⟨true, hneg⟩, beq_iff_eq.1 hsign.symm⟩
  · rintro ⟨⟨sign, hnumber⟩, rfl⟩
    have hsign := sign_of_number hnumber
    subst hsign
    exact hnumber

end GeneratedKeys
