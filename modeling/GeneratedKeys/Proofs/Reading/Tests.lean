import GeneratedKeys.Statement.State
import GeneratedKeys.Statement.Rule

/-!
# `GeneratedKeys.Proofs.Reading.Tests`: tests on the tokens ahead

A rule decides between its alternatives by tests on the kinds of the next tokens. The
lemmas turn each test into the kinds that pass it.

* `TokenKind.sameClass_iff`: kinds that carry no value are of one class only if they are
  equal, so a wanted token is known from the kind that was wanted.
-/

set_option autoImplicit false

namespace GeneratedKeys

namespace TokenKind

/-- Whether tokens of the kind differ in a value that they carry. Tests of the grammar do not see
that value. -/
def hasValue : TokenKind → Bool
  | integer _ | real _ | string _ | identifier _ | quotedIdentifier _ | error _ => true
  | _ => false

/-- A kind without a value is alone in its class. Tests for punctuation and keywords are therefore
equations. -/
theorem sameClass_iff {j k : TokenKind} (hk : k.hasValue = false) :
    j.sameClass k = true ↔ j = k := by
  cases k <;> first | (simp [hasValue] at hk; done) | (cases j <;> simp [sameClass])

/-- All integers are of one class, with a sign or without, as their value does not count. -/
theorem sameClass_integer {j : TokenKind} {b : Bool} :
    j.sameClass (.integer b) = true ↔ ∃ b', j = .integer b' := by
  cases j <;> simp [sameClass]

end TokenKind

namespace State

variable {test test' : TokenKind → Bool} {ts : List Token}

/-- One test asks for the kind of the next token. -/
@[simp] theorem passes_one_cons {t : Token} : passes [test] (t :: ts) = test t.kind := by
  simp [passes]

/-- One test holds if there is a next token that passes it. -/
theorem passes_one_iff : passes [test] ts = true ↔ ∃ t us, ts = t :: us ∧ test t.kind = true := by
  cases ts <;> simp [passes]

/-- Two tests hold if there are two tokens ahead of which each passes its test. -/
theorem passes_two_iff :
    passes [test, test'] ts = true ↔
      ∃ t u us, ts = t :: u :: us ∧ test t.kind = true ∧ test' u.kind = true := by
  constructor
  -- With fewer than two tokens ahead one of the tests would have nothing to look at.
  · intro h
    cases ts with
    | nil => cases h
    | cons t ts =>
        cases ts with
        | nil => simp [passes] at h
        | cons u us =>
            simp only [passes, Bool.and_true, Bool.and_eq_true] at h
            exact ⟨t, u, us, rfl, h.1, h.2⟩
  · rintro ⟨t, u, us, rfl, ht, hu⟩
    simp [passes, ht, hu]

end State

namespace Rule

/-- The test for a kind without a value asks for exactly that kind. -/
theorem isA_iff {kind found : TokenKind} (h : kind.hasValue = false) :
    isA kind found = true ↔ found = kind :=
  TokenKind.sameClass_iff h

/-- The test for a word asks for exactly that word, since keywords carry no value that it could pass
over. -/
theorem isWord_iff {k : Keyword} {found : TokenKind} : isWord k found = true ↔ found = .keyword k :=
  TokenKind.sameClass_iff rfl

/-- A token of the kind passes the test for it. -/
theorem passes_isA {kind : TokenKind} (h : kind.hasValue = false) {t : Token} (ht : t.kind = kind)
    (ts : List Token) : State.passes [isA kind] (t :: ts) = true := by
  rw [State.passes_one_cons, isA_iff h, ht]

/-- A token of the word passes the test for it. -/
theorem passes_isWord {k : Keyword} {t : Token} (ht : t.kind = .keyword k) (ts : List Token) :
    State.passes [isWord k] (t :: ts) = true :=
  passes_isA rfl ht ts

/-- A token of another kind does not pass it. -/
theorem passes_isA_eq_false {kind : TokenKind} (h : kind.hasValue = false) {t : Token}
    (ht : t.kind ≠ kind) (tests : List (TokenKind → Bool)) (ts : List Token) :
    State.passes (isA kind :: tests) (t :: ts) = false := by
  rw [State.passes, Bool.and_eq_false_iff, ← Bool.not_eq_true, isA_iff h]
  exact .inl ht

/-- The test for one of several words asks for one of them. -/
theorem isWordOf_iff {ks : List Keyword} {found : TokenKind} :
    isWordOf ks found = true ↔ ∃ k ∈ ks, found = .keyword k := by
  simp only [isWordOf, List.any_eq_true, isWord_iff]

end Rule

end GeneratedKeys
