import GeneratedKeys.Text.Basic

/-!
# `GeneratedKeys.Text.Number`: decimal numbers

A number is read from one or more digits, which a plus sign may precede, and must lie
below a bound. Numbers are written without leading zeros.

* `number?_decimal`: what is written is read back.
-/

set_option autoImplicit false

namespace GeneratedKeys

namespace Text

/-- The text without a plus sign in front. One sign is taken away at most, so a second one is left
to be refused as no digit. -/
def withoutPlus : Text → Text
  | '+' :: t => t
  | t => t

/-- The number below `bound` that a text spells. A plus sign in front and leading zeros are
accepted; a text without digits, or with anything else, spells none. -/
def number? (bound : Nat) (t : Text) : Option Nat :=
  let digits := withoutPlus t
  let n := Nat.ofDigitChars 10 digits 0
  if digits ≠ [] ∧ digits.all Char.isDigit ∧ n < bound then some n else none

/-- The digits of a number in base ten, without leading zeros. `number?_decimal` says that they are
read back. -/
def decimal (n : Nat) : Text :=
  Nat.toDigits 10 n

/-- Only digits are written, with no sign and no point. So a number can be found again between other
characters. -/
theorem isDigit_of_mem_decimal {n : Nat} {c : Char} (h : c ∈ decimal n) : c.isDigit = true :=
  Nat.isDigit_of_mem_toDigits (by decide) (by decide) h

/-- At least one digit is written, also for zero. An empty text would not be read as a number. -/
theorem decimal_ne_nil (n : Nat) : decimal n ≠ [] := by
  intro h
  have := Nat.length_toDigits_pos (b := 10) (n := n)
  rw [show Nat.toDigits 10 n = [] from h] at this
  exact absurd this (Nat.lt_irrefl 0)

/-- A text of digits has no sign to take away, so reading it looks at the digits at once. -/
theorem withoutPlus_of_digits {t : Text} (h : ∀ c ∈ t, c.isDigit = true) : withoutPlus t = t := by
  cases t with
  | nil => rfl
  | cons c t =>
    have hc : c ≠ '+' := by
      rintro rfl
      exact absurd (h '+' (by simp)) (by decide)
    unfold withoutPlus
    split
    · simp_all
    · rfl

/-- What is written is read back, as long as the number lies below the bound. Version texts rely on
it in both of their parts. -/
theorem number?_decimal {bound n : Nat} (h : n < bound) : number? bound (decimal n) = some n := by
  have digits : ∀ c ∈ decimal n, c.isDigit = true := fun _ hc => isDigit_of_mem_decimal hc
  have read : Nat.ofDigitChars 10 (decimal n) 0 = n :=
    Nat.ofDigitChars_toDigits (by decide) (by decide)
  rw [number?, withoutPlus_of_digits digits, read, if_pos]
  exact ⟨decimal_ne_nil n, by simpa using digits, h⟩

end Text

end GeneratedKeys
