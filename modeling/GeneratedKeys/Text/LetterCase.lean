import GeneratedKeys.Text.Basic

/-!
# `GeneratedKeys.Text.LetterCase`: comparison up to ASCII letter case

Reserved words, option names and the letters that open a literal are the same in
either case. Only the 26 ASCII letters have two cases here; every other character
equals itself alone.

* `sameIgnoringCase_iff`: two texts are equal up to case exactly when their lower
  forms are equal.
-/

set_option autoImplicit false

namespace GeneratedKeys

namespace Text

/-- The text with ASCII capitals made small. Other letters stay as they are, which is what keywords
are compared by. -/
def lower (t : Text) : Text :=
  t.map Char.toLower

/-- Equality up to ASCII letter case. Letters outside ASCII count as written, which is how keywords
and object names are compared. -/
def sameIgnoringCase (s t : Text) : Bool :=
  lower s == lower t

/-- Nothing is made small in the empty text. -/
@[simp] theorem lower_nil : lower [] = [] := rfl

/-- Letters are made small one by one, and no letter becomes two, so places in characters stay. -/
@[simp] theorem lower_cons (c : Char) (t : Text) : lower (c :: t) = c.toLower :: lower t := rfl

/-- So the parts of a text can be made small apart, and the places between them stay. -/
@[simp] theorem lower_append (s t : Text) : lower (s ++ t) = lower s ++ lower t := by
  simp [lower]

/-- The number of characters stays, and with it every place that is counted in characters. -/
@[simp] theorem length_lower (t : Text) : (lower t).length = t.length := by
  simp [lower]

/-- Two texts are equal up to letter case if their small forms are equal. Later proofs compare small
forms and do not look at the test again. -/
theorem sameIgnoringCase_iff {s t : Text} : sameIgnoringCase s t = true ↔ lower s = lower t := by
  simp [sameIgnoringCase]

/-- Every text is equal to itself up to letter case. -/
@[simp] theorem sameIgnoringCase_refl (t : Text) : sameIgnoringCase t t = true := by
  simp [sameIgnoringCase]

/-- The order in which two texts are compared does not matter. -/
theorem sameIgnoringCase_comm (s t : Text) : sameIgnoringCase s t = sameIgnoringCase t s := by
  rw [Bool.eq_iff_iff, sameIgnoringCase_iff, sameIgnoringCase_iff, eq_comm]

end Text

end GeneratedKeys
