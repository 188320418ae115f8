import GeneratedKeys.Text.LetterCase
import GeneratedKeys.Text.Span

/-!
# `GeneratedKeys.Proofs.Text.Caseless`: what does not see letter case

Only the 26 capitals of ASCII are changed where letters are made small, and each stays as long in
bytes as it was. A function of characters that takes the same value on each capital and its small
letter is `Caseless`. Whatever is found in a text by such functions is found in its small form as
well, at the same place.

* `caseless_of_capitals`, `caseless_of_map_eq`: it is enough to look at the capitals.
* `Text.map_toUpper_eq_iff`: texts that are the same in capitals.
* `Caseless.takeWhile_lower`, `Caseless.dropWhile_lower`: runs of characters.
* `Span.slice_lower`: the small form of a slice is the slice of the small form.
-/

set_option autoImplicit false

namespace GeneratedKeys

/-- The letters that have another small form. Every other character is its own small form, also the
letters outside ASCII. -/
def capitals : List Char :=
  "ABCDEFGHIJKLMNOPQRSTUVWXYZ".toList

/-- The function takes the same value on a letter and its small form. A scanner that looks at
characters through such functions only does not see letter case. -/
def Caseless {α : Type} (f : Char → α) : Prop :=
  ∀ c, f c.toLower = f c

/-- The letters that have another small form are those between A and Z. -/
theorem mem_capitals_of_toNat {c : Char} (low : 65 ≤ c.toNat) (high : c.toNat ≤ 90) :
    c ∈ capitals := by
  have hall : ∀ n ∈ List.range 91, 65 ≤ n → Char.ofNat n ∈ capitals := by decide
  have hmem := hall c.toNat (List.mem_range.2 (by omega)) low
  rwa [Char.ofNat_toNat] at hmem

/-- Every other character is its own small form, so only the capitals have to be looked at. -/
theorem toLower_of_not_mem {c : Char} (h : c ∉ capitals) : c.toLower = c := by
  refine dif_neg ?_
  rintro ⟨low, high⟩
  exact h (mem_capitals_of_toNat low high)

/-- It is enough that the function does not tell the capitals from their small forms. All other
characters are their own small forms. -/
theorem caseless_of_capitals {α : Type} {f : Char → α} (h : ∀ c ∈ capitals, f c.toLower = f c) :
    Caseless f := by
  intro c
  by_cases hc : c ∈ capitals
  · exact h c hc
  · rw [toLower_of_not_mem hc]

/-- The values on the capitals and on their small forms, as lists that can be compared. Evaluating
both lists then proves that a test does not see letter case. -/
theorem caseless_of_map_eq {α : Type} {f : Char → α}
    (h : capitals.map (fun c => f c.toLower) = capitals.map f) : Caseless f :=
  caseless_of_capitals (List.map_inj_left.1 h)

/-- Letters of one small form have the same value, whichever of the two forms they are written in.
-/
theorem Caseless.congr {α : Type} {f : Char → α} (hf : Caseless f) {c d : Char}
    (h : c.toLower = d.toLower) : f c = f d := by
  rw [← hf c, h, hf d]

/-- Making a letter small twice is making it small once. -/
theorem caseless_toLower : Caseless Char.toLower :=
  caseless_of_map_eq (by decide)

/-- A letter and its small form take the same number of bytes, so places do not move. -/
theorem caseless_utf8Size : Caseless Char.utf8Size :=
  caseless_of_map_eq (by decide)

/-- A letter and its small form have the same capital. -/
theorem caseless_toUpper : Caseless Char.toUpper :=
  caseless_of_map_eq (by decide)

/-- A letter in capitals has the same small form. -/
theorem toLower_toUpper (c : Char) : c.toUpper.toLower = c.toLower := by
  by_cases hsmall : 97 ≤ c.toNat ∧ c.toNat ≤ 122
  · have hall : ∀ n ∈ List.range 123, 97 ≤ n →
        (Char.ofNat n).toUpper.toLower = (Char.ofNat n).toLower := by decide +kernel
    have hc := hall c.toNat (List.mem_range.2 (by omega)) hsmall.1
    rwa [Char.ofNat_toNat] at hc
  · have hsame : c.toUpper = c := dif_neg hsmall
    rw [hsame]

/-- Two characters are the same in capitals exactly if they have the same small form. -/
theorem toUpper_eq_iff {c d : Char} : c.toUpper = d.toUpper ↔ c.toLower = d.toLower := by
  constructor
  · intro h
    rw [← toLower_toUpper c, h, toLower_toUpper d]
  · exact fun h => caseless_toUpper.congr h

/-! ### Runs of characters -/

section

variable {p : Char → Bool} (hp : Caseless p) (t : Text)
include hp

/-- A run of characters that pass such a test is found in the small form as well, at the same place
and with the same length. -/
theorem Caseless.takeWhile_lower : (Text.lower t).takeWhile p = Text.lower (t.takeWhile p) := by
  rw [Text.lower, Text.lower, List.takeWhile_map, show p ∘ Char.toLower = p from funext hp]

/-- And so is what follows the run, which is where the next token of the text begins. -/
theorem Caseless.dropWhile_lower : (Text.lower t).dropWhile p = Text.lower (t.dropWhile p) := by
  rw [Text.lower, Text.lower, List.dropWhile_map, show p ∘ Char.toLower = p from funext hp]

/-- A run has the same length, and with it every token that is a run of characters of one class. -/
theorem Caseless.length_takeWhile_lower :
    ((Text.lower t).takeWhile p).length = (t.takeWhile p).length := by
  rw [hp.takeWhile_lower, Text.length_lower]

end

/-! ### Bytes -/

namespace Text

/-- The small form is its own small form, so small forms can be compared without making them small
again. -/
@[simp] theorem lower_lower (t : Text) : lower (lower t) = lower t := by
  rw [lower, lower, List.map_map, show Char.toLower ∘ Char.toLower = Char.toLower from
    funext caseless_toLower]

/-- Dropping characters and making letters small can be exchanged. -/
theorem lower_drop (n : Nat) (t : Text) : lower (t.drop n) = (lower t).drop n :=
  List.map_drop

/-- Two texts are the same in capitals exactly if they are equal up to letter case. Names are stored
in capitals and compared in small letters, and this connects the two. -/
theorem map_toUpper_eq_iff {t u : Text} :
    t.map Char.toUpper = u.map Char.toUpper ↔ sameIgnoringCase t u = true := by
  rw [sameIgnoringCase_iff]
  induction t generalizing u with
  | nil => cases u <;> simp
  | cons c t ih => cases u <;> simp [toUpper_eq_iff, ih]

/-- Texts that are equal up to letter case have the same number of characters. -/
theorem length_eq_of_lower_eq {t u : Text} (h : lower t = lower u) : t.length = u.length := by
  rw [← length_lower t, h, length_lower]

/-- They have the same number of bytes as well, so byte offsets in the small form are those in the
text. -/
@[simp] theorem size_lower (t : Text) : size (lower t) = size t := by
  induction t with
  | nil => rfl
  | cons c t ih => rw [lower_cons, size_cons, size_cons, caseless_utf8Size c, ih]

/-- What follows a byte offset is the same up to letter case, and the offset lies inside a character
in both or in neither. -/
theorem dropBytes?_lower (n : Nat) (t : Text) :
    dropBytes? n (lower t) = (dropBytes? n t).map lower := by
  induction t generalizing n with
  | nil => cases n <;> rfl
  | cons c t ih =>
      cases n with
      | zero => rfl
      | succ n =>
          rw [lower_cons, dropBytes?, dropBytes?, caseless_utf8Size c, ih]
          split <;> rfl

/-- The same holds for what stands in front of the offset, and neither has an answer where the other
has none. -/
theorem takeBytes?_lower (n : Nat) (t : Text) :
    takeBytes? n (lower t) = (takeBytes? n t).map lower := by
  induction t generalizing n with
  | nil => cases n <;> rfl
  | cons c t ih =>
      cases n with
      | zero => rfl
      | succ n =>
          rw [lower_cons, takeBytes?, takeBytes?, caseless_utf8Size c, ih]
          split
          · rw [Option.map_map, Option.map_map]
            rfl
          · rfl

end Text

/-- The small form of a slice is the slice of the small form, since no character changes the length
of its encoding. -/
theorem Span.slice_lower (s : Span) (t : Text) :
    s.slice (Text.lower t) = Text.lower (s.slice t) := by
  rw [slice, slice]
  split
  · rw [Text.dropBytes?_lower]
    cases Text.dropBytes? s.start t with
    | none => rfl
    | some rest =>
        rw [Option.map_some, Option.bind_some, Option.bind_some, Text.takeBytes?_lower]
        cases Text.takeBytes? (s.stop - s.start) rest <;> rfl
  · rfl

end GeneratedKeys
