/-!
# `GeneratedKeys.Text.Basic`: text as characters, measured in bytes

A statement is read character by character, while places in it are counted in
bytes of its UTF-8 form. `Text` is the list of characters that every later
definition and theorem speaks about, and `Text.size` is its length in bytes.

* `dropBytes?_size` and `takeBytes?_size`: cutting a text at the size of a first
  part gives back that part and the remainder.
* `size_pos`: a text with a character is at least one byte long, so a place moves
  strictly forward with every character.
-/

set_option autoImplicit false

namespace GeneratedKeys

/-- Text as the list of its characters. Places that are reported to the outside are counted in
bytes, by `size`; recursion over a text goes character by character. -/
abbrev Text := List Char

namespace Text

/-- The length in bytes of the UTF-8 form. It is the length that spans are measured in, so every
position of a report is a `size` of some first part of the text. -/
def size (t : Text) : Nat :=
  t.foldr (fun c n => c.utf8Size + n) 0

/-- What follows the first `n` bytes. There is no answer if `n` lies past the end or inside a
character, so a slice never starts in the middle of an encoding. -/
def dropBytes? : Nat → Text → Option Text
  | 0, t => some t
  | _ + 1, [] => none
  | n + 1, c :: t => if c.utf8Size ≤ n + 1 then dropBytes? (n + 1 - c.utf8Size) t else none

/-- The first `n` bytes, with the same two cases without an answer as `dropBytes?`: `n` lies past
the end, or inside a character. -/
def takeBytes? : Nat → Text → Option Text
  | 0, _ => some []
  | _ + 1, [] => none
  | n + 1, c :: t =>
    if c.utf8Size ≤ n + 1 then (takeBytes? (n + 1 - c.utf8Size) t).map (c :: ·) else none

/-- The empty text has no bytes. -/
@[simp] theorem size_nil : size [] = 0 := rfl

/-- The first character counts with the length of its own encoding. -/
@[simp] theorem size_cons (c : Char) (t : Text) : size (c :: t) = c.utf8Size + size t := rfl

/-- Sizes of texts that are put together add up, so places behind a first part are sums. -/
@[simp] theorem size_append (s t : Text) : size (s ++ t) = size s + size t := by
  induction s with
  | nil => simp
  | cons c s ih => rw [List.cons_append, size_cons, size_cons, ih, Nat.add_assoc]

/-- The size does not depend on the order, which lets a cursor keep the characters passed in
reverse. -/
@[simp] theorem size_reverse (t : Text) : size t.reverse = size t := by
  induction t with
  | nil => rfl
  | cons c t ih => simp [ih, Nat.add_comm]

/-- Every character takes a byte at least, so a place counted in characters is never beyond the same
place counted in bytes. -/
theorem length_le_size (t : Text) : t.length ≤ size t := by
  induction t with
  | nil => simp
  | cons c t ih =>
    have := c.utf8Size_pos
    simp only [List.length_cons, size_cons]
    omega

/-- A text with any character has a byte, so a token that consumes one moves the place forward. -/
theorem size_pos {t : Text} (h : t ≠ []) : 0 < size t :=
  Nat.lt_of_lt_of_le (List.length_pos_iff.2 h) (length_le_size t)

/-- Only the empty text has size zero. Two places of one text with the same byte offset are
therefore the same place. -/
@[simp] theorem size_eq_zero {t : Text} : size t = 0 ↔ t = [] := by
  refine ⟨fun h => ?_, fun h => h ▸ rfl⟩
  cases t with
  | nil => rfl
  | cons c t => exact absurd h (Nat.ne_of_gt (size_pos (List.cons_ne_nil c t)))

/-- Dropping nothing leaves the text, at any text. -/
@[simp] theorem dropBytes?_zero (t : Text) : dropBytes? 0 t = some t := by
  cases t <;> rfl

/-- Taking nothing gives the empty text, at any text. -/
@[simp] theorem takeBytes?_zero (t : Text) : takeBytes? 0 t = some [] := by
  cases t <;> rfl

/-- Past the first character, the bytes to drop are counted from the next one. This is the step of
every induction on the text in front of an offset. -/
theorem dropBytes?_cons_add (c : Char) (t : Text) (n : Nat) :
    dropBytes? (c.utf8Size + n) (c :: t) = dropBytes? n t := by
  obtain ⟨k, hk⟩ : ∃ k, c.utf8Size = k + 1 := ⟨c.utf8Size - 1, by have := c.utf8Size_pos; omega⟩
  rw [hk, show k + 1 + n = (k + n) + 1 by omega, dropBytes?, if_pos (by omega)]
  congr 1
  omega

/-- The same for taking: the first character is kept, and the others are counted from it. -/
theorem takeBytes?_cons_add (c : Char) (t : Text) (n : Nat) :
    takeBytes? (c.utf8Size + n) (c :: t) = (takeBytes? n t).map (c :: ·) := by
  obtain ⟨k, hk⟩ : ∃ k, c.utf8Size = k + 1 := ⟨c.utf8Size - 1, by have := c.utf8Size_pos; omega⟩
  rw [hk, show k + 1 + n = (k + n) + 1 by omega, takeBytes?, if_pos (by omega)]
  congr 2
  omega

/-- Dropping the size of a first part leaves the remainder. The case without an answer does not
arise at the end of a part, since a part consists of whole characters. -/
theorem dropBytes?_size (s t : Text) : dropBytes? (size s) (s ++ t) = some t := by
  induction s with
  | nil => simp
  | cons c s ih => simpa using (dropBytes?_cons_add c (s ++ t) (size s)).trans ih

/-- Taking the size of a first part gives that part. Together with `dropBytes?_size` this is what
makes a slice at token boundaries exact. -/
theorem takeBytes?_size (s t : Text) : takeBytes? (size s) (s ++ t) = some s := by
  induction s with
  | nil => simp
  | cons c s ih => simpa [ih] using takeBytes?_cons_add c (s ++ t) (size s)

end Text

end GeneratedKeys
