import GeneratedKeys.Text.Span

/-!
# `GeneratedKeys.Proofs.Text.Slice`: slices of an edited text

A slice of a text depends on the bytes that it covers only. Whatever is put behind them
leaves the slice as it is, and whatever is put in front of them moves it.

* `slice_append_of_le`: a slice of a first part.
* `slice_shift`: a slice of a last part.
-/

set_option autoImplicit false

namespace GeneratedKeys

namespace Text

/-- The first bytes of a text do not depend on what is put behind it. -/
theorem takeBytes?_append {n : Nat} {t : Text} (h : n ≤ size t) (u : Text) :
    takeBytes? n (t ++ u) = takeBytes? n t := by
  induction t generalizing n with
  | nil =>
      cases Nat.le_zero.1 h
      rw [takeBytes?_zero, takeBytes?_zero]
  | cons c t ih =>
      cases n with
      | zero => rfl
      | succ n =>
          have hlen : n + 1 - c.utf8Size ≤ size t := by
            rw [size_cons] at h
            omega
          rw [List.cons_append, takeBytes?, takeBytes?, ih hlen]

/-- What follows the first bytes is followed by whatever is put behind the text. The induction is on
the text, with the offset counted down by the length of each character. -/
theorem dropBytes?_append {n : Nat} {t : Text} (h : n ≤ size t) (u : Text) :
    dropBytes? n (t ++ u) = (dropBytes? n t).map (· ++ u) := by
  induction t generalizing n with
  | nil =>
      cases Nat.le_zero.1 h
      rw [dropBytes?_zero, dropBytes?_zero]
      rfl
  | cons c t ih =>
      cases n with
      | zero => rfl
      | succ n =>
          -- The offset behind the first character lies within the others.
          have hlen : n + 1 - c.utf8Size ≤ size t := by
            rw [size_cons] at h
            omega
          rw [List.cons_append, dropBytes?, dropBytes?, ih hlen]
          split <;> rfl

/-- Dropping a first part and some bytes more is dropping these bytes from what follows the part. -/
theorem dropBytes?_size_add (t : Text) (n : Nat) (u : Text) :
    dropBytes? (size t + n) (t ++ u) = dropBytes? n u := by
  induction t with
  | nil => rw [size_nil, Nat.zero_add, List.nil_append]
  | cons c t ih =>
      rw [List.cons_append, size_cons, Nat.add_assoc, dropBytes?_cons_add, ih]

/-- The offset and the size of what follows it add up to the size of the text. -/
theorem size_of_dropBytes? {n : Nat} {t u : Text} (h : dropBytes? n t = some u) :
    n + size u = size t := by
  induction t generalizing n with
  | nil =>
      cases n with
      | zero =>
          cases h
          rfl
      | succ n => cases h
  | cons c t ih =>
      cases n with
      | zero =>
          cases h
          exact Nat.zero_add _
      | succ n =>
          rw [dropBytes?] at h
          split at h
          -- The first character is passed whole; otherwise nothing would follow.
          · have := ih h
            rw [size_cons]
            omega
          · cases h

end Text

namespace Span

/-- A span without bytes covers no character, wherever it is, also behind the end of the text. -/
theorem slice_empty (k : Nat) (t : Text) : slice ⟨k, k⟩ t = [] := by
  rw [slice, if_pos (Nat.le_refl k), Nat.sub_self]
  cases Text.dropBytes? k t with
  | none => rfl
  | some u => exact congrArg (Option.getD · []) (Text.takeBytes?_zero u)

/-- A slice whose ends are in the wrong order is empty, like one without bytes. -/
theorem slice_max (a b : Nat) (t : Text) : slice ⟨a, max a b⟩ t = slice ⟨a, b⟩ t := by
  rcases Nat.le_total a b with h | h
  · rw [Nat.max_eq_right h]
  · rw [Nat.max_eq_left h, slice_empty]
    rcases Nat.eq_or_lt_of_le h with rfl | h
    · rw [slice_empty]
    · rw [slice, if_neg (Nat.not_le.2 h)]

/-- A slice of a first part does not depend on what is behind it. So the parts of a statement stay
when a clause is appended. -/
theorem slice_append_of_le {s : Span} {t : Text} (h : s.stop ≤ Text.size t) (u : Text) :
    s.slice (t ++ u) = s.slice t := by
  rw [slice, slice]
  split
  · rw [Text.dropBytes?_append (by omega)]
    cases hdrop : Text.dropBytes? s.start t with
    | none => rfl
    | some v =>
        have hsize := Text.size_of_dropBytes? hdrop
        show (Text.takeBytes? _ (v ++ u)).getD [] = (Text.takeBytes? _ v).getD []
        rw [Text.takeBytes?_append (by omega)]
  · rfl

/-- A slice of a last part moves with it: with `t` in front, the same text lies that many bytes
further on. -/
theorem slice_shift (s : Span) (t u : Text) :
    (s.shift (Text.size t)).slice (t ++ u) = s.slice u := by
  have hlen : s.stop + Text.size t - (s.start + Text.size t) = s.stop - s.start := by omega
  have hle : s.start + Text.size t ≤ s.stop + Text.size t ↔ s.start ≤ s.stop := by omega
  simp only [slice, shift, hlen, hle]
  rw [Nat.add_comm s.start, Text.dropBytes?_size_add]

end Span

end GeneratedKeys
