import GeneratedKeys.Text.Basic

/-!
# `GeneratedKeys.Text.Span`: byte ranges of a text

A `Span` is a pair of byte offsets. The spans of tokens always lie on character
boundaries of the text they were cut from; the operations here are total all the
same, and a span that does not fit a text covers nothing of it.

* `slice_append`: the span of a middle part covers exactly that part.
-/

set_option autoImplicit false

namespace GeneratedKeys

/-- The bytes from `start` up to, and without, `stop`. Nothing keeps the ends in order; `size?` and
`slice` say what a span with its ends reversed stands for. -/
structure Span where
  start : Nat
  stop : Nat
  deriving DecidableEq, Repr, Inhabited

namespace Span

/-- The span of no bytes at the beginning of a text. It stands for the place of a problem that has
no token. -/
def origin : Span := ⟨0, 0⟩

/-- The number of bytes covered. A span whose ends are in the wrong order has none. -/
def size? (s : Span) : Option Nat :=
  if s.start ≤ s.stop then some (s.stop - s.start) else none

/-- Whether the ends coincide. A span whose ends are in the wrong order is not empty, and has no
size. -/
def isEmpty (s : Span) : Bool :=
  s.start == s.stop

/-- The smallest span that reaches from the first start to the last end. What lies between two spans
belongs to their merge. -/
def merge (s t : Span) : Span :=
  ⟨min s.start t.start, max s.stop t.stop⟩

/-- The span moved `n` bytes to the right, as when `n` bytes are put in front of the text. -/
def shift (n : Nat) (s : Span) : Span :=
  ⟨s.start + n, s.stop + n⟩

/-- The part of `t` that the span covers. It is empty for a span that is
reversed, out of range or off a character boundary. -/
def slice (s : Span) (t : Text) : Text :=
  if s.start ≤ s.stop then
    ((Text.dropBytes? s.start t).bind (Text.takeBytes? (s.stop - s.start))).getD []
  else []

/-- It does not matter which of two spans is merged into which. -/
theorem merge_comm (s t : Span) : s.merge t = t.merge s := by
  simp [merge, Nat.min_comm, Nat.max_comm]

/-- Merging a span with itself adds nothing. -/
@[simp] theorem merge_self (s : Span) : s.merge s = s := by
  simp [merge]

/-- The span of a middle part covers exactly that part, by `dropBytes?_size` and `takeBytes?_size`.
Every slice of a token goes back to this. -/
theorem slice_append (before part after : Text) :
    slice ⟨Text.size before, Text.size before + Text.size part⟩ (before ++ (part ++ after))
      = part := by
  simp [slice, Text.dropBytes?_size, Text.takeBytes?_size]

end Span

end GeneratedKeys
