import GeneratedKeys.Text.LetterCase
import GeneratedKeys.Text.Span

/-!
# `GeneratedKeys.Text.Cursor`: a rewindable place in a text

A `Cursor` is a text cut in two at the place where reading goes on. Looking ahead
or back reports characters in small letters, so that a rule names one spelling
only; the letters as written come from `written` and `slice`.

* `text_moveTo`, `text_advance`: no movement changes the text.
* `index_advance`: an advance moves by the size of the character passed.
* `position_moveTo`: rewinding to a mark restores the place of the mark.
* `settle_false`: a failed attempt leaves no trace.
-/

set_option autoImplicit false

namespace GeneratedKeys

/-- What is seen at a place relative to the cursor. The two answers without a character tell apart
the end of the text and a place that no offset can mean. -/
inductive Lookahead where
  /-- A character, in small letters. -/
  | char (c : Char)
  /-- The place lies behind the last character. -/
  | eof
  /-- The place lies before the first character, or is the cursor itself. -/
  | undefined
  deriving DecidableEq, Repr

/-- A text cut in two: the characters passed, last one first, and those ahead. Moving by one
character is then a step on the two lists, and the whole text is never searched. -/
structure Cursor where
  passed : Text
  ahead : Text
  deriving DecidableEq, Repr

/-- A remembered place, as the number of characters before it. A mark carries no text, so `moveTo`
is right only in the text that the mark was made in. -/
structure Mark where
  position : Nat
  deriving DecidableEq, Repr

namespace Cursor

/-- The cursor before the first character: nothing is passed and the whole text is ahead. -/
def ofText (t : Text) : Cursor := ⟨[], t⟩

/-- The whole text, put together from its two halves. No movement changes it, which is
`text_advance`, `text_moveTo` and `text_advanceBy`. -/
def text (c : Cursor) : Text :=
  c.passed.reverse ++ c.ahead

/-- The number of characters passed. Marks are made of it, while reports use the byte offset
`index`. -/
def position (c : Cursor) : Nat :=
  c.passed.length

/-- The byte offset of the cursor, which is the size of what was passed. An advance moves it by the
size of one character. -/
def index (c : Cursor) : Nat :=
  Text.size c.passed

/-- Whether all characters are passed. Looking one place ahead then sees `Lookahead.eof`. -/
def atEnd (c : Cursor) : Bool :=
  c.ahead.isEmpty

/-- The character `i` places away in small letters: `1` is the next one, `-1` the last one passed.
Offset `0` is the cursor itself and sees no character. -/
def look (c : Cursor) : Int → Lookahead
  | .ofNat 0 => .undefined
  | .ofNat (n + 1) =>
    match c.ahead[n]? with
    | some x => .char x.toLower
    | none => .eof
  | .negSucc n =>
    match c.passed[n]? with
    | some x => .char x.toLower
    | none => .undefined

/-- The next character as written, with its own letter case. At the end there is none. -/
def written (c : Cursor) : Option Char :=
  c.ahead.head?

/-- The cursor after the next character, which moves from one half of the text to the other. At the
end the cursor stays. -/
def advance (c : Cursor) : Cursor :=
  match c.ahead with
  | [] => c
  | x :: rest => ⟨x :: c.passed, rest⟩

/-- The cursor after `n` characters, or at the end if fewer than `n` are left. -/
def advanceBy : Nat → Cursor → Cursor
  | 0, c => c
  | n + 1, c => advanceBy n c.advance

/-- The place of the cursor, to come back to with `moveTo`. Making a mark does not move the cursor.
-/
def mark (c : Cursor) : Mark := ⟨c.position⟩

/-- The cursor at a remembered place of its text. It may lie in either direction; a place behind the
end of the text is taken as the end. -/
def moveTo (m : Mark) (c : Cursor) : Cursor :=
  ⟨(c.text.take m.position).reverse, c.text.drop m.position⟩

/-- Whether the characters ahead begin with `word`, up to letter case. Near the end fewer characters
are ahead than `word` has, and the answer is no. -/
def startsWith (word : Text) (c : Cursor) : Bool :=
  Text.sameIgnoringCase (c.ahead.take word.length) word

/-- Passes `word` if it is ahead, up to letter case; otherwise the cursor stays. The answer says
which of the two happened, so a caller need not compare places. -/
def passWord (word : Text) (c : Cursor) : Bool × Cursor :=
  if c.startsWith word then (true, advanceBy word.length c) else (false, c)

/-- The place after an attempt that began at `c` and reached `reached`: where it ended if it
succeeded, and otherwise where it began. The way back is a rewind to a mark, as the program does it.
-/
def settle (c : Cursor) (succeeded : Bool) (reached : Cursor) : Cursor :=
  if succeeded then reached else reached.moveTo c.mark

/-- The text between two byte offsets, with letters as written. It does not depend on where in the
text the cursor stands. -/
def slice (start stop : Nat) (c : Cursor) : Text :=
  Span.slice ⟨start, stop⟩ c.text

/-- A new cursor stands in the text that it was made for. -/
@[simp] theorem text_ofText (t : Text) : (ofText t).text = t := rfl

/-- Passing a character moves it from one half of the text to the other. At the end nothing is
moved. -/
@[simp] theorem text_advance (c : Cursor) : c.advance.text = c.text := by
  unfold advance text
  split <;> simp [*]

/-- Passing many characters keeps the text as well, also if fewer are left than should be passed. -/
@[simp] theorem text_advanceBy (n : Nat) (c : Cursor) : (advanceBy n c).text = c.text := by
  induction n generalizing c with
  | zero => rfl
  | succ n ih => rw [advanceBy, ih, text_advance]

/-- A rewind moves within the text, whatever the mark, so marks of other texts do no harm. -/
@[simp] theorem text_moveTo (m : Mark) (c : Cursor) : (c.moveTo m).text = c.text := by
  simp [moveTo, text]

/-- The offset grows by the encoding of the character passed, and not at all at the end. -/
theorem index_advance (c : Cursor) :
    c.advance.index = c.index + (c.written.map Char.utf8Size).getD 0 := by
  unfold advance index written
  split <;> simp [*, Nat.add_comm]

/-- Rewinding to a mark of the same text restores the place of the mark. A mark behind the end of
the text would be taken as the end. -/
theorem position_moveTo (m : Mark) (c : Cursor) (h : m.position ≤ c.text.length) :
    (c.moveTo m).position = m.position := by
  simp [moveTo, position, Nat.min_eq_left h]

/-- A cursor that moved within its text comes back whole: both halves are as they were when the mark
was made. -/
theorem moveTo_mark (c d : Cursor) (h : d.text = c.text) : d.moveTo c.mark = c := by
  rw [moveTo, h]
  simp [mark, position, text]

/-- A failed attempt leaves no trace, wherever it went in the text. The next rule then reads from
the place where the attempt began. -/
theorem settle_false (c d : Cursor) (h : d.text = c.text) : c.settle false d = c :=
  moveTo_mark c d h

end Cursor

end GeneratedKeys
