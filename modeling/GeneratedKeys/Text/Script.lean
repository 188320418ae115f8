import GeneratedKeys.Text.Cursor

/-!
# `GeneratedKeys.Text.Script`: programs of cursor steps

A `Script` is a list of steps that drive one cursor: looks, advances, word matches,
marks, rewinds, and attempts that themselves run steps. Running it reports, after
every step, the answer of the step with the place reached. Marks are numbered in
the order in which they are made, inside attempts too.
-/

set_option autoImplicit false

namespace GeneratedKeys

/-- One step of a script. Steps move the cursor or only look; an attempt holds steps of its own, so
scripts nest to any depth. -/
inductive Step where
  | look (offset : Int)
  | written
  | advance
  | passWord (word : Text)
  | mark
  | rewind (number : Nat)
  | slice (start stop : Nat)
  /-- Runs steps as an attempt that reports `succeeds`. -/
  | attempt (steps : List Step) (succeeds : Bool)

/-- What a step answers. `attempt` reports the inner steps as they were seen,
whether or not the attempt was undone. -/
inductive Answer where
  | saw (l : Lookahead)
  | wrote (c : Option Char)
  | done
  | matched (b : Bool)
  | marked (number : Nat)
  | covered (t : Text)
  | attempted (succeeded : Bool) (inner : List (Answer × Nat × Bool))

/-- An answer with the byte offset after the step and whether the end is reached. -/
abbrev Observation := Answer × Nat × Bool

/-- A cursor with the marks made so far, in order. A step refers to a mark by its number, so a
script can be written down before it is run. -/
structure Session where
  cursor : Cursor
  marks : List Mark

namespace Session

/-- The session before the first step: the cursor stands before the text, and no mark is made. -/
def ofText (t : Text) : Session := ⟨.ofText t, []⟩

/-- The session with its cursor moved. The marks stay, also those that were made further on in the
text. -/
def moved (s : Session) (c : Cursor) : Session := { s with cursor := c }

/-- An answer together with the place reached, as the byte offset and whether it is the end. This is
all that a script lets its caller see. -/
def observe (s : Session) (a : Answer) : Observation :=
  (a, s.cursor.index, s.cursor.atEnd)

end Session

mutual

/-- One step: its answer and the session after it. A rewind to a mark that was never made leaves the
cursor where it is. -/
def Step.run (s : Session) : Step → Answer × Session
  | .look i => (.saw (s.cursor.look i), s)
  | .written => (.wrote s.cursor.written, s)
  | .advance => (.done, s.moved s.cursor.advance)
  | .passWord word =>
    let (b, c) := s.cursor.passWord word
    (.matched b, s.moved c)
  | .mark => (.marked s.marks.length, { s with marks := s.marks ++ [s.cursor.mark] })
  | .rewind n =>
    match s.marks[n]? with
    | some m => (.done, s.moved (s.cursor.moveTo m))
    | none => (.done, s)
  | .slice start stop => (.covered (s.cursor.slice start stop), s)
  | .attempt steps succeeds =>
    let (seen, s') := Step.runAll s steps
    (.attempted succeeds seen, s'.moved (s.cursor.settle succeeds s'.cursor))

/-- A list of steps: what was seen after each, and the session at the end. -/
def Step.runAll (s : Session) : List Step → List Observation × Session
  | [] => ([], s)
  | step :: steps =>
    let (a, s₁) := step.run s
    let (seen, s₂) := Step.runAll s₁ steps
    (s₁.observe a :: seen, s₂)

end

end GeneratedKeys
