import GeneratedKeys.Statement.Error
import GeneratedKeys.Statement.Basic

/-!
# `GeneratedKeys.Statement.State`: a place in a statement being read

A `State` is a place between two tokens together with what was found before it: the
parts of the statement and the repairs made. Reading either goes on or stops with an
error; what was found before the error is kept in both cases.

A missing token is repaired in two situations only: one stray token stands before it,
or it is a closing parenthesis at the end of the text. No repair is made and no part
is kept during an attempt.

* `tokens_take`, `tokens_expect`: no step loses or adds a token.
-/

set_option autoImplicit false

namespace GeneratedKeys

/-- A repair of the statement. Repairs are made outside attempts only, and each is reported as a
problem. -/
inductive Repair where
  /-- A stray token was dropped in front of a wanted one. -/
  | dropped (found : Token) (wanted : TokenKind)
  /-- A token missing at the end of the text was assumed. -/
  | supplied (wanted : TokenKind) (place : Span)
  deriving DecidableEq, Repr

/-- The problem that a repair stands for. Its place is the dropped token, or the end of the text
where a token was supplied. -/
def Repair.diagnostic : Repair → Diagnostic
  | dropped found wanted =>
    ⟨.recovered,
      "Extraneous input " ++ found.kind.describe ++ ", expected " ++ wanted.describe, found.span⟩
  | supplied wanted place =>
    ⟨.recovered, "Missing " ++ wanted.describe ++ " at end of input", place⟩

/-- A place in a statement and what was found before it. The tokens passed are kept in reverse, so
that a step moves one token over. -/
structure State where
  /-- The tokens passed, the last one first. -/
  before : List Token
  /-- The tokens ahead. -/
  after : List Token
  /-- The size of the whole text in bytes. -/
  size : Nat
  found : Statement Span
  repairs : List Repair
  /-- The number of attempts under way. -/
  attempts : Nat
  deriving DecidableEq, Repr

/-- How reading a rule ends: it goes on, or it stops. A rule that stops still tells the place it has
reached, from which the statement is skipped. -/
inductive Outcome where
  | ok (s : State)
  | stop (e : ParseError) (s : State)
  deriving DecidableEq, Repr

namespace Outcome

/-- The place reached, either way. Claims about what any outcome keeps are stated of it. -/
def state : Outcome → State
  | ok s | stop _ s => s

/-- Whether reading goes on. A rule that made a repair goes on as well. -/
def isOk : Outcome → Bool
  | ok _ => true
  | stop _ _ => false

/-- Goes on with `next` unless reading stopped. Then the error and the place of the stop are what
the whole sequence ends with. -/
def andThen (o : Outcome) (next : State → Outcome) : Outcome :=
  match o with
  | ok s => next s
  | stop e s => stop e s

/-- What was read goes on with the next rule. -/
@[simp] theorem ok_andThen (s : State) (next : State → Outcome) :
    (ok s).andThen next = next s := rfl

/-- What has stopped does not go on, and keeps its error and its place. -/
@[simp] theorem stop_andThen (e : ParseError) (s : State) (next : State → Outcome) :
    (stop e s).andThen next = stop e s := rfl

/-- Two rules in a row succeed exactly if the first one does and the second one does behind it. -/
theorem andThen_eq_ok {o : Outcome} {next : State → Outcome} {t : State} :
    o.andThen next = ok t ↔ ∃ s, o = ok s ∧ next s = ok t := by
  cases o <;> simp

end Outcome

namespace State

/-- The place before the first of the given tokens, with nothing found and no attempt under way. -/
def initial (tokens : List Token) (size : Nat) : State :=
  ⟨[], tokens, size, .unknown, [], 0⟩

/-- All tokens of the statement, wherever the place is. No step changes them, so reading never
invents or loses one. -/
def tokens (s : State) : List Token :=
  s.before.reverse ++ s.after

/-- The number of tokens passed. It grows along a reading, except where an attempt goes back to its
beginning. -/
def position (s : State) : Nat :=
  s.before.length

/-- The next token; at the end, the token of the end. So there is always a token to describe in an
error. -/
def next (s : State) : Token :=
  s.after.head?.getD (.atEnd s.size)

/-- Whether all tokens are passed. The tokens of a state are those that the grammar reads, so blanks
and comments may still follow. -/
def atEnd (s : State) : Bool :=
  s.after.isEmpty

/-- Whether the next tokens pass the tests, one each. If there are fewer tokens than tests, they do
not. -/
def passes : List (TokenKind → Bool) → List Token → Bool
  | [], _ => true
  | _ :: _, [] => false
  | test :: tests, t :: ts => test t.kind && passes tests ts

/-- The place after the next token. At the end it stays, as there is nothing to pass. -/
def take (s : State) : State :=
  match s.after with
  | [] => s
  | t :: rest => { s with before := t :: s.before, after := rest }

/-- The place after `n` tokens, or the end if fewer are ahead. -/
def takeMany : Nat → State → State
  | 0, s => s
  | n + 1, s => takeMany n s.take

/-- The error that something else was wanted here. It names the next token and its place. -/
def unexpected (s : State) (wanted : String) : ParseError :=
  .unexpected wanted s.next.kind s.next.span

/-- Notes a repair. Those made before stay in front, so repairs are reported in the order of the
text. -/
def repair (r : Repair) (s : State) : State :=
  { s with repairs := s.repairs ++ [r] }

/-- Passes a token of the wanted kind. Outside attempts a stray token before it is dropped, and a
closing parenthesis missing at the end is assumed. Everything else stops the reading where it is. -/
def expect (wanted : TokenKind) (s : State) : Outcome :=
  match s.after with
  | [] =>
    if s.attempts = 0 ∧ wanted = .rightParen then
      .ok (s.repair (.supplied wanted s.next.span))
    else .stop (s.unexpected wanted.describe) s
  | t :: rest =>
    if t.kind.sameClass wanted then .ok s.take
    else if s.attempts = 0 ∧ rest.head?.any (·.kind.sameClass wanted) then
      .ok (takeMany 2 (s.repair (.dropped t wanted)))
    else .stop (s.unexpected wanted.describe) s

/-- Keeps a part of the statement, unless an attempt is under way. An attempt is read again once it
is decided, and keeps its parts then. -/
def record (p : Part) (range : Span) (s : State) : State :=
  if s.attempts = 0 then { s with found := s.found.record p range } else s

/-- Settles the type of the statement, unless an attempt is under way. -/
def declare (t : StatementType) (s : State) : State :=
  if s.attempts = 0 then { s with found := s.found.ofType t } else s

/-- Notes that default values are inserted, unless an attempt is under way, like every change of
what is known. -/
def noteDefaults (s : State) : State :=
  if s.attempts = 0 then { s with found := s.found.withDefaultValues } else s

/-- The bytes from the token ahead of `start` to the last token passed. Where nothing was passed
since, the range is empty and lies before that token. -/
def rangeFrom (start s : State) : Span :=
  let first := start.next.start
  ⟨first, max first ((s.before.head?.map Token.stop).getD first)⟩

/-- Begins an attempt. Attempts nest, so they are counted. -/
def enter (s : State) : State :=
  { s with attempts := s.attempts + 1 }

/-- Ends an attempt that began at `start`, and returns to the place of `start`. What the attempt
found and repaired is nothing, so only the place and the count go back. -/
def leave (start s : State) : State :=
  { s with before := start.before, after := start.after, attempts := s.attempts - 1 }

/-- The number of tokens up to a RETURNING, a semicolon or the end outside
parentheses, when `depth` parentheses are open. Closing one that is not open changes
nothing. -/
def bodyLength (depth : Nat) : List Token → Nat
  | [] => 0
  | t :: ts =>
    if depth = 0 ∧ (t.kind = .semicolon ∨ t.kind = .keyword .returning) then 0
    else if t.kind = .leftParen then bodyLength (depth + 1) ts + 1
    else if t.kind = .rightParen then bodyLength (depth - 1) ts + 1
    else bodyLength depth ts + 1

/-- Passes the tokens up to a RETURNING, a semicolon or the end outside parentheses. This is how a
body is passed over whose values are of no interest. -/
def skip (s : State) : State :=
  takeMany (bodyLength 0 s.after) s

/-- Passes the tokens up to the next semicolon or the end, whatever parentheses are open. This is
how an abandoned statement is left. -/
def skipToEnd (s : State) : State :=
  takeMany (s.after.takeWhile fun t => t.kind ≠ .semicolon).length s

/-- Passing a token loses none of them: it only moves from the tokens ahead to those behind. -/
@[simp] theorem tokens_take (s : State) : s.take.tokens = s.tokens := by
  unfold take
  split <;> simp [tokens, *]

/-- Nor does passing several, which is how bodies and the ends of abandoned statements are skipped.
-/
@[simp] theorem tokens_takeMany (n : Nat) (s : State) : (takeMany n s).tokens = s.tokens := by
  induction n generalizing s with
  | zero => rfl
  | succ n ih => rw [takeMany, ih, tokens_take]

/-- A repair changes what is known, not the tokens. It is a note for the report, made beside them.
-/
@[simp] theorem tokens_repair (r : Repair) (s : State) : (s.repair r).tokens = s.tokens := rfl

/-- Expecting a token loses none of them, whether it is there, missing or behind a stray one. A
repair is a note about the tokens and does not edit them. -/
theorem tokens_expect (wanted : TokenKind) (s : State) :
    (s.expect wanted).state.tokens = s.tokens := by
  unfold expect
  split <;> split <;> try split
  all_goals simp [Outcome.state]

end State

end GeneratedKeys
