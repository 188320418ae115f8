import GeneratedKeys.Proofs.Reading.Depth
import GeneratedKeys.Proofs.Token.Faultless
import Mathlib.Logic.Relation

/-!
# `GeneratedKeys.Proofs.Reading.Machine`: reading by an index

A `State` is a place between two lists of tokens, so it cannot lie outside of them. A `Reader` holds
its place as a number instead: an index into one vector of tokens, the last of which is the token of
the end. Nothing keeps the number inside the vector, and every access may fail.

A `Machine` reads a statement with such a reader, in steps that pass one token at most. What remains
to be done is a stack of frames, and there is no bound on the rounds of a repetition. An attempt
leaves its mark on the stack, the index that the reader returns to. An error takes frames off the
stack until one of them deals with it.

* `Reader.aheadIndex`, `Reader.behindIndex`: the indexes of all accesses.
* `Machine.step`: one step. There is none once the stack is empty, or if an access fails.
* `Machine.ofText`, `Machine.result`: reading the statement in a text from its beginning to its end.
* `State.reader`: the same place as an index.
-/

set_option autoImplicit false

namespace GeneratedKeys

/-- A reader of tokens, at a place in the vector of them. The vector holds the token of the end as
its last one. -/
structure Reader where
  tokens : List Token
  /-- The index of the next token. -/
  index : Nat
  found : Statement Span
  problems : Diagnostics
  /-- The number of attempts under way. -/
  attempts : Nat
  /-- The number of values that are open. -/
  depth : Nat

/-- What remains to be done. A stack of frames stands for the calls that are under way, so a step
never recurses. -/
inductive Frame where
  /-- The first tokens announce the type of the statement. -/
  | announce
  | read (r : Rule)
  /-- The next token is passed. At the end the reader stays. -/
  | pass
  /-- Tokens are skipped, up to a RETURNING, a semicolon or the end outside parentheses. -/
  | skip (depth : Nat)
  /-- Tokens are skipped, up to a semicolon or the end. -/
  | seek
  /-- A part was read. It began at the index `start`, with the byte `first`. -/
  | keep (part : Part) (start first : Nat)
  /-- After an error the parts found are these. -/
  | restore (found : Statement Span)
  /-- A value was read. -/
  | close
  /-- An attempt was made. The reader returns to the mark and goes on with one of the rules. -/
  | rewind (mark : Nat) (yes no : Rule)
  /-- The statement was read, or is skipped to its end after an error. -/
  | recover

/-- A reader, what remains to be done with it, and the error met, if there is one. -/
structure Machine where
  reader : Reader
  stack : List Frame
  error? : Option ParseError

namespace Reader

/-! ### Access to the tokens -/

/-- The index of the token `n` places ahead. It is never greater than that of the last token. -/
def aheadIndex (p : Reader) (n : Nat) : Nat :=
  min (p.index + n) (p.tokens.length - 1)

/-- The token `n` places ahead, unless its index lies outside of the vector. The index is clamped
before, so the access is the one that has to be shown in range. -/
def ahead? (p : Reader) (n : Nat) : Option Token :=
  p.tokens[p.aheadIndex n]?

/-- The index of the token passed last. In front of the first token it is clamped to zero. -/
def behindIndex (p : Reader) : Nat :=
  p.index - 1

/-- The token passed last, unless its index lies outside of the vector. -/
def behind? (p : Reader) : Option Token :=
  p.tokens[p.behindIndex]?

/-- Whether the tokens from the one `n` places ahead on pass the tests, one each. A token is looked
at only if those in front of it pass. -/
def passes? (p : Reader) : Nat → List (TokenKind → Bool) → Option Bool
  | _, [] => some true
  | n, test :: tests =>
    (p.ahead? n).bind fun t => if test t.kind then p.passes? (n + 1) tests else some false

/-! ### What a reader does -/

/-- Goes on with the frames, which are those that were below the one just done. -/
def goOn (p : Reader) (stack : List Frame) : Machine :=
  ⟨p, stack, none⟩

/-- Takes the error to the frames, which are asked one after the other whether they end it. -/
def fail (p : Reader) (e : ParseError) (stack : List Frame) : Machine :=
  ⟨p, stack, some e⟩

/-- Something else was wanted than the next token. The error names it and its place, so this looks
at the vector as well. -/
def refuse? (p : Reader) (wanted : String) (stack : List Frame) : Option Machine :=
  (p.ahead? 0).map fun t => p.fail (.unexpected wanted t.kind t.span) stack

/-- Changes what was found, unless an attempt is under way. All changes of what was found go through
it. -/
def note (p : Reader) (change : Statement Span → Statement Span) : Reader :=
  if p.attempts = 0 then { p with found := change p.found } else p

/-- Notes a problem, behind those noted before. -/
def report (p : Reader) (d : Diagnostic) : Reader :=
  { p with problems := p.problems.record d }

/-- Passes a token of the wanted kind. Outside attempts a stray token before it is dropped, and a
closing parenthesis missing at the end is assumed. -/
def expect? (p : Reader) (wanted : TokenKind) (stack : List Frame) : Option Machine :=
  (p.ahead? 0).bind fun t =>
    if t.kind.sameClass wanted then some (p.goOn (.pass :: stack))
    else if p.attempts ≠ 0 then p.refuse? wanted.describe stack
    else if t.isEof then
      if wanted = .rightParen then
        some ((p.report (Repair.supplied wanted t.span).diagnostic).goOn stack)
      else p.refuse? wanted.describe stack
    else (p.ahead? 1).bind fun u =>
      if u.kind.sameClass wanted then
        some ((p.report (Repair.dropped t wanted).diagnostic).goOn (.pass :: .pass :: stack))
      else p.refuse? wanted.describe stack

/-- Begins to read a rule. A rule with parts leaves frames for them; there is no answer if a token
is looked at that is not there. -/
def read? (p : Reader) (stack : List Frame) : Rule → Option Machine
  | .empty => some (p.goOn stack)
  | .seq first second => some (p.goOn (.read first :: .read second :: stack))
  | .expect kind => p.expect? kind stack
  | .take => some (p.goOn (.pass :: stack))
  | .fail wanted => p.refuse? wanted stack
  | .branch tests yes no =>
    (p.passes? 0 tests).map fun b => p.goOn (.read (if b then yes else no) :: stack)
  | .foresee attempt yes no =>
    some ({ p with attempts := p.attempts + 1 }.goOn
      (.read attempt :: .rewind p.index yes no :: stack))
  | .repeatWhile test body =>
    (p.passes? 0 [test]).map fun b =>
      p.goOn (if b then .read body :: .read (.repeatWhile test body) :: stack else stack)
  | .value power =>
    if nestingLimit ≤ p.depth then
      (p.ahead? 0).map fun t => p.fail (.tooDeep nestingLimit t.span) stack
    else
      some ({ p with depth := p.depth + 1 }.goOn (.read (Grammar.value power) :: .close :: stack))
  | .skip => some (p.goOn (.skip 0 :: stack))
  | .record part body =>
    (p.ahead? 0).map fun t => p.goOn (.read body :: .keep part p.index t.start :: stack)
  | .together body => some (p.goOn (.read body :: .restore p.found :: stack))
  | .declare type => some ((p.note (.ofType type)).goOn stack)
  | .defaults => some ((p.note .withDefaultValues).goOn stack)
  | .finish =>
    (p.ahead? 0).bind fun t =>
      if t.isEof then some (p.goOn stack) else p.refuse? "end of statement" stack

/-- Chooses the statement that the first tokens announce, or stops with the error that they announce
none. -/
def announce? (p : Reader) (stack : List Frame) : Option Machine :=
  (p.ahead? 0).bind fun t =>
    match t.kind with
    | .keyword .insert => some (p.goOn (.read (Grammar.statement .insert) :: stack))
    | .keyword .delete => some (p.goOn (.read (Grammar.statement .delete) :: stack))
    | .keyword .update =>
      (p.passes? 1 [Rule.isWord .or]).map fun b =>
        p.goOn (.read (Grammar.statement (if b then .updateOrInsert else .update)) :: stack)
    | .eof => some (p.fail .empty stack)
    | found => some (p.fail (.unsupported found t.span) stack)

/-- Does what a frame asks for. There is no answer if a token is looked at that is not there. -/
def proceed? (p : Reader) (stack : List Frame) : Frame → Option Machine
  | .announce => p.announce? stack
  | .read r => p.read? stack r
  | .pass =>
    (p.ahead? 0).map fun t =>
      if t.isEof then p.goOn stack else { p with index := p.index + 1 }.goOn stack
  | .skip depth =>
    (p.ahead? 0).map fun t =>
      if t.isEof ∨ depth = 0 ∧ (t.kind = .semicolon ∨ t.kind = .keyword .returning) then
        p.goOn stack
      else p.goOn (.pass :: .skip (t.kind.depth depth) :: stack)
  | .seek =>
    (p.ahead? 0).map fun t =>
      if t.isEof ∨ t.kind = .semicolon then p.goOn stack else p.goOn (.pass :: .seek :: stack)
  | .keep part _ first =>
    p.behind?.map fun t => (p.note (·.record part ⟨first, max first t.stop⟩)).goOn stack
  | .restore _ | .recover => some (p.goOn stack)
  | .close => some ({ p with depth := p.depth - 1 }.goOn stack)
  | .rewind mark yes _ =>
    some ({ p with index := mark, attempts := p.attempts - 1 }.goOn (.read yes :: stack))

/-- Takes an error to a frame. A failed attempt and a malformed statement end it. -/
def unwind (p : Reader) (e : ParseError) (stack : List Frame) : Frame → Machine
  | .restore found => { p with found := found }.fail e stack
  | .close => { p with depth := p.depth - 1 }.fail e stack
  | .rewind mark _ no =>
    { p with index := mark, attempts := p.attempts - 1 }.goOn (.read no :: stack)
  | .recover =>
    match e with
    | .malformed message place => (p.report ⟨.abandoned, message, place⟩).goOn (.seek :: stack)
    | e => p.fail e stack
  | _ => p.fail e stack

/-- The reader in front of a text. It reads the visible tokens that are not faulty. -/
def ofText (t : Text) : Reader :=
  ⟨(Lexer.ofText t).restVisible.1.filter fun x => !x.isError, 0, .unknown,
    (Lexer.ofText t).restVisible.2.problems, 0, 0⟩

end Reader

namespace Machine

/-- One step. There is none if nothing remains to be done, and none if an access fails. -/
def step (m : Machine) : Option Machine :=
  match m.stack, m.error? with
  | [], _ => none
  | f :: stack, none => m.reader.proceed? stack f
  | f :: stack, some e => some (m.reader.unwind e stack f)

-- Without a token the access fails, and with it the step.
example : Machine.step ⟨⟨[], 0, .unknown, .none, 0, 0⟩, [.pass], none⟩ = none := rfl

/-- One machine comes to another by some number of steps. -/
def Reaches : Machine → Machine → Prop :=
  Relation.ReflTransGen fun m m' => m.step = some m'

/-- The machine that reads the statement in a text. -/
def ofText (t : Text) : Machine :=
  (Reader.ofText t).goOn [.announce, .recover]

/-- What a machine has come to that has read the text `t`, in the form that `parse` reports. -/
def result (t : Text) (m : Machine) : Except ParseError ParsedStatement :=
  match m.error? with
  | none => .ok ⟨m.reader.found.map (·.slice t), m.reader.problems⟩
  | some e => .error e

end Machine

/-! ### Places as indexes -/

/-- The place of a state as an index, in a text with the given lexical problems, when `depth` values
are open. -/
def State.reader (lexical : Diagnostics) (depth : Nat) (s : State) : Reader :=
  ⟨s.tokens ++ [.atEnd s.size], s.position, s.found,
    lexical.recordAll (s.repairs.map Repair.diagnostic), s.attempts, depth⟩

namespace State

variable {lexical : Diagnostics} {depth : Nat} {s : State}

/-- The tokens ahead are those behind the index, and the token of the end behind them. -/
theorem ahead?_reader (n : Nat) :
    (s.reader lexical depth).ahead? n = some (s.after[n]?.getD (.atEnd s.size)) := by
  have hlast : (s.reader lexical depth).tokens.length - 1 = s.before.length + s.after.length := by
    simp [reader, tokens]
  rw [Reader.ahead?, Reader.aheadIndex, hlast]
  show (s.tokens ++ [Token.atEnd s.size])[min (s.before.length + n) _]? = _
  rw [tokens, List.append_assoc, List.getElem?_append_right (by simp), List.length_reverse]
  rcases Nat.lt_or_ge n s.after.length with hn | hn
  · rw [Nat.min_eq_left (by omega), Nat.add_sub_cancel_left, List.getElem?_append_left hn,
      List.getElem?_eq_getElem hn]
    rfl
  · rw [Nat.min_eq_right (by omega), Nat.add_sub_cancel_left,
      List.getElem?_append_right (Nat.le_refl _), Nat.sub_self, List.getElem?_eq_none hn]
    rfl

/-- The token that the machine looks at is the next token of the state. -/
theorem ahead?_zero_reader : (s.reader lexical depth).ahead? 0 = some s.next := by
  rw [ahead?_reader, next, List.head?_eq_getElem?]

/-- The token passed last stands in front of the index. -/
theorem behind?_reader {t : Token} {ts : List Token} (h : s.before = t :: ts) :
    (s.reader lexical depth).behind? = some t := by
  show (s.tokens ++ [Token.atEnd s.size])[s.before.length - 1]? = some t
  rw [tokens, h, List.reverse_cons, List.append_assoc, List.append_assoc]
  simp

end State

/-- The reader in front of a text is where the statement begins. -/
theorem reader_ofText (t : Text) :
    Reader.ofText t = (State.ofText t).reader (lexicalProblems (tokens t)) 0 := by
  -- The lexer hands out the visible tokens and then the one of the end. Faulty ones are taken out.
  have hvector : ((Lexer.ofText t).restVisible.1.filter fun x => !x.isError)
      = significantTokens t ++ [.atEnd (Text.size t)] := by
    show ((Lexer.ofText t).restAll.1.filter _).filter _ = _
    rw [Lexer.restAll_ofText, allTokens, List.filter_filter, List.filter_append]
    congr 1
    refine List.filter_congr fun x hx => ?_
    rw [Token.isSignificant, isEof_of_mem hx, Bool.not_false, Bool.and_true, Bool.and_comm]
  -- The lexer has recorded what the text is reported for.
  have hproblems : (Lexer.ofText t).restVisible.2.problems
      = (lexicalProblems (tokens t)).recordAll [] := by
    show Diagnostics.none.append (lexicalProblems (tokens t)) = lexicalProblems (tokens t)
    rw [lexicalProblems, Diagnostics.append_recordAll]
  rw [Reader.ofText, hvector, hproblems]
  rfl

end GeneratedKeys
