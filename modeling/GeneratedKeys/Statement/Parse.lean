import GeneratedKeys.Statement.Grammar
import GeneratedKeys.Statement.Run
import GeneratedKeys.Token.Lexer

/-!
# `GeneratedKeys.Statement.Parse`: reading a statement

`parse` cuts a text into tokens, takes the type of statement from the first of them,
reads the rule of that type, and reports the parts as texts together with all problems
met. A statement that could not be read to its end still reports the parts before the
error.

Values may be nested 256 levels deep. The levels left are the measure by which the
recursion of values ends.
-/

set_option autoImplicit false

namespace GeneratedKeys

/-- How deep values may be nested. A value that opens one level more is refused with an error of its
own. -/
def nestingLimit : Nat := 256

/-- Reads a value with so many levels of nesting left, whose operators all bind at
least as strongly as `power`. -/
def readValue : Nat → Nat → State → Outcome
  | 0, _, s => .stop (.tooDeep nestingLimit s.next.span) s
  | levels + 1, power, s => (Grammar.value power).run (readValue levels) s

/-- Reads a rule in which no value is open yet, so all levels of nesting are left. -/
def Rule.read (r : Rule) (s : State) : Outcome :=
  r.run (readValue nestingLimit) s

/-- The type of statement that the first tokens announce. UPDATE announces two types, which the
token behind it tells apart. -/
def announced : List Token → Except ParseError StatementType
  | [] => .error .empty
  | t :: rest =>
    match t.kind with
    | .keyword .insert => .ok .insert
    | .keyword .delete => .ok .delete
    | .keyword .update =>
      if State.passes [Rule.isWord .or] rest then .ok .updateOrInsert else .ok .update
    | found => .error (.unsupported found t.span)

/-- A statement that was read, with the problems met. A statement with problems is reported all the
same. -/
structure ParsedStatement where
  statement : Statement Text
  diagnostics : Diagnostics
  deriving DecidableEq, Repr

/-- Whether no problem was met, which the counter of mismatches tells. Only such a statement is ever
extended. -/
def ParsedStatement.isClean (p : ParsedStatement) : Bool :=
  p.diagnostics.count == 0

/-- The tokens that the grammar reads: those that are neither hidden nor faulty. Their places are
still those in the whole text. -/
def significantTokens (t : Text) : List Token :=
  (tokens t).filter Token.isSignificant

/-- The place before a statement, with the size of the whole text, where an error at the end has its
place. -/
def State.ofText (t : Text) : State :=
  .initial (significantTokens t) (Text.size t)

/-- What a state knows of the statement `t`, with the problems of its tokens, the
repairs made, and `last` problems after them. -/
def State.report (t : Text) (s : State) (last : List Diagnostic) : ParsedStatement :=
  ⟨s.found.map (·.slice t),
    (lexicalProblems (GeneratedKeys.tokens t)).recordAll (s.repairs.map Repair.diagnostic ++ last)⟩

/-- Turns the end of reading into a report. A malformed statement is skipped to its end
and reported with the error as its last problem. -/
def Outcome.report (t : Text) : Outcome → Except ParseError ParsedStatement
  | .ok s => .ok (s.report t [])
  | .stop (.malformed message place) s =>
    .ok (s.skipToEnd.report t [⟨.abandoned, message, place⟩])
  | .stop e _ => .error e

/-- Reads one statement. An error means that no report is possible: the text is empty, announces no
statement of the four types, or nests values too deep. -/
def parse (t : Text) : Except ParseError ParsedStatement :=
  match announced (significantTokens t) with
  | .error e => .error e
  | .ok type => ((Grammar.statement type).read (State.ofText t)).report t

end GeneratedKeys
