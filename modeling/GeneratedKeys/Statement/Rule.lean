import GeneratedKeys.Statement.Basic
import GeneratedKeys.Token.Basic

/-!
# `GeneratedKeys.Statement.Rule`: grammar rules as data

A `Rule` describes a piece of a statement: which tokens it consists of, how the next
tokens decide between its alternatives, and which parts of the statement are kept. The
rules are plain data, so what holds of every rule is proved by one induction.

A rule decides on the kinds of the next tokens only. Values are the one recursive
construct of the grammar; `value` refers to them by the binding power in force.
-/

set_option autoImplicit false

namespace GeneratedKeys

/-- A grammar rule. Rules are data, so what holds of all of them is proved once, by induction on the
rule, and not for every rule of the grammar. -/
inductive Rule where
  /-- Nothing. -/
  | empty
  /-- One rule after the other. -/
  | seq (first second : Rule)
  /-- A token of a kind, which may be recovered if it is missing. -/
  | expect (kind : TokenKind)
  /-- The next token, whatever it is. -/
  | take
  /-- No way on: something else was wanted here. -/
  | fail (wanted : String)
  /-- One of two rules, by tests on the next tokens in order. -/
  | branch (tests : List (TokenKind → Bool)) (yes no : Rule)
  /-- One of two rules, by whether an attempt would succeed here. -/
  | foresee (attempt yes no : Rule)
  /-- A rule as often as the next token passes a test. -/
  | repeatWhile (test : TokenKind → Bool) (body : Rule)
  /-- A value whose operators all bind at least as strongly as `power`. -/
  | value (power : Nat)
  /-- Any tokens up to a RETURNING, a semicolon or the end, outside parentheses. -/
  | skip
  /-- A rule whose range is kept as a part of the statement. -/
  | record (part : Part) (body : Rule)
  /-- A rule whose parts are kept all together, or not at all if it fails. -/
  | together (body : Rule)
  /-- Settles the type of the statement. -/
  | declare (type : StatementType)
  /-- Notes that default values are inserted. -/
  | defaults
  /-- The end of the statement. -/
  | finish

namespace Rule

/-- Rules one after the other. A list makes the rules of the grammar readable; it stands for nested
`seq`. -/
def inOrder : List Rule → Rule
  | [] => .empty
  | [r] => r
  | r :: rs => .seq r (inOrder rs)

/-- A reserved word, which may be recovered like every expected token. -/
def word (k : Keyword) : Rule :=
  .expect (.keyword k)

/-- The test for a kind. Values do not count, so any identifier passes the test for an identifier.
-/
def isA (kind : TokenKind) : TokenKind → Bool :=
  fun found => found.sameClass kind

/-- The test for a reserved word. Keywords carry no value, so only that word passes. -/
def isWord (k : Keyword) : TokenKind → Bool :=
  isA (.keyword k)

/-- The test for one of several reserved words, of which none is preferred. -/
def isWordOf (ks : List Keyword) : TokenKind → Bool :=
  fun found => ks.any fun k => isWord k found

/-- A rule that is there if the next token passes a test. Only one token is looked at, so an
optional part is never tried and given back. -/
def optional (test : TokenKind → Bool) (r : Rule) : Rule :=
  .branch [test] r .empty

/-- A rule once or more often, with commas between. Behind a comma the rule must follow, so a
trailing comma is a problem. -/
def separated (r : Rule) : Rule :=
  .seq r (.repeatWhile (isA .comma) (.seq .take r))

/-- A name, quoted or not. A keyword in its place is a problem that names an identifier as the thing
wanted. -/
def name : Rule :=
  .branch [TokenKind.isName] .take (.fail "identifier")

end Rule

end GeneratedKeys
