import GeneratedKeys.Diagnostic
import GeneratedKeys.Token.Basic

/-!
# `GeneratedKeys.Statement.Error`: why a statement cannot be read

Reading stops for one of four reasons. Only a malformed statement still yields what
was known of it before the error; the others yield nothing.
-/

set_option autoImplicit false

namespace GeneratedKeys

/-- Why reading stopped. Only a malformed statement is reported with what was read before; the other
errors leave no report. -/
inductive ParseError where
  /-- There is no token to read. -/
  | empty
  /-- The first token starts no statement of a known type. -/
  | unsupported (found : TokenKind) (place : Span)
  /-- A rule of the grammar could not go on. -/
  | malformed (message : String) (place : Span)
  /-- Values are nested deeper than the limit. -/
  | tooDeep (limit : Nat) (place : Span)
  deriving DecidableEq, Repr

namespace ParseError

/-- A rule wanted one thing and found another. The message names both, and the place is that of the
token found. -/
def unexpected (wanted : String) (found : TokenKind) (place : Span) : ParseError :=
  .malformed ("Unexpected token: expected " ++ wanted ++ ", found " ++ found.describe) place

/-- The wording of an error, with its place. Only the error of an empty statement has none. -/
def message : ParseError → String
  | empty => "Empty statement"
  | unsupported found place =>
    "Unsupported statement: expected INSERT, UPDATE, or DELETE, found " ++ found.describe
      ++ place.clause
  | malformed message place => message ++ place.clause
  | tooDeep limit place => "Nesting exceeds " ++ toString limit ++ " levels" ++ place.clause

/-- The place of an error, if it has one. It is a place in the text that was read, in bytes. -/
def place? : ParseError → Option Span
  | empty => none
  | unsupported _ place | malformed _ place | tooDeep _ place => some place

/-- Whether what was read before the error is kept. A statement of no known type and one nested too
deep are refused as a whole. -/
def isRecoverable : ParseError → Bool
  | malformed _ _ => true
  | _ => false

end ParseError

end GeneratedKeys
