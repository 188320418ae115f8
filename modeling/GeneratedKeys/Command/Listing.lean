import GeneratedKeys.Text.Escaped
import GeneratedKeys.Text.Number
import GeneratedKeys.Token.Basic

/-!
# `GeneratedKeys.Command.Listing`: tokens, one to a line

A line of the listing shows the byte offsets of a token, its kind with the value it
carries, and its text. Kind and text are escaped, so that a token never takes more than
one line.
-/

set_option autoImplicit false

namespace GeneratedKeys

/-- The name of a reserved word in listings, which is not its spelling: `GenId` stands for GEN_ID.
-/
def Keyword.label : Keyword → String
  | .insert => "Insert"
  | .into => "Into"
  | .update => "Update"
  | .delete => "Delete"
  | .from => "From"
  | .set => "Set"
  | .or => "Or"
  | .values => "Values"
  | .default => "Default"
  | .matching => "Matching"
  | .returning => "Returning"
  | .select => "Select"
  | .execute => "Execute"
  | .procedure => "Procedure"
  | .as => "As"
  | .cast => "Cast"
  | .collate => "Collate"
  | .null => "Null"
  | .next => "Next"
  | .value => "Value"
  | .for => "For"
  | .genId => "GenId"
  | .dbKey => "DbKey"
  | .substring => "Substring"
  | .trim => "Trim"
  | .both => "Both"
  | .leading => "Leading"
  | .trailing => "Trailing"
  | .extract => "Extract"
  | .all => "All"
  | .distinct => "Distinct"
  | .count => "Count"
  | .sum => "Sum"
  | .avg => "Avg"
  | .minimum => "Minimum"
  | .maximum => "Maximum"
  | .currentUser => "CurrentUser"
  | .currentRole => "CurrentRole"
  | .currentDate => "CurrentDate"
  | .currentTime => "CurrentTime"
  | .currentTimestamp => "CurrentTimestamp"
  | .bigint => "Bigint"
  | .blob => "Blob"
  | .char => "Char"
  | .character => "Character"
  | .date => "Date"
  | .decimal => "Decimal"
  | .double => "Double"
  | .float => "Float"
  | .int => "Int"
  | .integer => "Integer"
  | .numeric => "Numeric"
  | .precision => "Precision"
  | .segment => "Segment"
  | .size => "Size"
  | .smallint => "Smallint"
  | .subType => "SubType"
  | .time => "Time"
  | .timestamp => "Timestamp"
  | .varchar => "Varchar"

/-- The name of a kind in listings, without the value it carries. Numbers share it whether they have
a sign or not. -/
def TokenKind.label : TokenKind → String
  | .integer _ => "Integer"
  | .real _ => "Real"
  | .string _ => "String"
  | .identifier _ => "Identifier"
  | .quotedIdentifier _ => "QuotedIdentifier"
  | .keyword _ => "Keyword"
  | .eq => "Eq"
  | .notEq => "NotEq"
  | .lt => "Lt"
  | .ltEq => "LtEq"
  | .gt => "Gt"
  | .gtEq => "GtEq"
  | .plus => "Plus"
  | .minus => "Minus"
  | .star => "Star"
  | .slash => "Slash"
  | .concat => "Concat"
  | .leftParen => "LeftParen"
  | .rightParen => "RightParen"
  | .leftBracket => "LeftBracket"
  | .rightBracket => "RightBracket"
  | .comma => "Comma"
  | .semicolon => "Semicolon"
  | .dot => "Dot"
  | .colon => "Colon"
  | .question => "Question"
  | .whitespace => "Whitespace"
  | .comment => "Comment"
  | .eof => "Eof"
  | .error _ => "Error"

/-- The value that a kind carries, as shown in listings. Texts stand between quotes there, with what
has no shape escaped. -/
def TokenKind.shownValue? : TokenKind → Option Text
  | .string value => some (Text.shown value)
  | .identifier name | .quotedIdentifier name => some (Text.shown name)
  | .keyword k => some k.label.toList
  | .error fault => some (Text.shown fault.message.toList)
  | _ => none

/-- A kind with the value it carries, in parentheses behind its name. -/
def TokenKind.shown (k : TokenKind) : Text :=
  match k.shownValue? with
  | some value => k.label.toList ++ '(' :: value ++ [')']
  | none => k.label.toList

/-- The line of a token: its offsets, its kind and its text, in columns of fixed width where they
fit. -/
def Token.line (t : Token) : Text :=
  (Text.decimal t.start).leftpad 4 ' ' ++ ['.', '.'] ++ (Text.decimal t.stop).rightpad 4 ' '
    ++ ' ' :: t.kind.shown.rightpad 20 ' ' ++ ' ' :: Text.escaped t.text

end GeneratedKeys
