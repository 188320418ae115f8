import GeneratedKeys.Text.Span
import GeneratedKeys.Token.Keyword

/-!
# `GeneratedKeys.Token.Basic`: tokens of a statement

A token is a piece of the statement with its kind. It carries its text and the
place where it starts, so its span is always exactly as long as its text. Blanks
and comments are tokens too, on a channel of their own; a piece that fits no rule
is a token whose kind names the fault.
-/

set_option autoImplicit false

namespace GeneratedKeys

/-- Why a piece of text is no token of the language. The piece is passed over as a token of its own,
so that the others keep their places. -/
inductive LexicalFault where
  | unterminatedComment
  | unterminatedString
  | unterminatedIdentifier
  | unterminatedBinary
  /-- The digits between the quotes are no whole number of bytes. -/
  | malformedBinary (digits : Text)
  | unexpected (c : Char)
  deriving DecidableEq, Repr

/-- The wording of a lexical fault, as it appears in the diagnostic and in the description of an
error token. -/
def LexicalFault.message : LexicalFault → String
  | unterminatedComment => "unterminated block comment"
  | unterminatedString => "unterminated string literal"
  | unterminatedIdentifier => "unterminated quoted identifier"
  | unterminatedBinary => "unterminated binary string literal"
  | malformedBinary digits => "invalid binary string literal x'" ++ String.ofList digits ++ "'"
  | unexpected c => "unexpected character '" ++ c.toString ++ "'"

/-- The kinds of token. Some carry the value that the text stands for, which messages show and which
`sameClass` does not compare. -/
inductive TokenKind where
  -- Literals
  /-- A whole number, written with or without a minus sign. -/
  | integer (negative : Bool)
  /-- A number with a point, written with or without a minus sign. -/
  | real (negative : Bool)
  /-- A string with its decoded value. -/
  | string (value : Text)
  -- Names and words
  | identifier (name : Text)
  /-- A quoted identifier with its decoded name. -/
  | quotedIdentifier (name : Text)
  | keyword (k : Keyword)
  -- Operators
  | eq | notEq | lt | ltEq | gt | gtEq | plus | minus | star | slash | concat
  -- Punctuation
  | leftParen | rightParen | leftBracket | rightBracket
  | comma | semicolon | dot | colon | question
  -- Hidden pieces
  | whitespace | comment
  -- The end, and pieces that fit no rule
  | eof
  | error (fault : LexicalFault)
  deriving DecidableEq, Repr

/-- The two channels: what the grammar reads and what it passes over. Blanks and comments are kept
as tokens, so that the tokens of a text cover it without a gap. -/
inductive Channel where
  | default
  | hidden
  deriving DecidableEq, Repr

namespace TokenKind

/-- The channel of a kind. Everything but blanks and comments is on the default channel, also faulty
pieces and the end. -/
def channel : TokenKind → Channel
  | whitespace | comment => .hidden
  | _ => .default

/-- The wording of a kind in messages. Names appear in it as written, keywords in capitals, and
literals without their value. -/
def describe : TokenKind → String
  | integer _ => "integer literal"
  | real _ => "real literal"
  | string _ => "string literal"
  | identifier name => "identifier " ++ String.ofList name
  | quotedIdentifier name => "quoted identifier \"" ++ String.ofList name ++ "\""
  | keyword k => k.spelling
  | eq => "'='"
  | notEq => "'<>'"
  | lt => "'<'"
  | ltEq => "'<='"
  | gt => "'>'"
  | gtEq => "'>='"
  | plus => "'+'"
  | minus => "'-'"
  | star => "'*'"
  | slash => "'/'"
  | concat => "'||'"
  | leftParen => "'('"
  | rightParen => "')'"
  | leftBracket => "'['"
  | rightBracket => "']'"
  | comma => "','"
  | semicolon => "';'"
  | dot => "'.'"
  | colon => "':'"
  | question => "'?'"
  | whitespace => "whitespace"
  | comment => "comment"
  | eof => "end of input"
  | error fault => "invalid input (" ++ fault.message ++ ")"

/-- Whether two kinds are the same apart from the value they carry. Keywords must
be the same word. -/
def sameClass : TokenKind → TokenKind → Bool
  | integer _, integer _ => true
  | real _, real _ => true
  | string _, string _ => true
  | identifier _, identifier _ => true
  | quotedIdentifier _, quotedIdentifier _ => true
  | error _, error _ => true
  | j, k => j == k

/-- Whether the kind is that of a name, quoted or not. Keywords are no names, since they are
reserved. -/
def isName : TokenKind → Bool
  | identifier _ | quotedIdentifier _ => true
  | _ => false

/-- The fault of an error token. Every other kind, the hidden ones included, has none. -/
def fault? : TokenKind → Option LexicalFault
  | error fault => some fault
  | _ => none

/-- The word of a keyword token. The statement's structure is decided by these words and by
punctuation. -/
def keyword? : TokenKind → Option Keyword
  | keyword k => some k
  | _ => none

end TokenKind

/-- A piece of the statement with its kind. The piece is kept as text, so its end follows from its
start. -/
structure Token where
  kind : TokenKind
  /-- The characters of the piece, as written. -/
  text : Text
  /-- The byte offset of the first character. -/
  start : Nat
  deriving DecidableEq, Repr

namespace Token

/-- The token that stands for the end of a text of `size` bytes. It has no characters, so it covers
no bytes. -/
def atEnd (size : Nat) : Token := ⟨.eof, [], size⟩

/-- The byte offset behind the last character. It follows from the start and the text, so a token
whose span and text disagree cannot be built. -/
def stop (t : Token) : Nat :=
  t.start + Text.size t.text

/-- The bytes of the token. In the text that the token comes from, the slice of this span is the
token's own text. -/
def span (t : Token) : Span := ⟨t.start, t.stop⟩

/-- The channel of the token. -/
def channel (t : Token) : Channel :=
  t.kind.channel

/-- Whether the token stands for the end of the text. Only `atEnd` makes such a token. -/
def isEof (t : Token) : Bool :=
  t.kind == .eof

/-- Whether the token is a blank or a comment. Such tokens take part in no rule, but they count in
ranges that reach over them. -/
def isHidden (t : Token) : Bool :=
  t.channel == .hidden

/-- Whether the token is a piece that fits no rule. The grammar does not see it; it has been
reported as a lexical problem. -/
def isError (t : Token) : Bool :=
  t.kind.fault?.isSome

/-- Whether the grammar reads the token: neither hidden, nor faulty, nor the end. All rules are read
over a list of such tokens. -/
def isSignificant (t : Token) : Bool :=
  !t.isHidden && !t.isError && !t.isEof

/-- The token moved `n` bytes to the right. Its kind and its text stay the same. -/
def shift (n : Nat) (t : Token) : Token :=
  { t with start := t.start + n }

/-- A moved token covers the moved bytes, since its text stays the same. -/
theorem span_shift (n : Nat) (t : Token) : (t.shift n).span = t.span.shift n := by
  simp only [shift, span, stop, Span.shift, Span.mk.injEq, true_and]
  omega

end Token

end GeneratedKeys
