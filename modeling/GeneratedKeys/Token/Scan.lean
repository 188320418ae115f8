import GeneratedKeys.Text.Quoted
import GeneratedKeys.Token.Basic

/-!
# `GeneratedKeys.Token.Scan`: the first token of a text

`scan c t` decides what the text `c :: t` begins with. It answers with a kind and
the number of characters that the token takes from `t`, so a token always has at
least one character. Letters count the same in either case, except for the
delimiter of an alternative string.

* `inside?_eq_some_iff`: a delimited literal ends at the first quote that is not
  doubled, and its inside is the doubled form of what it stands for.
* `before?_eq_some`: an alternative string ends at the first close character with
  a quote behind it.
-/

set_option autoImplicit false

namespace GeneratedKeys

/-- What a text begins with: a kind, and how many characters follow the first. One character at
least is taken, so no scan stands still. -/
structure Lexeme where
  kind : TokenKind
  extra : Nat
  deriving DecidableEq, Repr

namespace Scan

/-! ### Classes of characters -/

/-- The blanks between tokens: space, tab, carriage return, line feed and form feed. Other blanks of
Unicode fit no rule. -/
def isSpace (c : Char) : Bool :=
  c == ' ' || c == '\t' || c == '\r' || c == '\n' || c == '\x0c'

/-- The characters that a name may start with. A colon is one of them, if a name goes on behind it.
-/
def isNameStart (c : Char) : Bool :=
  c.isAlpha || c == '_' || c == ':' || c == '$'

/-- The characters that a name may go on with. The point, the colon and the dash belong to it, so a
qualified name without quotes is one token. -/
def isNamePart (c : Char) : Bool :=
  c.isAlpha || c.isDigit || c == '_' || c == '.' || c == ':' || c == '$' || c == '-'

/-- The characters that end a line comment. The line end itself is not part of the comment. -/
def isLineEnd (c : Char) : Bool :=
  c == '\n' || c == '\r'

/-- The digits of a binary string, in either letter case. -/
def isHexDigit (c : Char) : Bool :=
  c.isDigit || ('a'.val ≤ c.val && c.val ≤ 'f'.val) || ('A'.val ≤ c.val && c.val ≤ 'F'.val)

/-- Whether the next character satisfies `p`. At the end of the text there is none, and the answer
is no. -/
def nextIs (p : Char → Bool) (t : Text) : Bool :=
  t.head?.any p

/-- Whether a fraction starts here: a point and a digit. A point alone is punctuation. -/
def startsFraction : Text → Bool
  | '.' :: t => nextIs Char.isDigit t
  | _ => false

/-- Whether an unsigned number starts here. It may start with its fraction, so that `.5` is a number
and `-.5` is one with a sign. -/
def startsNumber (t : Text) : Bool :=
  nextIs Char.isDigit t || startsFraction t

/-! ### Pieces with an end of their own -/

/-- How many characters a block comment takes up to and with its closing mark. Comments do not nest:
the first mark closes, whatever was opened inside. -/
def blockLength? : Text → Option Nat
  | [] => none
  | [_] => none
  | c :: d :: t =>
    if c = '*' ∧ d = '/' then some 2 else (blockLength? (d :: t)).map (· + 1)

/-- What stands before the first `q` that is not doubled, or nothing if there is no such `q`. The
search takes a doubled `q` in one step, so a run of them is read in pairs from the left. -/
def inside? (q : Char) : Text → Option Text
  | [] => none
  | [c] => if c = q then some [] else none
  | c :: d :: t =>
    if c = q then
      if d = q then (inside? q t).map fun s => q :: q :: s else some []
    else (inside? q (d :: t)).map (c :: ·)

/-- What stands before the first `close` with a single quote behind it. Nothing is doubled here: a
close character without a quote behind it is part of the text. -/
def before? (close : Char) : Text → Option Text
  | [] => none
  | [_] => none
  | c :: d :: t =>
    if c = close ∧ d = '\x27' then some [] else (before? close (d :: t)).map (c :: ·)

/-- The character that closes what `c` opens. A character that opens nothing closes itself, also a
blank or a quote. -/
def partner (c : Char) : Char :=
  if c = '(' then ')'
  else if c = '[' then ']'
  else if c = '\x7b' then '\x7d'
  else if c = '<' then '>'
  else c

/-! ### Tokens -/

/-- A line comment, from its second dash on. It reaches to the end of the line or of the text. -/
def lineComment (t : Text) : Lexeme :=
  ⟨.comment, 1 + (t.drop 1 |>.takeWhile fun c => !isLineEnd c).length⟩

/-- A block comment, from the star that opens it on. Without its closing mark the whole remainder of
the text is one faulty token. -/
def blockComment (t : Text) : Lexeme :=
  match blockLength? (t.drop 1) with
  | some n => ⟨.comment, 1 + n⟩
  | none => ⟨.error .unterminatedComment, t.length⟩

/-- The length of the fraction that starts here, if one does: a point and its digits. -/
def fractionLength? (t : Text) : Option Nat :=
  if startsFraction t then some (1 + ((t.drop 1).takeWhile Char.isDigit).length) else none

/-- The number at the beginning of `t`, of which `sign` says whether a minus sign
stands in front. Its `extra` counts all its characters in `t`. -/
def number (sign : Bool) (t : Text) : Lexeme :=
  let whole := (t.takeWhile Char.isDigit).length
  match fractionLength? (t.dropWhile Char.isDigit) with
  | some n => ⟨.real sign, whole + n⟩
  | none => ⟨.integer sign, whole⟩

/-- A number without sign, from its first character `c` on. The scan of `number` counts `c` as well,
so one character is taken off its length. -/
def unsignedNumber (c : Char) (t : Text) : Lexeme :=
  ⟨(number false (c :: t)).kind, (number false (c :: t)).extra - 1⟩

/-- A string behind its opening quote, with its decoded value. Without a closing quote the whole
remainder is one faulty token. -/
def string (t : Text) : Lexeme :=
  match inside? '\x27' t with
  | some s => ⟨.string (Text.collapse '\x27' s), s.length + 1⟩
  | none => ⟨.error .unterminatedString, t.length⟩

/-- A quoted identifier behind its opening quote, with its decoded name. The name may be empty here;
the grammar reads it like any other. -/
def quotedIdentifier (t : Text) : Lexeme :=
  match inside? '"' t with
  | some s => ⟨.quotedIdentifier (Text.collapse '"' s), s.length + 1⟩
  | none => ⟨.error .unterminatedIdentifier, t.length⟩

/-- An alternative string from its quote on: the next character opens it, and it ends at the partner
of that character with a quote behind it. Its value is what stands between, as written. -/
def alternativeString (t : Text) : Lexeme :=
  match t.drop 1 with
  | [] => ⟨.error .unterminatedString, t.length⟩
  | o :: body =>
    match before? (partner o) body with
    | some s => ⟨.string s, s.length + 4⟩
    | none => ⟨.error .unterminatedString, t.length⟩

/-- A binary string from its quote on. Its digits come in pairs, one for each byte. A literal with
other contents is faulty, but is passed over as a whole. -/
def binaryString (t : Text) : Lexeme :=
  match inside? '\x27' (t.drop 1) with
  | some s =>
    if s.all isHexDigit && s.length % 2 == 0 then ⟨.string s, s.length + 2⟩
    else ⟨.error (.malformedBinary s), s.length + 2⟩
  | none => ⟨.error .unterminatedBinary, t.length⟩

/-- A word that starts with `c`: a keyword if it spells one in any letter case, and an identifier
otherwise. The longest run of name characters is taken first. -/
def word (c : Char) (t : Text) : Lexeme :=
  let rest := t.takeWhile isNamePart
  match Keyword.ofText? (c :: rest) with
  | some k => ⟨.keyword k, rest.length⟩
  | none => ⟨.identifier (c :: rest), rest.length⟩

/-- The punctuation and operators of one character. The bar, the exclamation mark and the like
appear in operators of two characters only. -/
def single? (c : Char) : Option TokenKind :=
  if c = '(' then some .leftParen
  else if c = ')' then some .rightParen
  else if c = '[' then some .leftBracket
  else if c = ']' then some .rightBracket
  else if c = ',' then some .comma
  else if c = ';' then some .semicolon
  else if c = '+' then some .plus
  else if c = '-' then some .minus
  else if c = '*' then some .star
  else if c = '/' then some .slash
  else if c = '?' then some .question
  else if c = '.' then some .dot
  else if c = ':' then some .colon
  else if c = '=' then some .eq
  else if c = '<' then some .lt
  else if c = '>' then some .gt
  else none

/-- The operators of two characters. They are tried before those of one, so that `<=` is not read as
`<` and a faulty `=`. Four spellings mean that two values differ. -/
def double? (c d : Char) : Option TokenKind :=
  if c = '|' ∧ d = '|' then some .concat
  else if c = '<' ∧ d = '=' then some .ltEq
  else if c = '<' ∧ d = '>' then some .notEq
  else if c = '>' ∧ d = '=' then some .gtEq
  else if (c = '!' ∨ c = '^' ∨ c = '~') ∧ d = '=' then some .notEq
  else none

/-- Punctuation, an operator, or a character that no token starts with. The last is a faulty token
of that one character. -/
def operator (c : Char) (t : Text) : Lexeme :=
  match t.head?.bind (double? c) with
  | some kind => ⟨kind, 1⟩
  | none =>
    match single? c with
    | some kind => ⟨kind, 0⟩
    | none => ⟨.error (.unexpected c), 0⟩

end Scan

open Scan in
/-- What the text `c :: t` begins with. The rules are tried in the order in which they are written
here, and the last of them takes any character. -/
def scan (c : Char) (t : Text) : Lexeme :=
  if isSpace c then ⟨.whitespace, (t.takeWhile isSpace).length⟩
  else if c == '-' && nextIs (· == '-') t then lineComment t
  else if c == '/' && nextIs (· == '*') t then blockComment t
  else if c == '-' && startsNumber t then number true t
  else if c.isDigit || startsFraction (c :: t) then unsignedNumber c t
  else if c == '\x27' then string t
  else if c == '"' then quotedIdentifier t
  else if c.toLower == 'q' && nextIs (· == '\x27') t then alternativeString t
  else if c.toLower == 'x' && nextIs (· == '\x27') t then binaryString t
  else if c == ':' && !nextIs isNamePart t then operator c t
  else if isNameStart c then word c t
  else operator c t

namespace Scan

/-- A word goes on with all characters that a name may go on with. -/
theorem extra_word (c : Char) (t : Text) :
    (word c t).extra = (t.takeWhile isNamePart).length := by
  rw [word]
  cases Keyword.ofText? (c :: t.takeWhile isNamePart) <;> rfl

/-! ### What the pieces with an end of their own are -/

/-- The inside of a delimited literal is the doubled form of what it stands for, and
the quote behind it is not doubled. -/
theorem inside?_eq_some {q : Char} {t s : Text} (h : inside? q t = some s) :
    s = Text.double q (Text.collapse q s) ∧
      ∃ rest, t = s ++ q :: rest ∧ nextIs (· == q) rest = false := by
  induction t using inside?.induct q generalizing s with
  | case1 => simp [inside?] at h
  | case2 => simp_all [inside?, nextIs]
  | case3 c hc => simp [inside?, hc] at h
  | case4 t ih =>
    simp only [inside?] at h
    -- A doubled quote: both are read, and the pair stands for one of them.
    obtain ⟨s', hs, rfl⟩ := Option.map_eq_some_iff.1 (by simpa using h)
    obtain ⟨hd, rest, rfl, hr⟩ := ih hs
    exact ⟨by simp [← hd], rest, by simp, hr⟩
  | case5 => simp_all [inside?, nextIs]
  | case6 c d t hc ih =>
    simp only [inside?, hc, if_false] at h
    -- Any other character is read alone.
    obtain ⟨s', hs, rfl⟩ := Option.map_eq_some_iff.1 h
    obtain ⟨hd, rest, ht, hr⟩ := ih hs
    exact ⟨by simp [hc, ← hd], rest, by simp [ht], hr⟩

/-- The doubled form of any text is read up to a quote that is not doubled. -/
theorem inside?_double (q : Char) (s rest : Text) (h : nextIs (· == q) rest = false) :
    inside? q (Text.double q s ++ q :: rest) = some (Text.double q s) := by
  induction s with
  | nil =>
    cases rest with
    | nil => simp [inside?]
    | cons d rest =>
      -- The text in front is read, and the next quote is not doubled, so the literal ends there.
      have : d ≠ q := by simpa [nextIs] using h
      simp [inside?, this]
  | cons c s ih =>
    by_cases hc : c = q
    · subst hc; simp [inside?, ih]
    -- A character that is no quote is read alone if anything is behind it, and the closing quote
    -- is.
    · have step : ∀ u : Text, u ≠ [] → inside? q (c :: u) = (inside? q u).map (c :: ·) := by
        intro u hu
        cases u with
        | nil => exact absurd rfl hu
        | cons d u => simp [inside?, hc]
      rw [Text.double_cons_of_ne hc, List.cons_append, step _ (by simp), ih]
      rfl

/-- A delimited literal ends at the first quote that is not doubled, and its inside is
the doubled form of what it stands for. -/
theorem inside?_eq_some_iff {q : Char} {t s : Text} :
    inside? q t = some s ↔
      s = Text.double q (Text.collapse q s) ∧
        ∃ rest, t = s ++ q :: rest ∧ nextIs (· == q) rest = false := by
  refine ⟨inside?_eq_some, ?_⟩
  rintro ⟨hs, rest, rfl, hr⟩
  have := inside?_double q (Text.collapse q s) rest hr
  rwa [← hs] at this

/-- An alternative string ends at a close character with a quote behind it, and what is found stands
in front of the two. -/
theorem before?_eq_some {close : Char} {t s : Text} (h : before? close t = some s) :
    ∃ rest, t = s ++ close :: '\x27' :: rest := by
  induction t using before?.induct close generalizing s with
  | case1 => simp [before?] at h
  | case2 => simp [before?] at h
  | case3 c d t hc =>
    simp only [before?, hc, and_self, if_true, Option.some.injEq] at h
    obtain ⟨rfl, rfl⟩ := hc
    exact ⟨t, by simp [← h]⟩
  | case4 c d t hc ih =>
    simp only [before?, hc, if_false] at h
    obtain ⟨s', hs, rfl⟩ := Option.map_eq_some_iff.1 h
    obtain ⟨rest, ht⟩ := ih hs
    exact ⟨rest, by simp [ht]⟩

end Scan

end GeneratedKeys
