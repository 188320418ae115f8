import GeneratedKeys.Proofs.Text.Caseless
import GeneratedKeys.Proofs.Token.Boundary
import GeneratedKeys.Proofs.Token.Prefixed
import Mathlib.Data.List.TakeWhile

/-!
# `GeneratedKeys.Proofs.Token.Munch`: what tokens look like, and what may follow them

`Munched kind text rest` says that `text` is written as a token of its kind is, and that it goes
on as far as it can: what is left of the statement does not begin with a character that would
have belonged to it. A faulty token is a literal or a comment without its end, which takes all
that is left, or a character that nothing begins with.

* `munched_number`, `munched_word`, `munched_operator`, …: the cases of the scanner.
* `munched_scan`: they put together. A case is reached only if none in front of it applies, so an
  operator is never the beginning of a comment, a number or a name.
* `munched_of_mem_restAll`: the tokens of every statement.
-/

set_option autoImplicit false

namespace GeneratedKeys

open Scan

/-! ### Texts of tokens -/

/-- The spellings of operators and punctuation. No other kind has one, and no two kinds share one.
-/
def TokenKind.spellings : TokenKind → List String
  | .eq => ["="]
  | .notEq => ["<>", "!=", "^=", "~="]
  | .lt => ["<"]
  | .ltEq => ["<="]
  | .gt => [">"]
  | .gtEq => [">="]
  | .plus => ["+"]
  | .minus => ["-"]
  | .star => ["*"]
  | .slash => ["/"]
  | .concat => ["||"]
  | .leftParen => ["("]
  | .rightParen => [")"]
  | .leftBracket => ["["]
  | .rightBracket => ["]"]
  | .comma => [","]
  | .semicolon => [";"]
  | .dot => ["."]
  | .colon => [":"]
  | .question => ["?"]
  | _ => []

/-- Whether `rest` would make another token of an operator in front of it: a longer operator, a
comment, a number or a name. -/
def TokenKind.goesOn (kind : TokenKind) (rest : Text) : Bool :=
  match kind with
  | .lt => nextIs (fun c => c == '=' || c == '>') rest
  | .gt => nextIs (· == '=') rest
  | .minus => nextIs (· == '-') rest || startsNumber rest
  | .slash => nextIs (· == '*') rest
  | .dot => nextIs Char.isDigit rest
  | .colon => nextIs isNamePart rest
  | _ => false

/-- The sign of a number, if it is written with one. A plus sign is never part of a number. -/
def signText (negative : Bool) : Text :=
  if negative then ['-'] else []

/-- No token begins with `c` where `rest` is behind it. Only then the character is a faulty token by
itself. -/
structure BeginsNothing (c : Char) (rest : Text) : Prop where
  not_space : isSpace c = false
  not_digit : c.isDigit = false
  not_nameStart : isNameStart c = false
  not_quote : c ≠ '\x27' ∧ c ≠ '"'
  not_operator : ∀ kind : TokenKind, ∀ spelling ∈ kind.spellings,
    ¬ spelling.toList <+: c :: rest

/-- A token `text` of the kind `kind` is written as it should be and takes all it can in front of
`rest`. There is one constructor for each way in which tokens are written, and each says what may
not stand behind. -/
inductive Munched : TokenKind → Text → Text → Prop where
  | whitespace {text rest : Text} : text ≠ [] → (∀ c ∈ text, isSpace c = true) →
      nextIs isSpace rest = false → Munched .whitespace text rest
  | lineComment {body rest : Text} : (∀ c ∈ body, isLineEnd c = false) →
      rest = [] ∨ nextIs isLineEnd rest = true → Munched .comment ('-' :: '-' :: body) rest
  | blockComment {body rest : Text} : ¬ ['*', '/'] <:+: body →
      Munched .comment ('/' :: '*' :: (body ++ ['*', '/'])) rest
  | integer {negative : Bool} {digits rest : Text} : digits ≠ [] →
      (∀ c ∈ digits, c.isDigit = true) → nextIs Char.isDigit rest = false →
      startsFraction rest = false →
      Munched (.integer negative) (signText negative ++ digits) rest
  | real {negative : Bool} {whole fraction rest : Text} : (∀ c ∈ whole, c.isDigit = true) →
      fraction ≠ [] → (∀ c ∈ fraction, c.isDigit = true) → nextIs Char.isDigit rest = false →
      Munched (.real negative) (signText negative ++ (whole ++ '.' :: fraction)) rest
  | identifier {c : Char} {text rest : Text} : isNameStart c = true →
      (∀ d ∈ text, isNamePart d = true) → c :: text ≠ [':'] →
      (∀ k : Keyword, Text.lower (c :: text) ≠ Text.lower k.spelling.toList) →
      nextIs isNamePart rest = false → Munched (.identifier (c :: text)) (c :: text) rest
  | keyword {k : Keyword} {text rest : Text} :
      Text.lower text = Text.lower k.spelling.toList → nextIs isNamePart rest = false →
      Munched (.keyword k) text rest
  | string {value rest : Text} : nextIs (· == '\x27') rest = false →
      Munched (.string value) (Text.quote '\x27' value) rest
  | alternativeString {q o : Char} {value rest : Text} : q ∈ ['q', 'Q'] →
      ¬ [partner o, '\x27'] <:+: value →
      Munched (.string value) (q :: '\x27' :: o :: (value ++ [partner o, '\x27'])) rest
  | binaryString {x : Char} {digits rest : Text} : x ∈ ['x', 'X'] → HexPairs digits →
      nextIs (· == '\x27') rest = false →
      Munched (.string digits) (x :: '\x27' :: (digits ++ ['\x27'])) rest
  | quotedIdentifier {name rest : Text} : nextIs (· == '"') rest = false →
      Munched (.quotedIdentifier name) (Text.quote '"' name) rest
  | operator {kind : TokenKind} {spelling : String} {rest : Text} :
      spelling ∈ kind.spellings → kind.goesOn rest = false →
      Munched kind spelling.toList rest
  | eof : Munched .eof [] []
  -- Pieces that fit no rule
  | unterminatedComment {body : Text} : ¬ ['*', '/'] <:+: body →
      Munched (.error .unterminatedComment) ('/' :: '*' :: body) []
  | unterminatedString {body : Text} : (∀ h rest, ¬ UpToQuote '\x27' body h rest) →
      Munched (.error .unterminatedString) ('\x27' :: body) []
  | unopenedString {q : Char} : q ∈ ['q', 'Q'] →
      Munched (.error .unterminatedString) [q, '\x27'] []
  | unclosedString {q o : Char} {body : Text} : q ∈ ['q', 'Q'] →
      ¬ [partner o, '\x27'] <:+: body →
      Munched (.error .unterminatedString) (q :: '\x27' :: o :: body) []
  | unterminatedIdentifier {body : Text} : (∀ h rest, ¬ UpToQuote '"' body h rest) →
      Munched (.error .unterminatedIdentifier) ('"' :: body) []
  | unterminatedBinary {x : Char} {body : Text} : x ∈ ['x', 'X'] →
      (∀ h rest, ¬ UpToQuote '\x27' body h rest) →
      Munched (.error .unterminatedBinary) (x :: '\x27' :: body) []
  | malformedBinary {x : Char} {digits rest : Text} : x ∈ ['x', 'X'] → ¬ HexPairs digits →
      nextIs (· == '\x27') rest = false →
      Munched (.error (.malformedBinary digits)) (x :: '\x27' :: (digits ++ ['\x27'])) rest
  | unexpected {c : Char} {rest : Text} : BeginsNothing c rest →
      Munched (.error (.unexpected c)) [c] rest

/-- The text `c :: t` begins with a token of the lexeme `x` that takes all it can. The scanner finds
lexemes; this says what they are in terms of the text alone. -/
def Lexeme.Munches (c : Char) (t : Text) (x : Lexeme) : Prop :=
  Munched x.kind (c :: t.take x.extra) (t.drop x.extra)

/-- The characters behind the first one are those in front of what is left. -/
theorem Lexeme.munches_of_split {c : Char} {t front rest : Text} {kind : TokenKind} {n : Nat}
    (ht : t = front ++ rest) (hn : n = front.length) (h : Munched kind (c :: front) rest) :
    Lexeme.Munches c t ⟨kind, n⟩ := by
  subst ht hn
  rw [Munches, List.take_left, List.drop_left]
  exact h

/-- A lexeme that takes the whole text has taken all it can, as nothing is left to take. -/
theorem Lexeme.munches_to_end {c : Char} {t : Text} {kind : TokenKind}
    (h : Munched kind (c :: t) []) : Lexeme.Munches c t ⟨kind, t.length⟩ :=
  Lexeme.munches_of_split (List.append_nil t).symm rfl h

namespace Scan

variable {c : Char} {t : Text}

/-! ### Runs of characters -/

/-- Behind a run stands no character that would go on with it. -/
theorem nextIs_dropWhile (p : Char → Bool) (t : Text) : nextIs p (t.dropWhile p) = false := by
  have hhead := List.head?_dropWhile_not p t
  rw [nextIs]
  cases hd : (t.dropWhile p).head? with
  | none => rfl
  | some d =>
      rw [hd] at hhead
      simpa using hhead

/-- A test for one character tells which one is next. -/
theorem exists_of_nextIs_beq {q : Char} (h : nextIs (· == q) t = true) : ∃ u, t = q :: u := by
  cases t with
  | nil => cases h
  | cons d u => exact ⟨u, by rw [beq_iff_eq.1 (show (d == q) = true from h)]⟩

/-- A run is not empty if the next character belongs to it. -/
theorem takeWhile_ne_nil {p : Char → Bool} (h : nextIs p t = true) : t.takeWhile p ≠ [] := by
  cases t with
  | nil => cases h
  | cons d u =>
      rw [List.takeWhile_cons_of_pos (show p d = true from h)]
      exact List.cons_ne_nil _ _

/-- A run of blanks takes all blanks that follow, so no two such tokens stand side by side. -/
theorem munched_blank (hc : isSpace c = true) :
    Lexeme.Munches c t ⟨.whitespace, (t.takeWhile isSpace).length⟩ := by
  refine Lexeme.munches_of_split (List.takeWhile_append_dropWhile).symm rfl
    (.whitespace (List.cons_ne_nil _ _) ?_ (nextIs_dropWhile isSpace t))
  rw [List.forall_mem_cons]
  exact ⟨hc, fun d hd => List.mem_takeWhile_imp hd⟩

/-! ### Comments -/

/-- A line comment takes everything up to the end of the line or of the text. -/
theorem munched_lineComment (hc : c = '-') (ht : nextIs (· == '-') t = true) :
    Lexeme.Munches c t (lineComment t) := by
  subst hc
  obtain ⟨u, rfl⟩ := exists_of_nextIs_beq ht
  have hsplit : '-' :: u = ('-' :: u.takeWhile fun d => !isLineEnd d) ++
      u.dropWhile fun d => !isLineEnd d := by
    rw [List.cons_append, List.takeWhile_append_dropWhile]
  refine Lexeme.munches_of_split hsplit (by simp [Nat.add_comm]) (.lineComment ?_ ?_)
  · intro d hd
    have := List.mem_takeWhile_imp hd
    simpa using this
  -- The run ends at the end of a line, or there is nothing behind it.
  · have hend := nextIs_dropWhile (fun d => !isLineEnd d) u
    cases hrest : u.dropWhile fun d => !isLineEnd d with
    | nil => exact Or.inl rfl
    | cons d rest =>
        rw [hrest] at hend
        exact Or.inr (by simpa [nextIs] using hend)

/-- A block comment takes everything up to its first closing mark. Without one it is faulty and
takes the rest. -/
theorem munched_blockComment (hc : c = '/') (ht : nextIs (· == '*') t = true) :
    Lexeme.Munches c t (blockComment t) := by
  subst hc
  obtain ⟨u, rfl⟩ := exists_of_nextIs_beq ht
  obtain ⟨o, hsearched, hlength⟩ := searched_blockLength? u
  rw [blockComment, List.drop_succ_cons, List.drop_zero, hlength]
  cases o with
  | none => exact Lexeme.munches_to_end (.unterminatedComment hsearched)
  | some body =>
      obtain ⟨rest, hfirst⟩ := hsearched
      have hsplit : '*' :: u = ('*' :: (body ++ ['*', '/'])) ++ rest := by
        rw [hfirst.1]
        simp
      exact Lexeme.munches_of_split hsplit (by simp; omega) (.blockComment hfirst.not_infix)

/-! ### Numbers -/

/-- The number that a text begins with takes all its digits, and its fraction if there is one. A
point without a digit behind it is left. -/
theorem munched_number (negative : Bool) (h : startsNumber t = true) :
    Munched (number negative t).kind (signText negative ++ t.take (number negative t).extra)
      (t.drop (number negative t).extra) := by
  have ht : t = t.takeWhile Char.isDigit ++ t.dropWhile Char.isDigit :=
    (List.takeWhile_append_dropWhile).symm
  have hnext := nextIs_dropWhile Char.isDigit t
  have hwhole : ∀ c ∈ t.takeWhile Char.isDigit, c.isDigit = true := fun c hc =>
    List.mem_takeWhile_imp hc
  rw [number]
  generalize t.takeWhile Char.isDigit = whole at *
  generalize t.dropWhile Char.isDigit = u at *
  subst ht
  cases hfraction : startsFraction u with
  | false =>
      simp only [fractionLength?, hfraction, Bool.false_eq_true, if_false, List.take_left,
        List.drop_left]
      -- Without a fraction there must be digits in front, or no number would start.
      refine .integer ?_ hwhole hnext hfraction
      rintro rfl
      rw [List.nil_append, startsNumber, hnext, hfraction] at h
      cases h
  | true =>
      obtain ⟨v, rfl, hv⟩ : ∃ v, u = '.' :: v ∧ nextIs Char.isDigit v = true := by
        cases u with
        | nil => cases hfraction
        | cons d v =>
            rw [startsFraction_cons, Bool.and_eq_true, beq_iff_eq] at hfraction
            exact ⟨v, by rw [hfraction.1], hfraction.2⟩
      -- The number reaches to the end of the digits behind its point.
      have hsplit : whole ++ '.' :: v
          = (whole ++ '.' :: v.takeWhile Char.isDigit) ++ v.dropWhile Char.isDigit := by
        rw [List.append_assoc, List.cons_append, List.takeWhile_append_dropWhile]
      have hlength : whole.length + (1 + (v.takeWhile Char.isDigit).length)
          = (whole ++ '.' :: v.takeWhile Char.isDigit).length := by
        simp [Nat.add_comm]
      simp only [fractionLength?, hfraction, if_true, List.drop_succ_cons, List.drop_zero, hlength]
      rw [hsplit, List.take_left, List.drop_left]
      exact .real hwhole (takeWhile_ne_nil hv) (fun c hc => List.mem_takeWhile_imp hc)
        (nextIs_dropWhile Char.isDigit v)

/-- A minus sign in front of a number belongs to it, if nothing stands between the two. -/
theorem munched_negative (hc : c = '-') (h : startsNumber t = true) :
    Lexeme.Munches c t (number true t) := by
  subst hc
  exact munched_number true h

/-- A number without a sign takes all its digits and its fraction. -/
theorem munched_unsigned (h : startsNumber (c :: t) = true) :
    Lexeme.Munches c t (unsignedNumber c t) := by
  have hnumber := munched_number false h
  obtain ⟨n, hn⟩ : ∃ n, (number false (c :: t)).extra = n + 1 :=
    ⟨_, (Nat.sub_add_cancel ((number_extra_pos false).2 h)).symm⟩
  rw [hn, List.take_succ_cons, List.drop_succ_cons] at hnumber
  show Munched (number false (c :: t)).kind (c :: t.take ((number false (c :: t)).extra - 1))
    (t.drop ((number false (c :: t)).extra - 1))
  rw [hn, Nat.add_sub_cancel]
  exact hnumber

/-! ### Strings and quoted identifiers -/

/-- What is read up to a quote is the doubled form of a text. -/
theorem split_of_inside? {q : Char} {s : Text} (h : inside? q t = some s) :
    ∃ rest, t = (s ++ [q]) ++ rest ∧ q :: (s ++ [q]) = Text.quote q (Text.collapse q s) ∧
      nextIs (· == q) rest = false := by
  obtain ⟨hdouble, rest, rfl, hrest⟩ := inside?_eq_some h
  refine ⟨rest, by simp, ?_, hrest⟩
  rw [Text.quote, ← hdouble]
  rfl

/-- A delimited literal takes all up to its closing quote. -/
theorem munched_delimited {q : Char} {kind : Text → TokenKind} {fault : LexicalFault}
    (h : ∀ value rest, nextIs (· == q) rest = false →
      Munched (kind value) (Text.quote q value) rest)
    (hfault : (∀ h rest, ¬ UpToQuote q t h rest) → Munched (.error fault) (q :: t) []) :
    Lexeme.Munches q t (delimited q (fun s => kind (Text.collapse q s)) fault t) := by
  rw [delimited]
  cases hs : inside? q t with
  | none => exact Lexeme.munches_to_end (hfault (inside?_eq_none_iff.1 hs))
  | some s =>
      obtain ⟨rest, ht, hquote, hrest⟩ := split_of_inside? hs
      refine Lexeme.munches_of_split ht (by simp) ?_
      rw [hquote]
      exact h _ rest hrest

/-- A string takes all up to the first quote that is not doubled. -/
theorem munched_string (hc : c = '\x27') : Lexeme.Munches c t (string t) := by
  subst hc
  exact munched_delimited (fun _ _ hrest => .string hrest) .unterminatedString

/-- A quoted identifier does as well, with quotes of the other kind. -/
theorem munched_quotedIdentifier (hc : c = '"') : Lexeme.Munches c t (quotedIdentifier t) := by
  subst hc
  exact munched_delimited (fun _ _ hrest => .quotedIdentifier hrest) .unterminatedIdentifier

/-- Only a letter and its capital have the letter as their small form. -/
theorem mem_of_toLower {p capital : Char}
    (hcapitals : capitals.filter (fun d => d.toLower == p) = [capital]) (hc : c.toLower = p) :
    c ∈ [p, capital] := by
  by_cases hcapital : c ∈ capitals
  · have hmem : c ∈ capitals.filter (fun d => d.toLower == p) :=
      List.mem_filter.2 ⟨hcapital, beq_iff_eq.2 hc⟩
    rw [hcapitals] at hmem
    exact List.mem_cons_of_mem _ hmem
  · rw [toLower_of_not_mem hcapital] at hc
    rw [hc]
    exact List.mem_cons_self

/-- An alternative string takes all up to the first partner of its opening character with a quote
behind it. Without such a pair, or without an opening character, it is faulty and takes the rest. -/
theorem munched_alternativeString (hc : c.toLower = 'q') (ht : nextIs (· == '\x27') t = true) :
    Lexeme.Munches c t (alternativeString t) := by
  have hq : c ∈ ['q', 'Q'] := mem_of_toLower (by decide) hc
  obtain ⟨u, rfl⟩ := exists_of_nextIs_beq ht
  rw [alternativeString, List.drop_succ_cons, List.drop_zero]
  cases u with
  -- Nothing opens the string.
  | nil => exact Lexeme.munches_to_end (.unopenedString hq)
  | cons o body =>
      cases hs : before? (partner o) body with
      -- Nothing closes it.
      | none =>
          simp only [hs]
          exact Lexeme.munches_to_end (.unclosedString hq (before?_eq_none_iff.1 hs))
      | some v =>
          obtain ⟨rest, hfirst⟩ := before?_eq_some_iff.1 hs
          have hsplit : '\x27' :: o :: body
              = ('\x27' :: o :: (v ++ [partner o, '\x27'])) ++ rest := by
            rw [hfirst.1]
            simp
          simp only [hs]
          exact Lexeme.munches_of_split hsplit (by simp) (.alternativeString hq hfirst.not_infix)

/-- A binary string takes all up to the first quote that is not doubled. Whether its digits are fine
does not change how far it goes. -/
theorem munched_binaryString (hc : c.toLower = 'x') (ht : nextIs (· == '\x27') t = true) :
    Lexeme.Munches c t (binaryString t) := by
  have hx : c ∈ ['x', 'X'] := mem_of_toLower (by decide) hc
  obtain ⟨u, rfl⟩ := exists_of_nextIs_beq ht
  rw [binaryString, List.drop_succ_cons, List.drop_zero]
  cases hs : inside? '\x27' u with
  | none => exact Lexeme.munches_to_end (.unterminatedBinary hx (inside?_eq_none_iff.1 hs))
  | some digits =>
      -- The string is closed; its digits decide only about the kind.
      obtain ⟨rest, hrest, -, hnext⟩ := split_of_inside? hs
      have hsplit : '\x27' :: u = ('\x27' :: (digits ++ ['\x27'])) ++ rest := by
        rw [hrest]
        rfl
      simp only
      split
      · next hpairs =>
        exact Lexeme.munches_of_split hsplit (by simp)
          (.binaryString hx (hexPairs_iff.1 hpairs) hnext)
      · next hpairs =>
        exact Lexeme.munches_of_split hsplit (by simp)
          (.malformedBinary hx (mt hexPairs_iff.2 hpairs) hnext)

/-! ### Words -/

/-- A word takes all characters that a name may go on with. It is a keyword exactly if it spells
one, so the keyword that it spells is looked up last. -/
theorem munched_word (hc : isNameStart c = true) (hcolon : c = ':' → nextIs isNamePart t = true) :
    Lexeme.Munches c t (word c t) := by
  have hsplit : t = t.takeWhile isNamePart ++ t.dropWhile isNamePart :=
    (List.takeWhile_append_dropWhile).symm
  have hnext := nextIs_dropWhile isNamePart t
  rw [word]
  cases hk : Keyword.ofText? (c :: t.takeWhile isNamePart) with
  | some k =>
      exact Lexeme.munches_of_split hsplit rfl (.keyword (Keyword.ofText?_eq_some_iff.1 hk) hnext)
  | none =>
      refine Lexeme.munches_of_split hsplit rfl
        (.identifier hc (fun d hd => List.mem_takeWhile_imp hd) ?_ ?_ hnext)
      -- A lone colon is an operator, since a word needs a character behind its colon.
      · intro heq
        rw [List.cons.injEq] at heq
        exact takeWhile_ne_nil (hcolon heq.1) heq.2
      · intro k hlower
        rw [Keyword.ofText?_eq_some_iff.2 hlower] at hk
        cases hk

/-! ### Operators -/

/-- An operator of two characters is spelled by them, and no token of three begins with it. -/
theorem munched_double {d : Char} {u : Text} {kind : TokenKind} (h : double? c d = some kind) :
    Lexeme.Munches c (d :: u) ⟨kind, 1⟩ := by
  have hspelled : ∃ spelling ∈ kind.spellings, [c, d] = spelling.toList := by
    rw [double?] at h
    repeat' split at h
    all_goals cases h
    · next hcd => exact ⟨"||", by decide, by rw [hcd.1, hcd.2]; rfl⟩
    · next hcd => exact ⟨"<=", by decide, by rw [hcd.1, hcd.2]; rfl⟩
    · next hcd => exact ⟨"<>", by decide, by rw [hcd.1, hcd.2]; rfl⟩
    · next hcd => exact ⟨">=", by decide, by rw [hcd.1, hcd.2]; rfl⟩
    · next hcd =>
      obtain ⟨rfl | rfl | rfl, rfl⟩ := hcd
      · exact ⟨"!=", by decide, rfl⟩
      · exact ⟨"^=", by decide, rfl⟩
      · exact ⟨"~=", by decide, rfl⟩
  -- No operator of two characters is the beginning of a longer token.
  have hgoesOn : kind.goesOn u = false := by
    have hkind := (double?_cases h).2
    simp only [List.mem_cons, List.not_mem_nil, or_false] at hkind
    rcases hkind with rfl | rfl | rfl | rfl <;> rfl
  obtain ⟨spelling, hmem, hspelling⟩ := hspelled
  refine Lexeme.munches_of_split (show d :: u = [d] ++ u from rfl) rfl ?_
  rw [hspelling]
  exact .operator hmem hgoesOn

/-- Behind an operator that is no longer one stands nothing that would make it one. -/
theorem nextIs_of_not_double {p : Char → Bool} (hp : ∀ d, p d = true → double? c d ≠ none)
    (hdouble : t.head?.bind (double? c) = none) : nextIs p t = false := by
  cases t with
  | nil => rfl
  | cons d u => exact Bool.eq_false_iff.2 fun hd => hp d hd hdouble

/-- An operator of one character is not the beginning of a longer token if the cases in front of
it do not apply. -/
theorem goesOn_single {kind : TokenKind} (hsingle : (c, kind) ∈ singles)
    (hdouble : t.head?.bind (double? c) = none)
    (hminus : c = '-' → nextIs (· == '-') t = false ∧ startsNumber t = false)
    (hslash : c = '/' → nextIs (· == '*') t = false)
    (hdot : c = '.' → nextIs Char.isDigit t = false)
    (hcolon : c = ':' → nextIs isNamePart t = false) : kind.goesOn t = false := by
  -- No two of the characters are of the same kind.
  have honly : ∀ p ∈ singles, ∀ p' ∈ singles, p.2 = p'.2 → p.1 = p'.1 := by decide
  have hchar : ∀ {d : Char}, (d, kind) ∈ singles → c = d := fun hd =>
    honly _ hsingle _ hd rfl
  unfold TokenKind.goesOn
  split
  · refine nextIs_of_not_double (fun d hd => ?_) hdouble
    rw [hchar (show ('<', TokenKind.lt) ∈ singles by decide)]
    rw [Bool.or_eq_true, beq_iff_eq, beq_iff_eq] at hd
    rcases hd with rfl | rfl <;> decide
  · refine nextIs_of_not_double (fun d hd => ?_) hdouble
    rw [hchar (show ('>', TokenKind.gt) ∈ singles by decide), beq_iff_eq.1 hd]
    decide
  · obtain ⟨hdash, hnumber⟩ := hminus (hchar (by decide))
    rw [hdash, hnumber]
    rfl
  · exact hslash (hchar (by decide))
  · exact hdot (hchar (by decide))
  · exact hcolon (hchar (by decide))
  · rfl

/-- Every spelling begins with an operator of one character, or is one of two. -/
theorem spelling_cases {kind : TokenKind} {spelling : String} (h : spelling ∈ kind.spellings) :
    (∃ d u, spelling.toList = d :: u ∧ single? d ≠ none) ∨
      ∃ d e, spelling.toList = [d, e] ∧ double? d e ≠ none := by
  cases kind with
  -- The two bars are the only operator no part of which is one.
  | concat =>
      obtain rfl := List.mem_singleton.1 h
      exact Or.inr ⟨'|', '|', rfl, by decide⟩
  | notEq =>
      simp only [TokenKind.spellings, List.mem_cons, List.not_mem_nil, or_false] at h
      rcases h with rfl | rfl | rfl | rfl
      · exact Or.inl ⟨'<', ['>'], rfl, by decide⟩
      · exact Or.inr ⟨'!', '=', rfl, by decide⟩
      · exact Or.inr ⟨'^', '=', rfl, by decide⟩
      · exact Or.inr ⟨'~', '=', rfl, by decide⟩
  | integer | real | string | identifier | quotedIdentifier | keyword | whitespace | comment | eof
  | error => cases h
  | _ =>
      obtain rfl := List.mem_singleton.1 h
      exact Or.inl ⟨_, _, rfl, by decide⟩

/-- A text that begins with no operator begins with no spelling of one. -/
theorem not_spelled (hsingle : single? c = none) (hdouble : t.head?.bind (double? c) = none)
    {kind : TokenKind} {spelling : String} (h : spelling ∈ kind.spellings) :
    ¬ spelling.toList <+: c :: t := by
  rintro ⟨u, hu⟩
  rcases spelling_cases h with ⟨d, v, hspelling, hd⟩ | ⟨d, e, hspelling, hde⟩
  · rw [hspelling, List.cons_append, List.cons.injEq] at hu
    rw [hu.1] at hd
    exact hd hsingle
  · rw [hspelling, List.cons_append, List.cons.injEq] at hu
    rw [← hu.1, ← hu.2] at hdouble
    exact hde hdouble

/-- An operator is the longest one that begins here. The hypotheses are the cases that the scanner
has tried before it, and the last one says that nothing else begins with such a character. -/
theorem munched_operator
    (hminus : c = '-' → nextIs (· == '-') t = false ∧ startsNumber t = false)
    (hslash : c = '/' → nextIs (· == '*') t = false)
    (hdot : c = '.' → nextIs Char.isDigit t = false)
    (hcolon : c = ':' → nextIs isNamePart t = false)
    (hother : (∀ kind : TokenKind, ∀ spelling ∈ kind.spellings, ¬ spelling.toList <+: c :: t) →
      BeginsNothing c t) : Lexeme.Munches c t (operator c t) := by
  rw [operator]
  split
  · next kind hdouble =>
    obtain ⟨d, hd, hdouble⟩ := Option.bind_eq_some_iff.1 hdouble
    obtain ⟨u, rfl⟩ := List.head?_eq_some_iff.1 hd
    exact munched_double hdouble
  · next hdouble =>
    split
    · next kind hsingle =>
      have hmem := mem_singles hsingle
      -- There are finitely many such operators, so this is checked for all of them.
      have hspelled : ∀ p ∈ singles, ∃ spelling ∈ p.2.spellings, [p.1] = spelling.toList := by
        decide
      obtain ⟨spelling, hspelling, htext⟩ := hspelled _ hmem
      refine Lexeme.munches_of_split (List.nil_append t).symm rfl ?_
      rw [show [c] = spelling.toList from htext]
      exact .operator hspelling (goesOn_single hmem hdouble hminus hslash hdot hcolon)
    · next hsingle =>
      refine Lexeme.munches_of_split (List.nil_append t).symm rfl (.unexpected (hother ?_))
      exact fun kind spelling h => not_spelled hsingle hdouble h

end Scan

/-! ### The cases of the scanner -/

/-- One of the tests that the scanner tries in order. Behind it the test is known to fail. -/
theorem Lexeme.Munches.ite {c : Char} {t : Text} {p : Prop} [Decidable p] {x y : Lexeme}
    (hx : p → Lexeme.Munches c t x) (hy : ¬ p → Lexeme.Munches c t y) :
    Lexeme.Munches c t (if p then x else y) := by
  split
  · next hp => exact hx hp
  · next hp => exact hy hp

/-- What a text begins with takes all it can: no longer piece of the text is a token of its class.
There is one case for each scanner. -/
theorem munched_scan (c : Char) (t : Text) : Lexeme.Munches c t (scan c t) := by
  have both : ∀ {d q : Char} {b : Bool}, (d == q && b) = true → d = q ∧ b = true := by
    intro d q b h
    rw [Bool.and_eq_true, beq_iff_eq] at h
    exact h
  have fails : ∀ {q : Char} {b : Bool}, ¬ (c == q && b) = true → c = q → b = false := by
    intro q b h hc
    exact Bool.eq_false_iff.2 fun hb => h (by rw [hc, hb, beq_self_eq_true]; rfl)
  rw [scan]
  refine .ite munched_blank fun hspace => ?_
  refine .ite (fun h => munched_lineComment (both h).1 (both h).2) fun hline => ?_
  refine .ite (fun h => munched_blockComment (both h).1 (both h).2) fun hblock => ?_
  refine .ite (fun h => munched_negative (both h).1 (both h).2) fun hnegative => ?_
  refine .ite munched_unsigned fun hnumber => ?_
  refine .ite (fun h => munched_string (beq_iff_eq.1 h)) fun hstring => ?_
  refine .ite (fun h => munched_quotedIdentifier (beq_iff_eq.1 h)) fun hquoted => ?_
  refine .ite (fun h => munched_alternativeString (both h).1 (both h).2) fun _ => ?_
  refine .ite (fun h => munched_binaryString (both h).1 (both h).2) fun _ => ?_
  -- What is left may be an operator: comments and numbers were tried in front of it.
  have hminus : c = '-' → nextIs (· == '-') t = false ∧ startsNumber t = false := fun hc =>
    ⟨fails hline hc, fails hnegative hc⟩
  rw [Bool.or_eq_true, not_or, Bool.not_eq_true, Bool.not_eq_true] at hnumber
  have hdot : c = '.' → nextIs Char.isDigit t = false := by
    rintro rfl
    exact hnumber.2
  have hoperator := munched_operator (c := c) (t := t) hminus (fails hblock) hdot
  refine .ite (fun h => ?_) fun hcolon => ?_
  · obtain ⟨rfl, hname⟩ := both h
    refine hoperator (fun _ => by simpa using hname) fun hnone => ?_
    exact absurd ⟨t, rfl⟩ (hnone .colon ":" (by decide))
  refine .ite (fun h => munched_word h fun hc => ?_) fun hstart => ?_
  · have hname := fails hcolon hc
    simpa using hname
  · refine hoperator (fun hc => ?_) fun hnone => ?_
    · rw [hc] at hstart
      exact absurd rfl hstart
    · rw [beq_iff_eq] at hstring hquoted
      exact ⟨Bool.eq_false_iff.2 hspace, hnumber.1, Bool.eq_false_iff.2 hstart,
        ⟨hstring, hquoted⟩, hnone⟩

/-- Every token of a statement is written as its kind is, and takes all it can: what stands behind
it does not go on with it. -/
theorem munched_of_mem_restAll (sql : Text) :
    ∀ x ∈ (Lexer.ofText sql).restAll.1, ∃ rest,
      Text.dropBytes? x.span.stop sql = some rest ∧ Munched x.kind (x.span.slice sql) rest := by
  intro x hx
  rcases Lexer.mem_restAll_iff.1 hx with hmem | rfl
  · obtain ⟨ts, us, hsplit⟩ := List.append_of_mem hmem
    -- The token is the first one of the text from its place on, and there the scanner has found it.
    obtain ⟨a, c, u, hsql, -, hfirst, -⟩ := exists_place hsplit
    refine ⟨u.drop (scan c u).extra, ?_, ?_⟩
    · have htext : sql = (a ++ x.text) ++ u.drop (scan c u).extra := by
        rw [hsql, hfirst, firstToken, List.append_assoc, List.cons_append, List.take_append_drop]
      have hstop : x.span.stop = Text.size (a ++ x.text) := by
        rw [Text.size_append, hfirst]
        rfl
      rw [hstop, htext]
      exact Text.dropBytes?_size _ _
    · rw [slice_of_mem_tokens hmem, hfirst]
      exact munched_scan c u
  · refine ⟨[], ?_, ?_⟩
    · have hsize := Text.dropBytes?_size sql []
      rwa [List.append_nil] at hsize
    · have hslice := Span.slice_append sql [] []
      rw [List.append_nil, List.append_nil] at hslice
      rw [show (Token.atEnd (Text.size sql)).span.slice sql = [] from hslice]
      exact .eof

/-- A comparison with a negative number: the sign does not belong to the operator in front of it,
and the two dashes behind the number do not belong to the number. -/
theorem munched_of_mem_restAll_sign :
    Munched .lt "<".toList "-.5--é".toList ∧
      Munched (.real true) "-.5".toList "--é".toList := by
  have hall := munched_of_mem_restAll "a<-.5--é".toList
  have hlt : (⟨.lt, "<".toList, 1⟩ : Token) ∈ (Lexer.ofText "a<-.5--é".toList).restAll.1 := by
    decide +kernel
  have hreal : (⟨.real true, "-.5".toList, 2⟩ : Token)
      ∈ (Lexer.ofText "a<-.5--é".toList).restAll.1 := by decide +kernel
  obtain ⟨rest, hrest, hmunched⟩ := hall _ hlt
  obtain ⟨rest', hrest', hmunched'⟩ := hall _ hreal
  have heq : rest = "-.5--é".toList :=
    Option.some.inj (hrest.symm.trans (show _ = some "-.5--é".toList by decide +kernel))
  have heq' : rest' = "--é".toList :=
    Option.some.inj (hrest'.symm.trans (show _ = some "--é".toList by decide +kernel))
  rw [heq] at hmunched
  rw [heq'] at hmunched'
  exact ⟨hmunched, hmunched'⟩

end GeneratedKeys
