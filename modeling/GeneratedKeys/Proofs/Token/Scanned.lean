import GeneratedKeys.Token.Lexer

/-!
# `GeneratedKeys.Proofs.Token.Scanned`: the cases of the scanner

The scanner tries its cases one after the other. `Scanned c t x` lists them, each with the
test that leads to it, so a property of all lexemes is proved case by case.

* `scanned_scan`: the scanner follows one of the cases.
* `kinds_scan`: of which kind the token is then.
* `isSpace_of_whitespace`, `scan_semicolon`, `sign_of_number`, `scan_keyword`,
  `scan_quotedIdentifier`, `scan_identifier`: which texts begin with a token of a kind.
* `lower_text_of_keyword`: how a keyword is written.
-/

set_option autoImplicit false

namespace GeneratedKeys

open Scan

/-- The text `c :: t` begins with the lexeme `x`. There is one constructor for each case of the
scanner, with the tests that have led there. -/
inductive Scanned (c : Char) (t : Text) : Lexeme → Prop where
  | blank : isSpace c = true → Scanned c t ⟨.whitespace, (t.takeWhile isSpace).length⟩
  | lineComment : c = '-' → nextIs (· == '-') t = true → Scanned c t (lineComment t)
  | blockComment : c = '/' → nextIs (· == '*') t = true → Scanned c t (blockComment t)
  | negative : c = '-' → startsNumber t = true → Scanned c t (number true t)
  | number : c.isDigit = true ∨ startsFraction (c :: t) = true →
      Scanned c t (unsignedNumber c t)
  | string : c = '\x27' → Scanned c t (string t)
  | quotedIdentifier : c = '"' → Scanned c t (quotedIdentifier t)
  | alternativeString : nextIs (· == '\x27') t = true → Scanned c t (alternativeString t)
  | binaryString : nextIs (· == '\x27') t = true → Scanned c t (binaryString t)
  | word : isNameStart c = true → Scanned c t (word c t)
  | operator : Scanned c t (operator c t)

/-- One of the tests that the scanner tries in order: either it holds and its rule was taken, or the
others follow. -/
theorem Scanned.ite {c : Char} {t : Text} {p : Prop} [Decidable p] {x y : Lexeme}
    (hx : p → Scanned c t x) (hy : Scanned c t y) : Scanned c t (if p then x else y) := by
  split
  · next hp => exact hx hp
  · exact hy

/-- The scanner follows one of the cases. Proofs about the first token take this apart and need not
unfold `scan`. -/
theorem scanned_scan (c : Char) (t : Text) : Scanned c t (scan c t) := by
  have both : ∀ {b b' : Bool}, (b && b') = true → b = true ∧ b' = true :=
    fun h => Bool.and_eq_true_iff.1 h
  rw [scan]
  refine .ite (fun h => .blank h) ?_
  refine .ite (fun h => .lineComment (beq_iff_eq.1 (both h).1) (both h).2) ?_
  refine .ite (fun h => .blockComment (beq_iff_eq.1 (both h).1) (both h).2) ?_
  refine .ite (fun h => .negative (beq_iff_eq.1 (both h).1) (both h).2) ?_
  refine .ite (fun h => .number (Bool.or_eq_true_iff.1 h)) ?_
  refine .ite (fun h => .string (beq_iff_eq.1 h)) ?_
  refine .ite (fun h => .quotedIdentifier (beq_iff_eq.1 h)) ?_
  refine .ite (fun h => .alternativeString (both h).2) ?_
  refine .ite (fun h => .binaryString (both h).2) ?_
  -- A colon in front of no name is an operator.
  refine .ite (fun _ => .operator) ?_
  exact .ite (fun h => .word h) .operator

/-- The kinds of operators and punctuation, which are the ones that `operator` can find apart from a
fault. -/
def TokenKind.isOperator : TokenKind → Bool
  | .leftParen | .rightParen | .leftBracket | .rightBracket | .comma | .semicolon | .plus
  | .minus | .star | .slash | .question | .dot | .colon | .eq | .lt | .gt | .concat | .ltEq
  | .notEq | .gtEq => true
  | _ => false

namespace Scan

/-! ### The kinds that the cases answer with -/

/-- A block comment is a comment, or it is cut off by the end of the text. -/
theorem kind_blockComment (t : Text) :
    (blockComment t).kind = .comment ∨ (blockComment t).kind = .error .unterminatedComment := by
  rw [blockComment]
  split
  · exact Or.inl rfl
  · exact Or.inr rfl

/-- A number is a whole one or one with a fraction, with the sign that was read. -/
theorem kind_number (sign : Bool) (t : Text) :
    (number sign t).kind = .integer sign ∨ (number sign t).kind = .real sign := by
  rw [number]
  split
  · exact Or.inr rfl
  · exact Or.inl rfl

/-- A string is a string, or a fault, where no closing quote is found. -/
theorem kind_string (t : Text) :
    (∃ s, (string t).kind = .string s) ∨ ∃ fault, (string t).kind = .error fault := by
  rw [string]
  split
  · exact Or.inl ⟨_, rfl⟩
  · exact Or.inr ⟨_, rfl⟩

/-- A quoted identifier is one, or a fault, where no closing quote is found. -/
theorem kind_quotedIdentifier (t : Text) :
    (∃ s, (quotedIdentifier t).kind = .quotedIdentifier s) ∨
      ∃ fault, (quotedIdentifier t).kind = .error fault := by
  rw [quotedIdentifier]
  split
  · exact Or.inl ⟨_, rfl⟩
  · exact Or.inr ⟨_, rfl⟩

/-- An alternative string is a string, or a fault. -/
theorem kind_alternativeString (t : Text) :
    (∃ s, (alternativeString t).kind = .string s) ∨
      ∃ fault, (alternativeString t).kind = .error fault := by
  rw [alternativeString]
  split
  · exact Or.inr ⟨_, rfl⟩
  · split
    · exact Or.inl ⟨_, rfl⟩
    · exact Or.inr ⟨_, rfl⟩

/-- A binary string is a string, or a fault. -/
theorem kind_binaryString (t : Text) :
    (∃ s, (binaryString t).kind = .string s) ∨
      ∃ fault, (binaryString t).kind = .error fault := by
  rw [binaryString]
  split
  · split
    · exact Or.inl ⟨_, rfl⟩
    · exact Or.inr ⟨_, rfl⟩
  · exact Or.inr ⟨_, rfl⟩

/-- A word is a keyword or a name. It is never faulty, whatever follows it. -/
theorem kind_word (c : Char) (t : Text) :
    (∃ k, (word c t).kind = .keyword k) ∨ ∃ name, (word c t).kind = .identifier name := by
  rw [word]
  cases Keyword.ofText? (c :: t.takeWhile isNamePart) with
  | some k => exact Or.inl ⟨k, rfl⟩
  | none => exact Or.inr ⟨_, rfl⟩

/-- The operators and the punctuation of one character, as a table. It is what `single?` decides by
its cases. -/
def singles : List (Char × TokenKind) :=
  [('(', .leftParen), (')', .rightParen), ('[', .leftBracket), (']', .rightBracket),
    (',', .comma), (';', .semicolon), ('+', .plus), ('-', .minus), ('*', .star), ('/', .slash),
    ('?', .question), ('.', .dot), (':', .colon), ('=', .eq), ('<', .lt), ('>', .gt)]

/-- Every operator that the scanner knows by one character is in the list. The scanner compares one
character after the other, so the proof goes line by line. -/
theorem mem_singles {c : Char} {kind : TokenKind} :
    single? c = some kind → (c, kind) ∈ singles := by
  -- One comparison of the scanner: the character is the one compared with, or the search goes on.
  have line : ∀ {d : Char} {kind' : TokenKind} {o : Option TokenKind}, (d, kind') ∈ singles →
      (o = some kind → (c, kind) ∈ singles) →
        (if c = d then some kind' else o) = some kind → (c, kind) ∈ singles := by
    intro d kind' o hd ho h
    by_cases hc : c = d
    · rw [if_pos hc] at h
      cases h
      rwa [hc]
    · rw [if_neg hc] at h
      exact ho h
  rw [single?]
  iterate 16 refine line (by decide) ?_
  intro h
  cases h

/-- The operators of two characters, by their last one. -/
theorem double?_cases {c d : Char} {kind : TokenKind} (h : double? c d = some kind) :
    d ∈ ['|', '=', '>'] ∧ kind ∈ [TokenKind.concat, .ltEq, .notEq, .gtEq] := by
  rw [double?] at h
  repeat' split at h
  all_goals cases h
  all_goals simp [*]

/-- An operator has one of these kinds, unless no token starts with the character. -/
theorem isOperator_operator (c : Char) (t : Text) :
    (operator c t).kind.isOperator = true ∨ (operator c t).kind = .error (.unexpected c) := by
  rw [operator]
  split
  · next kind h =>
    have hdoubles : ∀ k ∈ [TokenKind.concat, .ltEq, .notEq, .gtEq], k.isOperator = true := by
      decide
    obtain ⟨d, -, hd⟩ := Option.bind_eq_some_iff.1 h
    exact Or.inl (hdoubles kind (double?_cases hd).2)
  · split
    · next kind h =>
      have hsingles : ∀ p ∈ singles, p.2.isOperator = true := by decide
      exact Or.inl (hsingles (c, kind) (mem_singles h))
    · exact Or.inr rfl

/-- A character that begins no longer operator is one by itself, whatever stands behind it. -/
theorem operator_of_single {c : Char} {kind : TokenKind} (h : single? c = some kind)
    (hdouble : ∀ d, double? c d = none) (t : Text) : operator c t = ⟨kind, 0⟩ := by
  have hnone : t.head?.bind (double? c) = none := by
    cases t with
    | nil => rfl
    | cons d t => exact hdouble d
  rw [operator, hnone, h]

end Scan

/-! ### Characters that are tokens by themselves -/

/-- A star is a token by itself, whatever stands behind it. -/
theorem scan_star (t : Text) : scan '*' t = ⟨.star, 0⟩ :=
  operator_of_single rfl (fun d => by simp [double?]) t

/-- A comma is a token by itself. So items can be separated without a blank. -/
theorem scan_comma (t : Text) : scan ',' t = ⟨.comma, 0⟩ :=
  operator_of_single rfl (fun d => by simp [double?]) t

/-- So is an opening parenthesis. It begins no longer operator with any character behind it. -/
theorem scan_leftParen (t : Text) : scan '(' t = ⟨.leftParen, 0⟩ :=
  operator_of_single rfl (fun d => by simp [double?]) t

/-- A closing parenthesis is a token by itself, also in front of another one. -/
theorem scan_rightParen (t : Text) : scan ')' t = ⟨.rightParen, 0⟩ :=
  operator_of_single rfl (fun d => by simp [double?]) t

/-! ### Which texts begin with a token of a kind -/

/-- The text `c :: t` begins with the lexeme `x`, by the kind of it. -/
inductive Kinds (c : Char) (t : Text) (x : Lexeme) : Prop where
  | fault {fault : LexicalFault} : x.kind = .error fault → Kinds c t x
  | blank : isSpace c = true → x.kind = .whitespace → Kinds c t x
  | comment : x.kind = .comment → Kinds c t x
  | number {sign : Bool} : sign = (c == '-') → x.kind = .integer sign ∨ x.kind = .real sign →
      Kinds c t x
  | string {s : Text} : x.kind = .string s → Kinds c t x
  | quoted {s : Text} : c = '"' → x = quotedIdentifier t → x.kind = .quotedIdentifier s →
      Kinds c t x
  | keyword {k : Keyword} : x = word c t → x.kind = .keyword k → Kinds c t x
  | identifier {name : Text} : isNameStart c = true → x = word c t → x.kind = .identifier name →
      Kinds c t x
  | operator : x = operator c t → x.kind.isOperator = true → Kinds c t x

/-- The case that the scanner follows settles what kinds there may be, which is enough where the
length of the token plays no part. -/
theorem kinds_scan (c : Char) (t : Text) : Kinds c t (scan c t) := by
  have hcase := scanned_scan c t
  generalize scan c t = x at hcase ⊢
  cases hcase with
  | blank hc => exact .blank hc rfl
  | lineComment => exact .comment rfl
  | blockComment =>
      rcases kind_blockComment t with hk | hk
      · exact .comment hk
      · exact .fault hk
  | negative hc => exact .number (by rw [hc]; rfl) (kind_number true t)
  | number hc =>
      -- A number without sign begins with a digit or a point.
      have hne : c ≠ '-' := by
        rintro rfl
        rcases hc with hc | hc <;> cases hc
      exact .number (beq_false_of_ne hne).symm (kind_number false (c :: t))
  | string =>
      rcases kind_string t with ⟨_, hk⟩ | ⟨_, hk⟩
      · exact .string hk
      · exact .fault hk
  | quotedIdentifier hc =>
      rcases kind_quotedIdentifier t with ⟨_, hk⟩ | ⟨_, hk⟩
      · exact .quoted hc rfl hk
      · exact .fault hk
  | alternativeString =>
      rcases kind_alternativeString t with ⟨_, hk⟩ | ⟨_, hk⟩
      · exact .string hk
      · exact .fault hk
  | binaryString =>
      rcases kind_binaryString t with ⟨_, hk⟩ | ⟨_, hk⟩
      · exact .string hk
      · exact .fault hk
  | word hc =>
      rcases kind_word c t with ⟨_, hk⟩ | ⟨_, hk⟩
      · exact .keyword rfl hk
      · exact .identifier hc rfl hk
  | operator =>
      rcases isOperator_operator c t with hk | hk
      · exact .operator rfl hk
      · exact .fault hk

/-- The kinds of blanks, operators and punctuation, and that of the end: the ones that carry no
value and are no words. -/
def TokenKind.isMark : TokenKind → Bool
  | .integer _ | .real _ | .string _ | .identifier _ | .quotedIdentifier _ | .keyword _
  | .comment | .error _ => false
  | _ => true

/-- A token of such a kind is a run of blanks or an operator. -/
theorem scan_mark {c : Char} {t : Text} (h : (scan c t).kind.isMark = true) :
    (isSpace c = true ∧ (scan c t).kind = .whitespace) ∨ scan c t = operator c t := by
  cases kinds_scan c t with
  | blank hc hk => exact Or.inl ⟨hc, hk⟩
  | operator hop => exact Or.inr hop
  | number _ hk => rcases hk with hk | hk <;> rw [hk] at h <;> cases h
  | fault hk | comment hk | string hk | quoted _ _ hk | keyword _ hk | identifier _ _ hk =>
      rw [hk] at h
      cases h

/-- Only a blank begins a run of blanks, and only that rule gives this kind. -/
theorem isSpace_of_whitespace {c : Char} {t : Text} (h : (scan c t).kind = .whitespace) :
    isSpace c = true := by
  rcases scan_mark (c := c) (t := t) (by rw [h]; rfl) with ⟨hc, -⟩ | hop
  · exact hc
  · rw [hop] at h
    rcases isOperator_operator c t with hk | hk
    · rw [h] at hk
      cases hk
    · cases h.symm.trans hk

/-- A semicolon is a token by itself, and no other character gives a token of its kind. -/
theorem scan_semicolon {c : Char} {t : Text} (h : (scan c t).kind = .semicolon) :
    c = ';' ∧ (scan c t).extra = 0 := by
  rcases scan_mark (c := c) (t := t) (by rw [h]; rfl) with ⟨-, hk⟩ | hop
  · cases h.symm.trans hk
  · rw [hop] at h ⊢
    rw [operator] at h ⊢
    revert h
    split
    · next kind hd =>
      intro h
      obtain ⟨d, -, hd⟩ := Option.bind_eq_some_iff.1 hd
      have hk := (double?_cases hd).2
      simp [show kind = TokenKind.semicolon from h] at hk
    · split
      · next kind hs =>
        intro h
        have hmem := mem_singles hs
        rw [show kind = TokenKind.semicolon from h] at hmem
        -- Of the operators of one character only one is a semicolon.
        have honly : ∀ p ∈ singles, p.2 = TokenKind.semicolon → p.1 = ';' := by decide
        exact ⟨honly _ hmem rfl, rfl⟩
      · intro h
        cases h

/-- A number is negative if it is written with a minus sign. -/
theorem sign_of_number {c : Char} {t : Text} {sign : Bool}
    (h : (scan c t).kind = .integer sign ∨ (scan c t).kind = .real sign) :
    sign = (c == '-') := by
  cases kinds_scan c t with
  | number hsign hk =>
      rcases hk with hk | hk <;> rw [hk] at h <;> rcases h with h | h <;> cases h <;> exact hsign
  | operator _ hk => rcases h with h | h <;> rw [h] at hk <;> cases hk
  | fault hk | blank _ hk | comment hk | string hk | quoted _ _ hk | keyword _ hk
  | identifier _ _ hk => rcases h with h | h <;> cases h.symm.trans hk

/-- A keyword is a word: no other rule gives a token of such a kind. -/
theorem scan_keyword {c : Char} {t : Text} {k : Keyword} (h : (scan c t).kind = .keyword k) :
    scan c t = word c t := by
  cases kinds_scan c t with
  | keyword hword => exact hword
  | number _ hk => rcases hk with hk | hk <;> cases h.symm.trans hk
  | operator _ hk =>
      rw [h] at hk
      cases hk
  | fault hk | blank _ hk | comment hk | string hk | quoted _ _ hk | identifier _ _ hk =>
      cases h.symm.trans hk

/-- A quoted identifier begins with its quote, so the rule for it was taken. -/
theorem scan_quotedIdentifier {c : Char} {t d : Text}
    (h : (scan c t).kind = .quotedIdentifier d) : c = '"' ∧ scan c t = quotedIdentifier t := by
  cases kinds_scan c t with
  | quoted hc hquoted => exact ⟨hc, hquoted⟩
  | number _ hk => rcases hk with hk | hk <;> cases h.symm.trans hk
  | operator _ hk =>
      rw [h] at hk
      cases hk
  | fault hk | blank _ hk | comment hk | string hk | keyword _ hk | identifier _ _ hk =>
      cases h.symm.trans hk

/-- An identifier is a word, and begins with a character that a name may start with. -/
theorem scan_identifier {c : Char} {t name : Text} (h : (scan c t).kind = .identifier name) :
    isNameStart c = true ∧ scan c t = word c t := by
  cases kinds_scan c t with
  | identifier hc hword => exact ⟨hc, hword⟩
  | number _ hk => rcases hk with hk | hk <;> cases h.symm.trans hk
  | operator _ hk =>
      rw [h] at hk
      cases hk
  | fault hk | blank _ hk | comment hk | string hk | quoted _ _ hk | keyword _ hk =>
      cases h.symm.trans hk

/-- Every token of a text is the first one of what is left there. -/
theorem exists_firstToken {k : Nat} {t : Text} {x : Token} (h : x ∈ tokensFrom k t) :
    ∃ start c u, x = firstToken start c u := by
  induction t using tokens_induction generalizing k with
  | nil => cases h
  | cons c t ih =>
      rw [tokensFrom_cons, List.mem_cons] at h
      rcases h with rfl | h
      · exact ⟨k, c, t, rfl⟩
      · exact ih h

/-- A run is taken by its length. The scanners say how many characters they take, and this says
which. -/
theorem take_length_takeWhile (p : Char → Bool) (t : Text) :
    t.take (t.takeWhile p).length = t.takeWhile p :=
  (List.prefix_iff_eq_take.1 (List.takeWhile_prefix p)).symm

/-- What follows a run is found by its length, as the scanners hand out lengths and not texts. -/
theorem drop_length_takeWhile (p : Char → Bool) (t : Text) :
    t.drop (t.takeWhile p).length = t.dropWhile p := by
  have hsplit : (t.takeWhile p ++ t.dropWhile p).drop (t.takeWhile p).length = t.dropWhile p :=
    List.drop_left
  rwa [List.takeWhile_append_dropWhile] at hsplit

/-- A word takes all characters that a name may go on with. -/
theorem text_of_word {start : Nat} {c : Char} {u : Text} (h : scan c u = word c u) :
    (firstToken start c u).text = c :: u.takeWhile isNamePart := by
  show c :: u.take (scan c u).extra = _
  rw [h, extra_word, take_length_takeWhile]

/-- A keyword is written as it is spelled, in any letter case. So the text of a keyword token can be
told from its kind. -/
theorem lower_text_of_keyword {t : Text} {x : Token} (h : x ∈ tokens t) {k : Keyword}
    (hk : x.kind = .keyword k) : Text.lower x.text = Text.lower k.spelling.toList := by
  obtain ⟨start, c, u, rfl⟩ := exists_firstToken h
  have hscan : scan c u = word c u := scan_keyword hk
  rw [text_of_word hscan]
  simp only [firstToken, hscan, word] at hk
  split at hk
  · next k' hword =>
    cases hk
    exact Keyword.ofText?_eq_some_iff.1 hword
  · cases hk

end GeneratedKeys
