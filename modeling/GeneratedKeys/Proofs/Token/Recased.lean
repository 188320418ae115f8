import GeneratedKeys.Proofs.Text.Caseless
import GeneratedKeys.Proofs.Token.Boundary
import GeneratedKeys.Proofs.Token.Seal
import Mathlib.Data.List.Forall2

/-!
# `GeneratedKeys.Proofs.Token.Recased`: words in other letter case

A text is `Recased` by writing its keywords and unquoted names in other letter case. Everything
else stays: what is quoted, and the one letter that opens a literal, may well depend on it. The
tokens of such a text are those of the first one but for the case of their names.

The scanner never sees the case of a letter where it looks for the kind of a token and for its end,
but for the mark that ends an alternative string. This mark stands inside the token, and there
nothing is written in another way.

* `scan_recased`: the first token of a text whose words are written in other case.
* `lowered_tokens_recased`: all its tokens.
-/

set_option autoImplicit false

namespace GeneratedKeys

/-! ### Small forms -/

/-- The kind with the name of an identifier in its small form. Keywords need no change, as their
kind does not depend on the case of letters, and quoted names keep theirs. -/
def TokenKind.lowered : TokenKind → TokenKind
  | .identifier name => .identifier (Text.lower name)
  | kind => kind

/-- Whether the kind is that of a keyword or of an unquoted name. These are the tokens whose letters
may be written in the other case. -/
def TokenKind.isWord : TokenKind → Bool
  | .keyword _ | .identifier _ => true
  | _ => false

/-- The token with its name and its text in their small forms. Two tokens with the same form of this
kind differ at most in the case of letters. -/
def Token.lowered (x : Token) : Token :=
  ⟨x.kind.lowered, Text.lower x.text, x.start⟩

/-- The lexeme with its name in its small form. The number of characters stays the same. -/
def Lexeme.lowered (x : Lexeme) : Lexeme :=
  ⟨x.kind.lowered, x.extra⟩

/-- A token keeps its end, because letters keep their size. Spans are therefore the same in both
texts. -/
theorem Token.stop_lowered (x : Token) : x.lowered.stop = x.stop := by
  rw [stop, stop, lowered, Text.size_lower]

/-- The token written as it is or, if it is a word, in other letter case. -/
def Token.Respelled (x : Token) (s : Text) : Prop :=
  s = x.text ∨ (x.kind.isWord = true ∧ Text.lower s = Text.lower x.text)

instance (x : Token) (s : Text) : Decidable (x.Respelled s) :=
  inferInstanceAs (Decidable (s = x.text ∨ _))

/-- The text `u` is `t` with its words written in other letter case. Only words are touched:
strings, quoted names and comments are the same in both. -/
def Text.Recased (t u : Text) : Prop :=
  ∃ texts, List.Forall₂ Token.Respelled (tokens t) texts ∧ u = texts.flatten

/-- However a token is respelled, its small form stays, as only the case of letters may change. -/
theorem Token.Respelled.lower_eq {x : Token} {s : Text} (h : x.Respelled s) :
    Text.lower s = Text.lower x.text := by
  rcases h with rfl | ⟨-, h⟩
  · rfl
  · exact h

/-- Texts that differ in the case of letters only, joined, differ in nothing else either. -/
theorem lower_flatten {xs : List Token} {texts : List Text}
    (h : List.Forall₂ Token.Respelled xs texts) :
    Text.lower texts.flatten = Text.lower (xs.flatMap Token.text) := by
  induction h with
  | nil => rfl
  | cons hx _ ih =>
      rw [List.flatten_cons, List.flatMap_cons, Text.lower_append, Text.lower_append, ih,
        hx.lower_eq]

namespace Scan

/-! ### Classes of characters and tests -/

/-- Blanks are no letters, so a run of them ends in the same place. -/
theorem caseless_isSpace : Caseless isSpace := caseless_of_map_eq (by decide)

/-- Nor are the ends of lines, so a line comment ends in the same place. -/
theorem caseless_isLineEnd : Caseless isLineEnd := caseless_of_map_eq (by decide)

/-- Nor are digits. The digits of binary strings are another matter, as some of them are letters. -/
theorem caseless_isDigit : Caseless Char.isDigit := caseless_of_map_eq (by decide)

/-- A name may go on with a letter in either case. -/
theorem caseless_isNamePart : Caseless isNamePart := caseless_of_map_eq (by decide)

/-- And it may start with a letter in either case. -/
theorem caseless_isNameStart : Caseless isNameStart := caseless_of_map_eq (by decide)

/-- A character that is no letter is neither a capital nor the small form of one. -/
theorem ne_of_mem_capitals {q c : Char} (hq : q ∉ capitals ∧ q ∉ capitals.map Char.toLower)
    (hc : c ∈ capitals) : c ≠ q ∧ c.toLower ≠ q :=
  ⟨ne_of_mem_of_not_mem hc hq.1, ne_of_mem_of_not_mem (List.mem_map_of_mem hc) hq.2⟩

/-- No character but a letter has another case, so a test for one such character does not see case.
-/
theorem caseless_beq {q : Char} (hq : q ∉ capitals ∧ q ∉ capitals.map Char.toLower) :
    Caseless (· == q) := by
  refine caseless_of_capitals fun c hc => ?_
  obtain ⟨hne, hne'⟩ := ne_of_mem_capitals hq hc
  rw [beq_false_of_ne hne, beq_false_of_ne hne']

/-- A character that is no letter is the small form of itself only. -/
theorem toLower_eq_iff {q : Char} (hq : q ∉ capitals ∧ q ∉ capitals.map Char.toLower) {c : Char} :
    c.toLower = q ↔ c = q := by
  have hbeq := Bool.eq_iff_iff.1 (caseless_beq hq c)
  rwa [beq_iff_eq, beq_iff_eq] at hbeq

/-- An operator of two characters ends in a character that is no letter. -/
theorem caseless_double? (c : Char) : Caseless (double? c) := by
  refine caseless_of_capitals fun d hd => ?_
  obtain ⟨hbar, hbar'⟩ := ne_of_mem_capitals (q := '|') (by decide) hd
  obtain ⟨heq, heq'⟩ := ne_of_mem_capitals (q := '=') (by decide) hd
  obtain ⟨hgt, hgt'⟩ := ne_of_mem_capitals (q := '>') (by decide) hd
  simp [double?, hbar, heq, hgt, hbar', heq', hgt']

/-- A test that does not see letter case gives the same answer in the small form. -/
theorem nextIs_lower {p : Char → Bool} (hp : Caseless p) (t : Text) :
    nextIs p (Text.lower t) = nextIs p t := by
  cases t with
  | nil => rfl
  | cons c t => exact hp c

/-- A fraction starts in the small form exactly if one starts in the text. -/
theorem startsFraction_lower (t : Text) : startsFraction (Text.lower t) = startsFraction t := by
  cases t with
  | nil => rfl
  | cons c t =>
      rw [Text.lower_cons, startsFraction_cons, startsFraction_cons,
        nextIs_lower caseless_isDigit]
      exact congrArg (· && _) (caseless_beq (q := '.') (by decide) c)

/-- The same holds for a number, with or without whole digits in front of its fraction. -/
theorem startsNumber_lower (t : Text) : startsNumber (Text.lower t) = startsNumber t := by
  rw [startsNumber, startsNumber, nextIs_lower caseless_isDigit, startsFraction_lower]

/-! ### Lexemes that are found in the small form as well -/

/-- A line comment ends in the same place, and carries no value that could differ. -/
theorem lineComment_lower (t : Text) : lineComment (Text.lower t) = lineComment t := by
  have hp : Caseless fun c => !isLineEnd c := fun c => congrArg _ (caseless_isLineEnd c)
  rw [lineComment, lineComment, ← Text.lower_drop, hp.length_takeWhile_lower]

/-- A block comment is closed in the same place, as its marks are no letters. -/
theorem blockLength?_lower (t : Text) : blockLength? (Text.lower t) = blockLength? t := by
  have hmark : ∀ c d : Char, (c.toLower = '*' ∧ d.toLower = '/') ↔ (c = '*' ∧ d = '/') := by
    intro c d
    rw [toLower_eq_iff (by decide), toLower_eq_iff (by decide)]
  induction t using blockLength?.induct with
  | case1 | case2 => rfl
  | case3 c d t hc =>
      rw [Text.lower_cons, Text.lower_cons, blockLength?, blockLength?, if_pos ((hmark c d).2 hc),
        if_pos hc]
  | case4 c d t hc ih =>
      rw [Text.lower_cons] at ih
      rw [Text.lower_cons, Text.lower_cons, blockLength?, blockLength?,
        if_neg (mt (hmark c d).1 hc), if_neg hc, ih]

/-- So a block comment is the same lexeme, closed or not. -/
theorem blockComment_lower (t : Text) : blockComment (Text.lower t) = blockComment t := by
  rw [blockComment, blockComment, ← Text.lower_drop, blockLength?_lower, Text.length_lower]

/-- A fraction has the same length, as its digits and its point have no other case. -/
theorem fractionLength?_lower (t : Text) :
    fractionLength? (Text.lower t) = fractionLength? t := by
  rw [fractionLength?, fractionLength?, startsFraction_lower, ← Text.lower_drop,
    caseless_isDigit.length_takeWhile_lower]

/-- A number is the same lexeme, since its kind tells the sign and not the digits. -/
theorem number_lower (sign : Bool) (t : Text) : number sign (Text.lower t) = number sign t := by
  simp only [number]
  rw [caseless_isDigit.length_takeWhile_lower, caseless_isDigit.dropWhile_lower,
    fractionLength?_lower]

/-- The same holds for a number without a sign, whose first character is a digit or a point. -/
theorem unsignedNumber_lower (c : Char) (t : Text) :
    unsignedNumber c.toLower (Text.lower t) = unsignedNumber c t := by
  rw [unsignedNumber, unsignedNumber, ← Text.lower_cons, number_lower]

/-- An operator is the same lexeme. Its characters are no letters, so a letter begins none in either
case. -/
theorem operator_lower (c : Char) (t : Text) : operator c (Text.lower t) = operator c t := by
  cases t with
  | nil => rfl
  | cons d t =>
      have hdouble := caseless_double? c d
      simp only [operator, Text.lower_cons, List.head?_cons, Option.bind_some, hdouble]

/-- A word is a keyword or a name in its small form as well. -/
theorem word_lower (c : Char) (t : Text) :
    (word c.toLower (Text.lower t)).lowered = (word c t).lowered := by
  have hword : Keyword.ofText? (c.toLower :: (Text.lower t).takeWhile isNamePart)
      = Keyword.ofText? (c :: t.takeWhile isNamePart) := by
    refine Keyword.ofText?_congr ?_
    rw [caseless_isNamePart.takeWhile_lower, ← Text.lower_cons, Text.lower_lower]
  simp only [word, hword]
  rw [caseless_isNamePart.takeWhile_lower, ← Text.lower_cons, Text.length_lower]
  cases Keyword.ofText? (c :: t.takeWhile isNamePart) with
  | some k => rfl
  | none =>
      simp only [Lexeme.lowered, TokenKind.lowered, Text.lower_lower]

/-! ### Lexemes that keep what they are made of -/

/-- The lexeme depends on the small form of the text and on its own characters. Literals are of this
kind: what they hold is kept as written. -/
def Settled (f : Text → Lexeme) : Prop :=
  ∀ t u : Text, Text.lower u = Text.lower t → u.take (f t).extra = t.take (f t).extra → f u = f t

/-- A text whose first part is the same has a rest that differs in case only. -/
theorem exists_rest {w rest u : Text} (hlower : Text.lower u = Text.lower (w ++ rest))
    (htake : u.take w.length = w) :
    ∃ rest', u = w ++ rest' ∧ Text.lower rest' = Text.lower rest := by
  obtain ⟨rest', rfl⟩ := List.prefix_iff_eq_take.2 htake.symm
  rw [Text.lower_append, Text.lower_append] at hlower
  exact ⟨rest', rfl, List.append_cancel_left hlower⟩

/-- A fault that takes all of the text leaves no other case of it. -/
theorem eq_of_take_length {t u : Text} (hlower : Text.lower u = Text.lower t)
    (htake : u.take t.length = t.take t.length) : u = t := by
  rwa [← Text.length_eq_of_lower_eq hlower, List.take_length,
    Text.length_eq_of_lower_eq hlower, List.take_length] at htake

/-- The inside of a literal, if what is behind its closing quote differs in case only. -/
theorem inside?_recased {q : Char} (hq : Caseless (· == q)) {t s u : Text}
    (h : inside? q t = some s) (hlower : Text.lower u = Text.lower t)
    (htake : u.take (s.length + 1) = t.take (s.length + 1)) : inside? q u = some s := by
  obtain ⟨hdouble, rest, rfl, hnext⟩ := inside?_eq_some h
  have hfirst : (s ++ q :: rest).take (s.length + 1) = s ++ [q] := by
    rw [List.append_cons]
    exact List.take_left' (List.length_append ..)
  rw [List.append_cons] at hlower
  obtain ⟨rest', rfl, hrest⟩ := exists_rest (w := s ++ [q]) hlower (by
    rw [List.length_append, List.length_singleton, htake, hfirst])
  refine inside?_eq_some_iff.2 ⟨hdouble, rest', by simp, ?_⟩
  rw [← nextIs_lower hq, hrest, nextIs_lower hq, hnext]

/-- A delimited literal is settled: its inside is among its characters, and behind its closing quote
only the next character counts. -/
theorem settled_delimited {q : Char} (hq : Caseless (· == q)) (kind : Text → TokenKind)
    (fault : LexicalFault) : Settled (delimited q kind fault) := by
  intro t u hlower htake
  cases hs : inside? q t with
  | none =>
      simp only [delimited, hs] at htake
      rw [eq_of_take_length hlower htake]
  | some s =>
      simp only [delimited, hs] at htake ⊢
      rw [inside?_recased hq hs hlower htake]

/-- A binary string is settled in the same way: with the same characters it has the same digits, or
the same fault. -/
theorem settled_binaryString : Settled binaryString := by
  intro t u hlower htake
  cases hs : inside? '\x27' (t.drop 1) with
  | none =>
      simp only [binaryString, hs] at htake
      rw [eq_of_take_length hlower htake]
  | some s =>
      have hextra : (binaryString t).extra = s.length + 2 := by
        simp only [binaryString, hs]
        split <;> rfl
      rw [hextra] at htake
      -- The digits stand behind the quote.
      have hbody : inside? '\x27' (u.drop 1) = some s := by
        refine inside?_recased (caseless_beq (by decide)) hs ?_ ?_
        · rw [Text.lower_drop, hlower, ← Text.lower_drop]
        · rw [List.take_drop, List.take_drop, Nat.add_comm 1, htake]
      simp only [binaryString, hs, hbody]

/-- An alternative string is settled: both its marks are among its characters. -/
theorem settled_alternativeString : Settled alternativeString := by
  intro t u hlower htake
  match t with
  | [] | [_] =>
      rw [eq_of_take_length hlower htake]
  | c :: o :: body =>
      cases hs : before? (partner o) body with
      | none =>
          simp only [alternativeString, List.drop_succ_cons, List.drop_zero, hs] at htake
          rw [eq_of_take_length hlower htake]
      | some s =>
          simp only [alternativeString, List.drop_succ_cons, List.drop_zero, hs] at htake ⊢
          obtain ⟨rest, rfl⟩ := before?_eq_some hs
          -- The literal is all that stands up to its closing marks.
          have hsplit : c :: o :: (s ++ partner o :: '\x27' :: rest)
              = (c :: o :: (s ++ [partner o, '\x27'])) ++ rest := by simp
          have hlength : (c :: o :: (s ++ [partner o, '\x27'])).length = s.length + 4 := by simp
          rw [hsplit] at hlower htake
          obtain ⟨rest', rfl, -⟩ := exists_rest hlower (by
            rw [hlength, htake]
            exact List.take_left' hlength)
          have hinner : before? (partner o) (s ++ [partner o, '\x27']) = some s := by
            refine before?_cut (r := rest) ?_ (by simp)
            simpa using hs
          have hbody := before?_append hinner rest'
          simp only [List.cons_append, List.drop_succ_cons, List.drop_zero, hbody]

/-! ### The scanner -/

section

variable {c c' : Char} {t u : Text}

/-- The lexeme `y` found in `c' :: u` is the one `x` found in `c :: t`, provided that its characters
are the same or it is a word. -/
def Fits (c c' : Char) (t u : Text) (x y : Lexeme) : Prop :=
  x.kind.isWord = true ∨ (c' = c ∧ u.take x.extra = t.take x.extra) → y.lowered = x.lowered

/-- A choice by a test that both texts answer alike takes the same side in both. -/
theorem Fits.ite {p q : Bool} {x x' y y' : Lexeme} (hpq : q = p) (hx : Fits c c' t u x x')
    (hy : Fits c c' t u y y') :
    Fits c c' t u (if p = true then x else y) (if q = true then x' else y') := by
  subst hpq
  cases q with
  | false => exact hy
  | true => exact hx

/-- What is found in the small form as well is found in both. -/
theorem fits_of_lower {f : Text → Lexeme} (hf : ∀ t, f (Text.lower t) = f t)
    (hlower : Text.lower u = Text.lower t) : Fits c c' t u (f t) (f u) := by
  intro _
  rw [← hf u, hlower, hf t]

/-- A settled lexeme that is no word is the same in both texts, since its characters are the same.
-/
theorem fits_of_settled {f : Text → Lexeme} (hf : Settled f) (hlower : Text.lower u = Text.lower t)
    (hkind : (f t).kind.isWord = false) : Fits c c' t u (f t) (f u) := by
  rintro (hword | ⟨-, htake⟩)
  · rw [hkind] at hword
    cases hword
  · rw [hf t u hlower htake]

/-- Neither a string nor a fault is a word, so their characters may not change. -/
theorem isWord_of_string {kind : TokenKind} (h : (∃ s, kind = .string s) ∨
    ∃ fault, kind = .error fault) : kind.isWord = false := by
  rcases h with ⟨s, rfl⟩ | ⟨fault, rfl⟩ <;> rfl

/-- A quoted identifier is no word: its letters are kept as written. -/
theorem isWord_quotedIdentifier (t : Text) : (quotedIdentifier t).kind.isWord = false := by
  rcases kind_quotedIdentifier t with ⟨s, h⟩ | ⟨fault, h⟩ <;> rw [h] <;> rfl

/-- An operator is no word, so it is written alike in both texts. -/
theorem isWord_operator (c : Char) (t : Text) : (operator c t).kind.isWord = false := by
  rcases isOperator_operator c t with h | h
  · generalize (operator c t).kind = kind at h
    cases kind <;> first | rfl | cases h
  · rw [h]
    rfl

/-- An operator is found in both texts. It consists of characters without another case, and a
character that fits no rule is quoted as it is. -/
theorem fits_operator (hlower : Text.lower u = Text.lower t) :
    Fits c c' t u (operator c t) (operator c' u) := by
  rintro (hword | ⟨rfl, -⟩)
  · rw [isWord_operator] at hword
    cases hword
  · rw [← operator_lower c' u, hlower, operator_lower]

end

end Scan

open Scan

/-- The first token of a text whose words are written in other letter case. The two lexemes take as
many characters, and their kinds fit together. -/
theorem scan_recased {c c' : Char} {t u : Text}
    (hlower : Text.lower (c' :: u) = Text.lower (c :: t)) :
    Fits c c' t u (scan c t) (scan c' u) := by
  rw [Text.lower_cons, Text.lower_cons, List.cons.injEq] at hlower
  obtain ⟨hc, ht⟩ := hlower
  -- No test that the scanner makes sees the case of a letter.
  have hbeq : ∀ q : Char, q ∉ capitals ∧ q ∉ capitals.map Char.toLower → (c' == q) = (c == q) :=
    fun q hq => (caseless_beq hq).congr hc
  have hnext : ∀ {p : Char → Bool}, Caseless p → nextIs p u = nextIs p t := by
    intro p hp
    rw [← nextIs_lower hp, ht, nextIs_lower hp]
  have hquote : nextIs (· == '\x27') u = nextIs (· == '\x27') t := hnext (caseless_beq (by decide))
  have hnumber : startsNumber u = startsNumber t := by
    rw [← startsNumber_lower, ht, startsNumber_lower]
  have hfraction : startsFraction (c' :: u) = startsFraction (c :: t) := by
    rw [startsFraction_cons, startsFraction_cons, hbeq '.' (by decide), hnext caseless_isDigit]
  rw [scan, scan]
  refine Fits.ite (caseless_isSpace.congr hc) ?_ ?_
  · intro _
    rw [← caseless_isSpace.length_takeWhile_lower u, ht, caseless_isSpace.length_takeWhile_lower]
  refine Fits.ite ?_ (fits_of_lower lineComment_lower ht) ?_
  · rw [hbeq '-' (by decide), hnext (caseless_beq (by decide))]
  refine Fits.ite ?_ (fits_of_lower blockComment_lower ht) ?_
  · rw [hbeq '/' (by decide), hnext (caseless_beq (by decide))]
  refine Fits.ite ?_ (fits_of_lower (number_lower true) ht) ?_
  · rw [hbeq '-' (by decide), hnumber]
  refine Fits.ite ?_ ?_ ?_
  · rw [caseless_isDigit.congr hc, hfraction]
  · intro _
    rw [← unsignedNumber_lower c' u, hc, ht, unsignedNumber_lower]
  refine Fits.ite (hbeq _ (by decide)) (fits_of_settled
    (settled_delimited (caseless_beq (by decide)) _ _) ht (isWord_of_string (kind_string t))) ?_
  refine Fits.ite (hbeq _ (by decide)) (fits_of_settled
    (settled_delimited (caseless_beq (by decide)) _ _) ht (isWord_quotedIdentifier t)) ?_
  refine Fits.ite ?_ (fits_of_settled settled_alternativeString ht
    (isWord_of_string (kind_alternativeString t))) ?_
  · rw [hc, hquote]
  refine Fits.ite ?_ (fits_of_settled settled_binaryString ht
    (isWord_of_string (kind_binaryString t))) ?_
  · rw [hc, hquote]
  refine Fits.ite ?_ (fits_operator ht) ?_
  · rw [hbeq ':' (by decide), hnext caseless_isNamePart]
  refine Fits.ite (caseless_isNameStart.congr hc) ?_ (fits_operator ht)
  intro _
  rw [← word_lower c' u, hc, ht, word_lower]

/-! ### The tokens -/

/-- The first token of a text and the one that is written in its place, with what follows. -/
theorem lowered_firstToken_recased (k : Nat) {c : Char} {t s r : Text}
    (hs : (firstToken k c t).Respelled s)
    (hr : Text.lower r = Text.lower (t.drop (scan c t).extra)) :
    ∃ c' u, s ++ r = c' :: u ∧ (firstToken k c' u).lowered = (firstToken k c t).lowered ∧
      u.drop (scan c' u).extra = r := by
  have hextra := scan_extra_le c t
  have hlower : Text.lower s = Text.lower (c :: t.take (scan c t).extra) := hs.lower_eq
  cases s with
  | nil => cases hlower
  | cons c' w =>
      have hlength : w.length = (scan c t).extra := by
        have := Text.length_eq_of_lower_eq hlower
        simp only [List.length_cons, List.length_take] at this
        omega
      have hall : Text.lower (c' :: (w ++ r)) = Text.lower (c :: t) := by
        rw [← List.cons_append, Text.lower_append, hlower, hr, ← Text.lower_append,
          List.cons_append, List.take_append_drop]
      -- The token is a word, or its characters are the same.
      have hscan : (scan c' (w ++ r)).lowered = (scan c t).lowered := by
        refine scan_recased hall ?_
        rcases hs with hsame | ⟨hword, -⟩
        · obtain ⟨rfl, rfl⟩ := List.cons.inj hsame
          exact .inr ⟨rfl, List.take_left' hlength⟩
        · exact .inl hword
      obtain ⟨hkind, hsame⟩ : (scan c' (w ++ r)).kind.lowered = (scan c t).kind.lowered ∧
          (scan c' (w ++ r)).extra = (scan c t).extra := Lexeme.mk.inj hscan
      refine ⟨c', w ++ r, rfl, ?_, ?_⟩
      · rw [Token.lowered, Token.lowered, firstToken, firstToken, hsame,
          List.take_left' hlength, hlower, hkind]
      · rw [hsame]
        exact List.drop_left' hlength

/-- The tokens of a text whose words are written in other letter case. -/
theorem lowered_tokensFrom_recased (k : Nat) {t : Text} {texts : List Text}
    (h : List.Forall₂ Token.Respelled (tokensFrom k t) texts) :
    (tokensFrom k texts.flatten).map Token.lowered = (tokensFrom k t).map Token.lowered := by
  induction t using tokens_induction generalizing k texts with
  | nil =>
      cases h
      rfl
  | cons c t ih =>
      rw [tokensFrom_cons] at h
      cases h with
      | @cons _ s _ texts hfirst hrest =>
          have hr := lower_flatten hrest
          rw [flatMap_text_tokensFrom] at hr
          obtain ⟨c', u, hsplit, htoken, hdrop⟩ := lowered_firstToken_recased k hfirst hr
          -- What follows begins at the same byte.
          have hstop : (firstToken k c' u).stop = (firstToken k c t).stop := by
            rw [← Token.stop_lowered, htoken, Token.stop_lowered]
          rw [List.flatten_cons, hsplit, tokensFrom_cons, tokensFrom_cons, List.map_cons,
            List.map_cons, htoken, hstop, hdrop, ih _ hrest]

/-- A text whose words are written in other letter case, and all its tokens. In their small forms
the texts and the tokens are the same. -/
theorem lowered_tokens_recased {t u : Text} (h : Text.Recased t u) :
    Text.lower u = Text.lower t ∧
      (tokens u).map Token.lowered = (tokens t).map Token.lowered := by
  obtain ⟨texts, htexts, rfl⟩ := h
  have hlower := lower_flatten htexts
  rw [flatMap_text_tokens] at hlower
  exact ⟨hlower, lowered_tokensFrom_recased 0 htexts⟩

end GeneratedKeys
