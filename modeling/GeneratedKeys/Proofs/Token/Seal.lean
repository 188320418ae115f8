import GeneratedKeys.Proofs.Token.Cut

/-!
# `GeneratedKeys.Proofs.Token.Seal`: what ends a token

A blank, a comma or a closing parenthesis behind a text does not go on with its last token, unless
that is a line comment, a fault, or a blank in front of another one. A function that finds lexemes
is `Sealed` by such a character if it finds the same lexeme whatever stands behind it.

* `scan_seal`: the first token of a text stays what it is in front of such a character.
-/

set_option autoImplicit false

namespace GeneratedKeys

namespace Scan

/-- The blanks between tokens, one by one, as the case splits below need them. -/
theorem isSpace_iff {d : Char} :
    isSpace d = true ↔ d = ' ' ∨ d = '\t' ∨ d = '\r' ∨ d = '\n' ∨ d = '\x0c' := by
  simp only [isSpace, Bool.or_eq_true, beq_iff_eq, or_assoc]

/-- The characters that end what stands in front of them: the blanks, and the punctuation of a list
in parentheses. -/
def isSealing (d : Char) : Bool :=
  isSpace d || d == ',' || d == ')'

/-- Every blank ends what stands in front of it. -/
theorem isSealing_of_isSpace {d : Char} (hd : isSpace d = true) : isSealing d = true := by
  rw [isSealing, hd]
  rfl

/-- The sealing characters, one by one: the blanks, the comma and the closing parenthesis. -/
theorem isSealing_iff {d : Char} :
    isSealing d = true ↔
      d = ' ' ∨ d = '\t' ∨ d = '\r' ∨ d = '\n' ∨ d = '\x0c' ∨ d = ',' ∨ d = ')' := by
  simp only [isSealing, Bool.or_eq_true, isSpace_iff, beq_iff_eq, or_assoc]

/-- No name goes on with such a character, so a word in front of it stays what it is. -/
theorem not_isNamePart_of_isSealing {d : Char} (hd : isSealing d = true) :
    isNamePart d = false := by
  rcases isSealing_iff.1 hd with rfl | rfl | rfl | rfl | rfl | rfl | rfl <;> rfl

/-- Nor does a number, and nor does its fraction. -/
theorem not_isDigit_of_isSealing {d : Char} (hd : isSealing d = true) : d.isDigit = false := by
  rcases isSealing_iff.1 hd with rfl | rfl | rfl | rfl | rfl | rfl | rfl <;> rfl

/-- Nor does a literal whose quote is none of them: the character is part of it, and does not end
it. -/
theorem beq_false_of_isSealing {d q : Char} (hd : isSealing d = true) (hq : isSealing q = false) :
    (d == q) = false := by
  rw [beq_eq_false_iff_ne]
  rintro rfl
  rw [hd] at hq
  cases hq

/-- No operator ends in such a character, so one of a single character does not become one of two.
-/
theorem double?_of_isSealing {d : Char} (hd : isSealing d = true) (c : Char) :
    double? c d = none := by
  rcases isSealing_iff.1 hd with rfl | rfl | rfl | rfl | rfl | rfl | rfl <;> simp [double?]

/-! ### Runs and tests in front of such a character -/

/-- A run stays as it is if the character behind does not go on with it. That needs to be known only
for a run that reaches the end. -/
theorem takeWhile_seal {p : Char → Bool} {t : Text} {d : Char} {b : Text}
    (h : (t.takeWhile p).length = t.length → p d = false) :
    (t ++ d :: b).takeWhile p = t.takeWhile p := by
  rw [List.takeWhile_append]
  split
  · next hall =>
    rw [List.takeWhile_cons_of_neg (by simp [h hall]), List.append_nil]
    exact ((List.takeWhile_prefix p).eq_of_length hall).symm
  · rfl

/-- What follows a run gets the character at its end, behind everything that the scan goes on with.
-/
theorem dropWhile_seal {p : Char → Bool} {t : Text} {d : Char} {b : Text} (h : p d = false) :
    (t ++ d :: b).dropWhile p = t.dropWhile p ++ d :: b := by
  refine dropWhile_cut ?_
  rw [takeWhile_seal fun _ => h]
  exact (List.takeWhile_prefix p).length_le

/-- A test that the character fails is answered as before, also where nothing stood behind. -/
theorem nextIs_seal {p : Char → Bool} {t : Text} {d : Char} {b : Text} (h : p d = false) :
    nextIs p (t ++ d :: b) = nextIs p t := by
  cases t with
  | nil => exact h
  | cons c t => rfl

/-- A fraction starts as before: the digit that decides is in the text already, or the character is
none. -/
theorem startsFraction_seal {t : Text} {d : Char} {b : Text} (hd : isSealing d = true) :
    startsFraction (t ++ d :: b) = startsFraction t := by
  cases t with
  | nil =>
      rw [List.nil_append, startsFraction_cons, beq_false_of_isSealing hd rfl]
      rfl
  | cons c t =>
      rw [List.cons_append, startsFraction_cons, startsFraction_cons,
        nextIs_seal (not_isDigit_of_isSealing hd)]

/-- A number starts as before, since neither a digit nor a fraction is added. -/
theorem startsNumber_seal {t : Text} {d : Char} {b : Text} (hd : isSealing d = true) :
    startsNumber (t ++ d :: b) = startsNumber t := by
  rw [startsNumber, startsNumber, nextIs_seal (not_isDigit_of_isSealing hd),
    startsFraction_seal hd]

/-! ### Sealed functions -/

/-- A function finds the same lexeme in front of `d`, unless it finds a fault. A fault may well be
cured by what stands behind it. -/
def Sealed (d : Char) (f : Text → Lexeme) : Prop :=
  ∀ t b : Text, (f t).kind.fault? = none → f (t ++ d :: b) = f t

variable {d : Char}

/-- A choice that the character does not change takes the same side with it and without it. -/
theorem Sealed.ite {g : Text → Bool} {f h : Text → Lexeme} (hf : Sealed d f) (hh : Sealed d h)
    (hg : ∀ t b : Text, g (t ++ d :: b) = g t) :
    Sealed d fun t => if g t = true then f t else h t := by
  intro t b hfault
  simp only [hg t b] at hfault ⊢
  split at hfault
  · next hyes => rw [if_pos hyes, if_pos hyes, hf t b hfault]
  · next hno => rw [if_neg hno, if_neg hno, hh t b hfault]

/-- A block comment that is closed stays closed at the same place. -/
theorem blockLength?_append {t : Text} {n : Nat} (h : blockLength? t = some n) (r : Text) :
    blockLength? (t ++ r) = some n := by
  induction t using blockLength?.induct generalizing n with
  | case1 | case2 => simp [blockLength?] at h
  | case3 c d t hc =>
      rw [blockLength?, if_pos hc] at h
      rw [List.cons_append, List.cons_append, blockLength?, if_pos hc, h]
  | case4 c d t hc ih =>
      rw [blockLength?, if_neg hc] at h
      obtain ⟨m, hm, rfl⟩ := Option.map_eq_some_iff.1 h
      have hrest := ih hm
      rw [List.cons_append] at hrest
      rw [List.cons_append, List.cons_append, blockLength?, if_neg hc, hrest]
      rfl

/-- A block comment stays what it is, since it is closed: what follows its mark is not looked at. -/
theorem sealed_blockComment : Sealed d blockComment := by
  intro t b hfault
  cases hb : blockLength? (t.drop 1) with
  | none =>
      simp only [blockComment, hb] at hfault
      cases hfault
  | some n =>
      cases t with
      | nil => simp [blockLength?] at hb
      | cons c t =>
          have happend := blockLength?_append hb (d :: b)
          simp only [List.drop_succ_cons, List.drop_zero] at hb happend
          simp only [blockComment, List.cons_append, List.drop_succ_cons, List.drop_zero, hb,
            happend]

/-- A fraction keeps its length, as its digits do not go on with the character. -/
theorem fractionLength?_seal {t b : Text} (hd : isSealing d = true) :
    fractionLength? (t ++ d :: b) = fractionLength? t := by
  rw [fractionLength?, fractionLength?, startsFraction_seal hd]
  split
  · next hf =>
    cases t with
    | nil => cases hf
    | cons c t =>
        simp only [List.cons_append, List.drop_succ_cons, List.drop_zero]
        rw [takeWhile_seal fun _ => not_isDigit_of_isSealing hd]
  · rfl

/-- A number stays the same, its kind as well as its length. -/
theorem number_seal {sign : Bool} {t b : Text} (hd : isSealing d = true) :
    number sign (t ++ d :: b) = number sign t := by
  simp only [number]
  rw [takeWhile_seal fun _ => not_isDigit_of_isSealing hd,
    dropWhile_seal (not_isDigit_of_isSealing hd), fractionLength?_seal hd]

/-- The inside of a literal stays, because its closing quote is there and is not doubled by what
comes. -/
theorem inside?_seal {q : Char} {t s b : Text} (h : inside? q t = some s)
    (hq : (d == q) = false) : inside? q (t ++ d :: b) = some s := by
  obtain ⟨hdouble, rest, rfl, hnext⟩ := inside?_eq_some h
  refine inside?_eq_some_iff.2 ⟨hdouble, rest ++ d :: b, by simp, ?_⟩
  rw [nextIs_seal (p := (· == q)) hq, hnext]

/-- A delimited literal stays what it is if it is closed. The character is no quote, so it neither
closes nor doubles one. -/
theorem sealed_delimited (hd : isSealing d = true) {q : Char} (hq : isSealing q = false)
    (kind : Text → TokenKind) (fault : LexicalFault) : Sealed d (delimited q kind fault) := by
  intro t b hfault
  cases hs : inside? q t with
  | none => simp [delimited, hs, TokenKind.fault?] at hfault
  | some s => rw [delimited, delimited, hs, inside?_seal hs (beq_false_of_isSealing hd hq)]

/-- A binary string stays what it is, as a quote closes it and decides about its digits. -/
theorem sealed_binaryString (hd : isSealing d = true) : Sealed d binaryString := by
  intro t b hfault
  cases hs : inside? '\x27' (t.drop 1) with
  | none =>
      simp only [binaryString, hs] at hfault
      cases hfault
  | some s =>
      cases t with
      | nil => simp [inside?] at hs
      | cons c t =>
          simp only [List.drop_succ_cons, List.drop_zero] at hs
          have hbody := inside?_seal (b := b) hs (beq_false_of_isSealing hd rfl)
          simp only [binaryString, List.cons_append, List.drop_succ_cons, List.drop_zero, hs,
            hbody]

/-- An alternative string that is closed stays closed at the same place. -/
theorem before?_append {close : Char} {t s : Text} (h : before? close t = some s) (r : Text) :
    before? close (t ++ r) = some s := by
  induction t using before?.induct close generalizing s with
  | case1 | case2 => simp [before?] at h
  | case3 c e t hc =>
      rw [before?, if_pos hc] at h
      rw [List.cons_append, List.cons_append, before?, if_pos hc, h]
  | case4 c e t hc ih =>
      rw [before?, if_neg hc] at h
      obtain ⟨s', hs', rfl⟩ := Option.map_eq_some_iff.1 h
      have hrest := ih hs'
      rw [List.cons_append] at hrest
      rw [List.cons_append, List.cons_append, before?, if_neg hc, hrest]
      rfl

/-- An alternative string stays what it is. It ends with its own quote, and nothing behind that is
looked at. -/
theorem sealed_alternativeString : Sealed d alternativeString := by
  intro t b hfault
  match t with
  | [] | [_] => simp [alternativeString, TokenKind.fault?] at hfault
  | c :: o :: t =>
      simp only [alternativeString, List.cons_append, List.drop_succ_cons, List.drop_zero]
        at hfault ⊢
      cases hs : before? (partner o) t with
      | none => simp [hs, TokenKind.fault?] at hfault
      | some s => simp only [before?_append hs]

/-- A word stays what it is, because no name goes on with the character. -/
theorem sealed_word (hd : isSealing d = true) (c : Char) : Sealed d (word c) := by
  intro t b _
  simp only [word]
  rw [takeWhile_seal fun _ => not_isNamePart_of_isSealing hd]

/-- An operator stays what it is, because no longer one ends in the character. -/
theorem sealed_operator (hd : isSealing d = true) (c : Char) : Sealed d (operator c) := by
  intro t b _
  cases t with
  | nil => simp [operator, double?_of_isSealing hd]
  | cons e t => rfl

/-! ### The scanner -/

/-- The tokens that begin with neither a blank nor a line comment. -/
theorem sealed_scan (hd : isSealing d = true) {c : Char} (hc : isSpace c = false) {t : Text}
    (ht : (c == '-' && nextIs (· == '-') t) = false) (b : Text)
    (hfault : (scan c t).kind.fault? = none) : scan c (t ++ d :: b) = scan c t := by
  -- No quote or mark that is looked for is such a character.
  have hbeq : ∀ q : Char, isSealing q = false → ∀ t b : Text,
      nextIs (· == q) (t ++ d :: b) = nextIs (· == q) t :=
    fun q hq t b => nextIs_seal (beq_false_of_isSealing hd hq)
  have hword : Sealed d fun t => if isNameStart c = true then word c t else operator c t :=
    (sealed_word hd c).ite (sealed_operator hd c) fun _ _ => rfl
  have hquoted : Sealed d fun t =>
      if (c.toLower == 'q' && nextIs (· == '\x27') t) = true then alternativeString t
      else if (c.toLower == 'x' && nextIs (· == '\x27') t) = true then binaryString t
      else if (c == ':' && !nextIs isNamePart t) = true then operator c t
      else if isNameStart c = true then word c t else operator c t := by
    refine sealed_alternativeString.ite ((sealed_binaryString hd).ite
      ((sealed_operator hd c).ite hword ?_) ?_) ?_
    · intro t b
      rw [nextIs_seal (not_isNamePart_of_isSealing hd)]
    · intro t b
      rw [hbeq _ rfl]
    · intro t b
      rw [hbeq _ rfl]
  have hrest : Sealed d fun t =>
      if (c == '/' && nextIs (· == '*') t) = true then blockComment t
      else if (c == '-' && startsNumber t) = true then number true t
      else if (c.isDigit || startsFraction (c :: t)) = true then unsignedNumber c t
      else if (c == '\x27') = true then string t
      else if (c == '"') = true then quotedIdentifier t
      else if (c.toLower == 'q' && nextIs (· == '\x27') t) = true then alternativeString t
      else if (c.toLower == 'x' && nextIs (· == '\x27') t) = true then binaryString t
      else if (c == ':' && !nextIs isNamePart t) = true then operator c t
      else if isNameStart c = true then word c t else operator c t := by
    have hstring : Sealed d string := sealed_delimited hd rfl _ _
    have hidentifier : Sealed d quotedIdentifier := sealed_delimited hd rfl _ _
    refine sealed_blockComment.ite (Sealed.ite (fun _ _ _ => number_seal hd) (Sealed.ite ?_
      (hstring.ite (hidentifier.ite hquoted fun _ _ => rfl) fun _ _ => rfl) ?_) ?_) ?_
    · intro t b _
      rw [unsignedNumber, unsignedNumber, ← List.cons_append, number_seal hd]
    · intro t b
      rw [← List.cons_append, startsFraction_seal hd]
    · intro t b
      rw [startsNumber_seal hd]
    · intro t b
      rw [hbeq _ rfl]
  -- Neither a run of blanks nor a line comment begins here, before or after.
  have hblank : ¬ isSpace c = true := by simp [hc]
  have hcomment : (c == '-' && nextIs (· == '-') (t ++ d :: b)) = false := by
    rw [hbeq _ rfl, ht]
  have hscan : ∀ u : Text, (c == '-' && nextIs (· == '-') u) = false → scan c u = _ :=
    fun u hu => by rw [scan, if_neg hblank, if_neg (by simp [hu])]
  rw [hscan t ht] at hfault ⊢
  rw [hscan _ hcomment]
  exact hrest t b hfault

end Scan

open Scan

/-- The first token of a text stays what it is in front of a blank, a comma or a closing
parenthesis. A run of blanks goes on with a blank, and a line comment with anything but the end of
the line; they stay if something else stands behind them already. -/
theorem scan_seal {c d : Char} {t : Text} (hd : isSealing d = true) (b : Text)
    (hfault : (scan c t).kind.fault? = none)
    (hopen : (scan c t).extra = t.length → isSpace c = false ∧
      ((c == '-' && nextIs (· == '-') t) = true → isLineEnd d = true)) :
    scan c (t ++ d :: b) = scan c t := by
  by_cases hc : isSpace c = true
  · have hscan : ∀ u : Text, scan c u = ⟨.whitespace, (u.takeWhile isSpace).length⟩ :=
      fun u => by rw [scan, if_pos hc]
    -- A run of blanks that takes all of `t` is excluded, so it ends within `t`.
    rw [hscan, hscan, takeWhile_seal]
    intro hall
    rw [hscan] at hopen
    exact absurd hc (by simp [(hopen hall).1])
  · rw [Bool.not_eq_true] at hc
    by_cases ht : (c == '-' && nextIs (· == '-') t) = true
    · have hdash : (c == '-' && nextIs (· == '-') (t ++ d :: b)) = true := by
        rw [nextIs_seal (p := (· == '-')) (beq_false_of_isSealing hd rfl), ht]
      have hscan : ∀ u : Text, (c == '-' && nextIs (· == '-') u) = true →
          scan c u = lineComment u :=
        fun u hu => by rw [scan, if_neg (by simp [hc]), if_pos hu]
      rw [hscan t ht] at hopen
      rw [hscan t ht, hscan _ hdash]
      cases t with
      | nil => simp [nextIs] at ht
      | cons e t =>
          simp only [lineComment, List.cons_append, List.drop_succ_cons, List.drop_zero,
            List.length_cons] at hopen ⊢
          -- The comment ends within `t`, or the character ends the line.
          rw [takeWhile_seal]
          intro hall
          rw [(hopen (by omega)).2 ht]
          rfl
    · rw [Bool.not_eq_true] at ht
      exact sealed_scan hd hc ht b hfault

end GeneratedKeys
