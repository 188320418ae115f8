import GeneratedKeys.Token.Scan

/-!
# `GeneratedKeys.Proofs.Token.Cut`: a token does not depend on what is behind it

The first token of a text is found from its own characters. So a text may be cut off
anywhere behind its first token, and the first token stays what it was. A function that
finds lexemes in this way is `Local`; the scanner is put together from local ones.

* `scan_cut`: cutting a text behind its first token keeps the token.

The converse fails: what is put behind a text may well go on with its last token. When it
does not is the subject of `GeneratedKeys.Proofs.Token.Seal`.
-/

set_option autoImplicit false

namespace GeneratedKeys

namespace Scan

/-! ### Runs of characters -/

/-- A run that ends within the first part is a run of the first part. -/
theorem takeWhile_cut {p : Char → Bool} {t r : Text}
    (h : ((t ++ r).takeWhile p).length ≤ t.length) : t.takeWhile p = (t ++ r).takeWhile p := by
  rw [List.takeWhile_append] at h ⊢
  split
  · next hall =>
    rw [if_pos hall, List.length_append] at h
    have hnil : r.takeWhile p = [] := List.length_eq_zero_iff.1 (by omega)
    rw [hnil, List.append_nil]
    exact (List.takeWhile_prefix p).eq_of_length hall
  · rfl

/-- What follows such a run keeps the second part, so a scan that goes on behind the run sees the
same characters. -/
theorem dropWhile_cut {p : Char → Bool} {t r : Text}
    (h : ((t ++ r).takeWhile p).length ≤ t.length) :
    (t ++ r).dropWhile p = t.dropWhile p ++ r := by
  have hsplit : (t ++ r).takeWhile p ++ (t ++ r).dropWhile p
      = t.takeWhile p ++ (t.dropWhile p ++ r) := by
    rw [List.takeWhile_append_dropWhile, ← List.append_assoc, List.takeWhile_append_dropWhile]
  rw [← takeWhile_cut h] at hsplit
  exact List.append_cancel_left hsplit

/-- The second split of a text goes on where the first one was cut. -/
theorem append_cut {t r u v : Text} (h : t ++ r = u ++ v) (hle : u.length ≤ t.length) :
    ∃ w, t = u ++ w ∧ v = w ++ r := by
  have hprefix : u <+: t :=
    List.prefix_of_prefix_length_le (h ▸ List.prefix_append u v) (List.prefix_append t r) hle
  obtain ⟨w, rfl⟩ := hprefix
  rw [List.append_assoc] at h
  exact ⟨w, rfl, (List.append_cancel_left h).symm⟩

/-- A test that the next character passes is passed whatever stands behind the text. -/
theorem nextIs_append {p : Char → Bool} {t : Text} (h : nextIs p t = true) (r : Text) :
    nextIs p (t ++ r) = true := by
  cases t with
  | nil => cases h
  | cons c t => exact h

/-- Behind a character the next one is there already, so a test for it does not see the cut. -/
theorem nextIs_cut {p : Char → Bool} {t r : Text} (ht : 0 < t.length) :
    nextIs p (t ++ r) = nextIs p t := by
  cases t with
  | nil => cases ht
  | cons c t => rfl

/-! ### Local functions -/

/-- A function finds a lexeme from the characters of the lexeme. So the text may be cut off anywhere
behind the lexeme, and the lexeme is found all the same. -/
def Local (f : Text → Lexeme) : Prop :=
  ∀ t r : Text, (f (t ++ r)).extra ≤ t.length → f t = f (t ++ r)

/-- A choice is local if each way the choice is known from the characters of the lexeme. -/
theorem Local.ite {g : Text → Bool} {f h : Text → Lexeme} (hf : Local f) (hh : Local h)
    (yes : ∀ t r : Text, g (t ++ r) = true → (f (t ++ r)).extra ≤ t.length → g t = true)
    (no : ∀ t r : Text, g (t ++ r) = false → (h (t ++ r)).extra ≤ t.length → g t = false) :
    Local fun t => if g t = true then f t else h t := by
  intro t r hext
  by_cases hg : g (t ++ r) = true
  · simp only [if_pos hg] at hext ⊢
    rw [if_pos (yes t r hg hext), hf t r hext]
  · rw [Bool.not_eq_true] at hg
    simp only [hg, Bool.false_eq_true, if_false] at hext ⊢
    rw [no t r hg hext, hh t r hext]
    rfl

/-- A choice that the whole text settles as its first part does. -/
theorem Local.ite_of_append {g : Text → Bool} {f h : Text → Lexeme} (hf : Local f) (hh : Local h)
    (yes : ∀ t r : Text, g (t ++ r) = true → (f (t ++ r)).extra ≤ t.length → g t = true)
    (mono : ∀ t r : Text, g t = true → g (t ++ r) = true) :
    Local fun t => if g t = true then f t else h t := by
  refine hf.ite hh yes ?_
  intro t r hg _
  rw [Bool.eq_false_iff] at hg ⊢
  exact fun h => hg (mono t r h)

/-- A run of characters behind the first one is found from its own characters: cut anywhere behind
the run, it is the same. -/
theorem local_takeWhile (p : Char → Bool) (kind : TokenKind) :
    Local fun t => ⟨kind, (t.takeWhile p).length⟩ := by
  intro t r h
  simp only at h ⊢
  rw [takeWhile_cut h]

/-- A line comment ends in front of a line end. Without its end in the first part, it would reach
beyond it. -/
theorem local_lineComment : Local lineComment := by
  intro t r h
  cases t with
  | nil => simp [lineComment] at h
  | cons c t =>
      simp only [lineComment, List.cons_append, List.drop_succ_cons, List.drop_zero,
        List.length_cons] at h ⊢
      rw [takeWhile_cut (r := r) (by omega)]

/-! ### Pieces with an end of their own -/

/-- The two characters of the closing mark belong to a block comment. -/
theorem two_le_blockLength {t : Text} {n : Nat} (h : blockLength? t = some n) : 2 ≤ n := by
  induction t using blockLength?.induct generalizing n with
  | case1 | case2 => simp [blockLength?] at h
  | case3 c d t hc =>
      rw [blockLength?, if_pos hc] at h
      exact Nat.le_of_eq (Option.some.inj h)
  | case4 c d t hc ih =>
      rw [blockLength?, if_neg hc] at h
      obtain ⟨m, hm, rfl⟩ := Option.map_eq_some_iff.1 h
      exact Nat.le_succ_of_le (ih hm)

/-- The closing mark of a block comment is found in a first part that contains it. The induction
follows the search for the mark. -/
theorem blockLength?_cut {t r : Text} {n : Nat} (h : blockLength? (t ++ r) = some n)
    (hn : n ≤ t.length) : blockLength? t = some n := by
  have htwo := two_le_blockLength h
  induction t using blockLength?.induct generalizing n with
  -- A text this short has no room for the mark.
  | case1 | case2 =>
      simp only [List.length_cons, List.length_nil] at hn
      omega
  | case3 c d t hc =>
      rw [List.cons_append, List.cons_append, blockLength?, if_pos hc] at h
      rw [blockLength?, if_pos hc, h]
  | case4 c d t hc ih =>
      rw [List.cons_append, List.cons_append, blockLength?, if_neg hc] at h
      obtain ⟨m, hm, rfl⟩ := Option.map_eq_some_iff.1 h
      rw [List.length_cons] at hn
      rw [blockLength?, if_neg hc, ih hm (by omega) (two_le_blockLength hm)]
      rfl

/-- A block comment is found from its own characters, its closing mark included. -/
theorem local_blockComment : Local blockComment := by
  intro t r h
  -- With nothing before the cut the fault takes all of `r`, so `r` is empty.
  cases t with
  | nil =>
      cases hb : blockLength? (r.drop 1) with
      | none =>
          simp only [blockComment, List.nil_append, hb, List.length_nil, Nat.le_zero] at h
          rw [List.length_eq_zero_iff.1 h, List.append_nil]
      | some n =>
          simp only [blockComment, List.nil_append, hb, List.length_nil] at h
          omega
  | cons c t =>
      simp only [blockComment, List.cons_append, List.drop_succ_cons, List.drop_zero] at h ⊢
      cases hb : blockLength? (t ++ r) with
      | none =>
          simp only [hb, List.length_cons, List.length_append] at h
          have hr : r = [] := List.length_eq_zero_iff.1 (by omega)
          rw [hr, List.append_nil] at hb ⊢
          rw [hb]
      | some n =>
          simp only [hb, List.length_cons] at h
          rw [blockLength?_cut hb (by omega)]

/-- A test that the next character of the whole text fails is failed by the first part, also if that
is empty. -/
theorem nextIs_of_append {p : Char → Bool} {t r : Text} (h : nextIs p (t ++ r) = false) :
    nextIs p t = false := by
  rw [Bool.eq_false_iff] at h ⊢
  exact fun ht => h (nextIs_append ht r)

/-- The inside of a delimited literal, if its closing quote stands in the first part. -/
theorem inside?_cut {q : Char} {t r s : Text} (h : inside? q (t ++ r) = some s)
    (hs : s.length + 1 ≤ t.length) : inside? q t = some s := by
  obtain ⟨hdouble, rest, hsplit, hnext⟩ := inside?_eq_some h
  rw [List.append_cons] at hsplit
  -- The closing quote stands in front of the cut, so the cut is in what is behind it.
  obtain ⟨w, rfl, rfl⟩ := append_cut hsplit (by simpa using hs)
  exact inside?_eq_some_iff.2 ⟨hdouble, w, by simp, nextIs_of_append hnext⟩

/-- What stands inside a delimited literal is shorter than the text, by the closing quote at least.
-/
theorem inside?_length {q : Char} {t s : Text} (h : inside? q t = some s) :
    s.length + 1 ≤ t.length := by
  obtain ⟨-, rest, rfl, -⟩ := inside?_eq_some h
  simp

/-- The inside of an alternative string, if its closing marks stand in the first part. -/
theorem before?_cut {close : Char} {t r s : Text} (h : before? close (t ++ r) = some s)
    (hs : s.length + 2 ≤ t.length) : before? close t = some s := by
  induction t using before?.induct close generalizing s with
  -- A text this short has no room for both closing marks.
  | case1 | case2 =>
      simp only [List.length_cons, List.length_nil] at hs
      omega
  | case3 c d t hc =>
      rw [List.cons_append, List.cons_append, before?, if_pos hc] at h
      rw [before?, if_pos hc, h]
  | case4 c d t hc ih =>
      rw [List.cons_append, List.cons_append, before?, if_neg hc] at h
      obtain ⟨s', hs', rfl⟩ := Option.map_eq_some_iff.1 h
      simp only [List.length_cons] at hs
      rw [before?, if_neg hc, ih hs' (by simpa using hs)]
      rfl

/-- Nothing can be cut off behind a fault that takes the whole text. -/
theorem eq_nil_of_length_le {t r : Text} (h : (t ++ r).length ≤ t.length) : r = [] := by
  rw [List.length_append] at h
  exact List.length_eq_zero_iff.1 (by omega)

/-- A literal behind its opening quote `q`, up to the closing one. Strings and quoted
identifiers are such literals. -/
def delimited (q : Char) (kind : Text → TokenKind) (fault : LexicalFault) (t : Text) : Lexeme :=
  match inside? q t with
  | some s => ⟨kind s, s.length + 1⟩
  | none => ⟨.error fault, t.length⟩

/-- A delimited literal is found from its own characters: the first quote that is not doubled ends
it. A literal that is cut off takes the whole text, so nothing is behind it. -/
theorem local_delimited (q : Char) (kind : Text → TokenKind) (fault : LexicalFault) :
    Local (delimited q kind fault) := by
  intro t r h
  cases hs : inside? q (t ++ r) with
  | some s =>
      simp only [delimited, hs] at h ⊢
      rw [inside?_cut hs h]
  | none =>
      simp only [delimited, hs] at h
      rw [eq_nil_of_length_le h, List.append_nil]

/-- A binary string is found in the same way, and its digits are among its characters. -/
theorem local_binaryString : Local binaryString := by
  intro t r h
  -- The first character is the quote, and the digits stand behind it.
  have hbody : ∀ s, inside? '\x27' ((t ++ r).drop 1) = some s → s.length + 2 ≤ t.length →
      inside? '\x27' (t.drop 1) = some s := by
    intro s hs hlen
    cases t with
    | nil => simp at hlen
    | cons c t => exact inside?_cut hs (by simpa using hlen)
  cases hs : inside? '\x27' ((t ++ r).drop 1) with
  | some s =>
      simp only [binaryString, hs] at h ⊢
      split at h <;> rw [hbody s hs h]
  | none =>
      simp only [binaryString, hs] at h
      rw [eq_nil_of_length_le h, List.append_nil]

/-- An alternative string is found from its opening character to its closing marks. -/
theorem local_alternativeString : Local alternativeString := by
  intro t r h
  cases hbody : (t ++ r).drop 1 with
  | nil =>
      simp only [alternativeString, hbody] at h
      rw [eq_nil_of_length_le h, List.append_nil]
  | cons o body =>
      cases hs : before? (partner o) body with
      | none =>
          simp only [alternativeString, hbody, hs] at h
          rw [eq_nil_of_length_le h, List.append_nil]
      | some s =>
          simp only [alternativeString, hbody, hs] at h
          -- The quote, the opening character and the closing marks all stand in `t`.
          match t, h with
          | c :: o' :: t, h =>
              obtain ⟨rfl, rfl⟩ : o' = o ∧ t ++ r = body := by simpa using hbody
              simp only [List.length_cons] at h
              simp only [alternativeString, List.cons_append, List.drop_succ_cons,
                List.drop_zero, before?_cut hs (by omega), hs]

/-! ### Numbers, words and operators -/

/-- A fraction starts with a point, and its next character is a digit. -/
theorem startsFraction_cons {c : Char} {t : Text} :
    startsFraction (c :: t) = (c == '.' && nextIs Char.isDigit t) := by
  by_cases hc : c = '.'
  · subst hc
    rfl
  · rw [beq_false_of_ne hc, startsFraction]
    · rfl
    · rintro u ⟨⟩
      exact hc rfl

/-- What starts like a fraction does so whatever stands behind, since its point and its first digit
are there. -/
theorem startsFraction_append {t : Text} (h : startsFraction t = true) (r : Text) :
    startsFraction (t ++ r) = true := by
  cases t with
  | nil => cases h
  | cons c t =>
      rw [startsFraction_cons, Bool.and_eq_true] at h
      rw [List.cons_append, startsFraction_cons, h.1, nextIs_append h.2]
      rfl

/-- A fraction has a point and at least one digit, so cutting behind its point does not cut behind
it. -/
theorem two_le_fractionLength {t : Text} {n : Nat} (h : fractionLength? t = some n) : 2 ≤ n := by
  rw [fractionLength?] at h
  split at h
  · next hf =>
    cases h
    cases t with
    | nil => cases hf
    | cons c t =>
        rw [startsFraction_cons, Bool.and_eq_true] at hf
        cases t with
        | nil => cases hf.2
        | cons d t =>
            -- The digit behind the point makes the run not empty.
            have hd : d.isDigit = true := hf.2
            simp only [List.drop_succ_cons, List.drop_zero, List.takeWhile_cons_of_pos hd,
              List.length_cons]
            omega
  · cases h

/-- A fraction within the first part is one of the first part. -/
theorem fractionLength?_cut {t r : Text} {n : Nat} (h : fractionLength? (t ++ r) = some n)
    (hn : n ≤ t.length) : fractionLength? t = some n := by
  have htwo := two_le_fractionLength h
  -- A fraction in front of the cut has its point and first digit there.
  match t, hn with
  | [], hn | [_], hn =>
      simp only [List.length_cons, List.length_nil] at hn
      omega
  | c :: d :: t, hn =>
      rw [fractionLength?] at h ⊢
      simp only [List.cons_append, startsFraction_cons, List.drop_succ_cons, List.drop_zero]
        at h ⊢
      have hsame : nextIs Char.isDigit (d :: (t ++ r)) = nextIs Char.isDigit (d :: t) := rfl
      rw [hsame] at h
      split at h
      · next hf =>
        cases h
        rw [if_pos hf, takeWhile_cut (t := d :: t) (r := r)]
        · rfl
        · simp only [List.length_cons, List.cons_append] at hn ⊢
          omega
      · cases h

/-- A fraction of the first part may go on behind it, but it stays one. -/
theorem fractionLength?_append {t : Text} {n : Nat} (h : fractionLength? t = some n) (r : Text) :
    (fractionLength? (t ++ r)).isSome = true := by
  rw [fractionLength?] at h ⊢
  split at h
  · next hf =>
    rw [if_pos (startsFraction_append hf r)]
    rfl
  · cases h

/-- A number is found from its own characters. Its digits and its fraction are runs, and runs are
local. -/
theorem local_number (sign : Bool) : Local (number sign) := by
  intro t r h
  have hwhole : ((t ++ r).takeWhile Char.isDigit).length ≤ t.length := by
    refine Nat.le_trans ?_ h
    rw [number]
    split <;> simp
  -- The digits in front of the point are the same, and so is what is left behind them.
  have hdrop := dropWhile_cut hwhole
  have hsum : (t.takeWhile Char.isDigit).length + (t.dropWhile Char.isDigit).length = t.length := by
    rw [← List.length_append, List.takeWhile_append_dropWhile]
  simp only [number, ← takeWhile_cut hwhole, hdrop] at h ⊢
  cases hf : fractionLength? (t.dropWhile Char.isDigit ++ r) with
  | some n =>
      simp only [hf] at h
      rw [fractionLength?_cut hf (by omega)]
  | none =>
      cases hf' : fractionLength? (t.dropWhile Char.isDigit) with
      | none => rfl
      | some n =>
          have := fractionLength?_append hf' r
          rw [hf] at this
          cases this

/-- A number has a character exactly if it starts like one. The scanner asks first, so it never
scans an empty one. -/
theorem number_extra_pos (sign : Bool) {t : Text} :
    0 < (number sign t).extra ↔ startsNumber t = true := by
  cases t with
  | nil => simp [number, startsNumber, nextIs, startsFraction, fractionLength?]
  | cons c t =>
      by_cases hc : c.isDigit = true
      -- With a digit in front the run of digits has a character, and the number starts.
      · have hstart : startsNumber (c :: t) = true := by simp [startsNumber, nextIs, hc]
        simp only [hstart, iff_true, number, List.takeWhile_cons_of_pos hc, List.length_cons]
        split
        · show 0 < (t.takeWhile Char.isDigit).length + 1 + _
          omega
        · exact Nat.succ_pos _
      -- Without one there is a fraction or nothing at all.
      · have hstart : startsNumber (c :: t) = startsFraction (c :: t) := by
          simp [startsNumber, nextIs, hc]
        simp only [hstart, number, List.takeWhile_cons_of_neg hc, List.dropWhile_cons_of_neg hc]
        cases hf : fractionLength? (c :: t) with
        | some n =>
            have htwo := two_le_fractionLength hf
            rw [fractionLength?] at hf
            split at hf
            · next hs =>
              simp only [hs, iff_true, List.length_nil]
              omega
            · cases hf
        | none =>
            rw [fractionLength?] at hf
            split at hf
            · cases hf
            · next hs => simp [hs]

/-- What starts like a number does so whatever stands behind, with whole digits or with a fraction.
-/
theorem startsNumber_append {t : Text} (h : startsNumber t = true) (r : Text) :
    startsNumber (t ++ r) = true := by
  rw [startsNumber, Bool.or_eq_true] at h ⊢
  rcases h with h | h
  · exact Or.inl (nextIs_append h r)
  · exact Or.inr (startsFraction_append h r)

/-- The same for a number without a sign, whose first character is given. -/
theorem local_unsignedNumber (c : Char) : Local (unsignedNumber c) := by
  intro t r h
  have hnumber : (number false (c :: t ++ r)).extra ≤ (c :: t).length := by
    rw [List.length_cons]
    exact Nat.sub_le_iff_le_add.1 h
  rw [unsignedNumber, unsignedNumber, local_number false (c :: t) r hnumber]
  rfl

/-- A word is a run of characters behind its first one, and what it spells is seen from these. -/
theorem local_word (c : Char) : Local (word c) := by
  intro t r h
  have hrest : ((t ++ r).takeWhile isNamePart).length ≤ t.length := by
    rwa [extra_word] at h
  simp only [word, takeWhile_cut hrest]

/-- An operator is found from its first character and, if it has two, from the second one. -/
theorem local_operator (c : Char) : Local (operator c) := by
  intro t r h
  match t, r with
  | d :: t, r => rfl
  | [], [] => rfl
  | [], d :: r =>
      cases hd : double? c d with
      | some kind => simp [operator, hd] at h
      | none => simp [operator, hd]

/-! ### The scanner -/

/-- A choice by the next character, if the lexeme takes that character. -/
theorem Local.ite_nextIs {b : Bool} {p : Char → Bool} {f h : Text → Lexeme} (hf : Local f)
    (hh : Local h) (hpos : ∀ u : Text, u ≠ [] → 0 < (f u).extra) :
    Local fun t => if (b && nextIs p t) = true then f t else h t := by
  refine hf.ite_of_append hh ?_ ?_
  · intro t r hg hext
    rw [Bool.and_eq_true] at hg ⊢
    have hne : t ++ r ≠ [] := by
      intro hnil
      rw [hnil] at hg
      cases hg.2
    -- The lexeme has a character in front of the cut, so the next one is there.
    have hlen := Nat.lt_of_lt_of_le (hpos _ hne) hext
    exact ⟨hg.1, (nextIs_cut hlen).symm.trans hg.2⟩
  · intro t r hg
    rw [Bool.and_eq_true] at hg ⊢
    exact ⟨hg.1, nextIs_append hg.2 r⟩

/-- A line comment takes its second dash, so cutting behind the first one does not cut behind the
comment. -/
theorem lineComment_extra_pos (t : Text) : 0 < (lineComment t).extra := by
  simp only [lineComment]
  omega

/-- A block comment takes its star, whether it is closed or not. -/
theorem blockComment_extra_pos {t : Text} (ht : t ≠ []) : 0 < (blockComment t).extra := by
  rw [blockComment]
  split
  · exact Nat.lt_add_right _ Nat.one_pos
  · exact List.length_pos_iff.2 ht

/-- An alternative string takes its quote, also if it is not closed. -/
theorem alternativeString_extra_pos {t : Text} (ht : t ≠ []) :
    0 < (alternativeString t).extra := by
  rw [alternativeString]
  split
  · exact List.length_pos_iff.2 ht
  · split
    · exact Nat.succ_pos _
    · exact List.length_pos_iff.2 ht

/-- A binary string takes its quote, whether its digits are right or not. -/
theorem binaryString_extra_pos {t : Text} (ht : t ≠ []) : 0 < (binaryString t).extra := by
  rw [binaryString]
  split
  · split <;> exact Nat.succ_pos _
  · exact List.length_pos_iff.2 ht

/-- A word behind a colon takes the next character if that goes on with a name. -/
theorem word_extra_pos {c : Char} {t : Text} (ht : nextIs isNamePart t = true) :
    0 < (word c t).extra := by
  rw [extra_word]
  cases t with
  | nil => cases ht
  | cons d t =>
      rw [List.takeWhile_cons_of_pos (show isNamePart d = true from ht)]
      exact Nat.succ_pos _

/-- A token is found from its own characters. This is the locality lemma of each scanner, put
together over the branches of `scan`. -/
theorem local_scan (c : Char) : Local (scan c) := by
  -- A colon is an operator, or begins a name if the next character goes on with one.
  have hcolon : Local fun t => if (c == ':' && !nextIs isNamePart t) = true then operator c t
      else if isNameStart c = true then word c t else operator c t := by
    have hname : Local fun t => if isNameStart c = true then word c t else operator c t :=
      (local_word c).ite_of_append (local_operator c) (fun _ _ h _ => h) (fun _ _ h => h)
    refine (local_operator c).ite hname ?_ ?_
    · intro t r hg _
      simp only [Bool.and_eq_true, Bool.not_eq_true'] at hg ⊢
      exact ⟨hg.1, nextIs_of_append hg.2⟩
    · intro t r hg hext
      by_cases hc : c = ':'
      · subst hc
        have hnext : nextIs isNamePart (t ++ r) = true := by simpa using hg
        have hpos := word_extra_pos (c := ':') hnext
        rw [if_pos (show isNameStart ':' = true from rfl)] at hext
        rw [nextIs_cut (by omega)] at hnext
        simp [hnext]
      · simp [hc]
  -- What may begin behind the signs and comments, without a number in front.
  have hstring : Local string := local_delimited _ _ _
  have hquoted : Local quotedIdentifier := local_delimited _ _ _
  have hunsigned : Local fun t =>
      if (c.isDigit || startsFraction (c :: t)) = true then unsignedNumber c t
      else if (c == '\x27') = true then string t
      else if (c == '"') = true then quotedIdentifier t
      else if (c.toLower == 'q' && nextIs (· == '\x27') t) = true then alternativeString t
      else if (c.toLower == 'x' && nextIs (· == '\x27') t) = true then binaryString t
      else if (c == ':' && !nextIs isNamePart t) = true then operator c t
      else if isNameStart c = true then word c t else operator c t := by
    refine (local_unsignedNumber c).ite_of_append ?_ ?_ ?_
    · refine hstring.ite_of_append ?_ (fun _ _ h _ => h) (fun _ _ h => h)
      refine hquoted.ite_of_append ?_ (fun _ _ h _ => h) (fun _ _ h => h)
      refine local_alternativeString.ite_nextIs ?_ fun _ => alternativeString_extra_pos
      exact local_binaryString.ite_nextIs hcolon fun _ => binaryString_extra_pos
    · intro t r hg hext
      have hnumber : (number false (c :: t ++ r)).extra ≤ (c :: t).length := by
        rw [List.length_cons]
        exact Nat.sub_le_iff_le_add.1 hext
      have hstart : startsNumber (c :: t ++ r) = true := by
        rw [startsNumber, Bool.or_eq_true]
        rw [Bool.or_eq_true] at hg
        exact hg
      -- A number has a character, and the characters in front of the cut begin one too.
      have hpos := (number_extra_pos false).2 hstart
      rw [← local_number false (c :: t) r hnumber, number_extra_pos, startsNumber] at hpos
      exact hpos
    · intro t r hg
      rw [Bool.or_eq_true] at hg ⊢
      rcases hg with hg | hg
      · exact Or.inl hg
      · exact Or.inr (startsFraction_append hg r)
  show Local fun t => scan c t
  unfold scan
  refine (local_takeWhile isSpace .whitespace).ite_of_append ?_ (fun _ _ h _ => h)
    (fun _ _ h => h)
  refine local_lineComment.ite_nextIs ?_ fun t _ => lineComment_extra_pos t
  refine local_blockComment.ite_nextIs ?_ fun _ => blockComment_extra_pos
  refine (local_number true).ite_of_append hunsigned ?_ ?_
  · intro t r hg hext
    rw [Bool.and_eq_true] at hg ⊢
    have hpos := (number_extra_pos true).2 hg.2
    rw [← local_number true t r hext, number_extra_pos] at hpos
    exact ⟨hg.1, hpos⟩
  · intro t r hg
    rw [Bool.and_eq_true] at hg ⊢
    exact ⟨hg.1, startsNumber_append hg.2 r⟩

end Scan

/-- Cutting a text behind its first token keeps the token. Scanners look further than what they
take, but only to see that it does not go on. -/
theorem scan_cut {c : Char} {t r : Text} (h : (scan c (t ++ r)).extra ≤ t.length) :
    scan c t = scan c (t ++ r) :=
  Scan.local_scan c t r h

end GeneratedKeys
