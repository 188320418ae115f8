import GeneratedKeys.Proofs.Token.Bounds
import GeneratedKeys.Proofs.Token.Scanned
import GeneratedKeys.Text.Blank

/-!
# `GeneratedKeys.Proofs.Token.LastChar`: how tokens end

A statement is trimmed of blanks and of a semicolon as a text. What that takes away is
known from the last character of the last token: no token but a blank, a line comment or a
fault ends in a blank, and only the semicolon ends in one.

* `solid_scan`: the last character of such a token.
-/

set_option autoImplicit false

namespace GeneratedKeys

/-- A token of the kind may end in the character: it is no blank, and it is a semicolon only
as that token. -/
def Solid (kind : TokenKind) (l : Char) : Prop :=
  isBlank l = false ∧ (l = ';' ↔ kind = .semicolon)

namespace Scan

/-! ### Characters that are no blanks -/

/-- The characters between the blank and the last ASCII character, except for the semicolon. Any
token but a semicolon may end in one of them, by `solid_of_isPrinted`. -/
def isPrinted (c : Char) : Bool :=
  0x20 < c.toNat && c.toNat < 0x7F && c != ';'

/-- The test as bounds on the code point, which is what the arithmetic below uses. -/
theorem isPrinted_iff {c : Char} :
    isPrinted c = true ↔ 0x20 < c.toNat ∧ c.toNat < 0x7F ∧ c ≠ ';' := by
  simp only [isPrinted, Bool.and_eq_true, decide_eq_true_eq, bne_iff_ne, and_assoc]

/-- A printed character is no blank, not one of the blanks beyond ASCII either. -/
theorem isBlank_of_isPrinted {c : Char} (h : isPrinted c = true) : isBlank c = false := by
  obtain ⟨low, high, -⟩ := isPrinted_iff.1 h
  simp only [isBlank, Bool.or_eq_false_iff, Bool.and_eq_false_iff, decide_eq_false_iff_not,
    beq_eq_false_iff_ne]
  omega

/-- Any token but a semicolon may end in a printed character, as such a character is neither a blank
nor a semicolon. -/
theorem solid_of_isPrinted {kind : TokenKind} {l : Char} (hl : isPrinted l = true)
    (hkind : kind ≠ .semicolon) : Solid kind l :=
  ⟨isBlank_of_isPrinted hl, fun h => absurd h (isPrinted_iff.1 hl).2.2, fun h => absurd h hkind⟩

/-- A character is printed if its code point is in range and is not that of the semicolon. -/
theorem isPrinted_of_toNat {c : Char} (low : 0x20 < c.toNat) (high : c.toNat < 0x7F)
    (hc : c.toNat ≠ 0x3B) : isPrinted c = true := by
  have hne : c ≠ ';' := by
    rintro rfl
    exact hc rfl
  exact isPrinted_iff.2 ⟨low, high, hne⟩

/-- Digits are printed. -/
theorem isPrinted_of_isDigit {c : Char} (h : c.isDigit = true) : isPrinted c = true := by
  simp only [Char.isDigit, Bool.and_eq_true, decide_eq_true_eq] at h
  have h : 0x30 ≤ c.toNat ∧ c.toNat ≤ 0x39 := h
  exact isPrinted_of_toNat (by omega) (by omega) (by omega)

/-- Letters are printed. -/
theorem isPrinted_of_isAlpha {c : Char} (h : c.isAlpha = true) : isPrinted c = true := by
  have h : (decide (c.val ≥ 65 ∧ c.val ≤ 90)
      || decide (c.val ≥ 97) && decide (c.val ≤ 122)) = true := h
  simp only [Bool.or_eq_true, Bool.and_eq_true, decide_eq_true_eq] at h
  have h : (0x41 ≤ c.toNat ∧ c.toNat ≤ 0x5A) ∨ (0x61 ≤ c.toNat ∧ c.toNat ≤ 0x7A) := h
  exact isPrinted_of_toNat (by omega) (by omega) (by omega)

/-- So is every character that a name may go on with. -/
theorem isPrinted_of_isNamePart {c : Char} (h : isNamePart c = true) : isPrinted c = true := by
  simp only [isNamePart, Bool.or_eq_true, beq_iff_eq] at h
  rcases h with (((((h | h) | rfl) | rfl) | rfl) | rfl) | rfl
  · exact isPrinted_of_isAlpha h
  · exact isPrinted_of_isDigit h
  all_goals rfl

/-- And every character that a name may start with. -/
theorem isPrinted_of_isNameStart {c : Char} (h : isNameStart c = true) : isPrinted c = true := by
  simp only [isNameStart, Bool.or_eq_true, beq_iff_eq] at h
  rcases h with ((h | rfl) | rfl) | rfl
  · exact isPrinted_of_isAlpha h
  all_goals rfl

/-! ### The last character of a lexeme -/

/-- The lexeme that begins `c :: t` ends in a character that its kind may end in. -/
def EndsSolid (c : Char) (t : Text) (x : Lexeme) : Prop :=
  ∃ l, (c :: t.take x.extra).getLast? = some l ∧ Solid x.kind l

/-- It is enough that all characters of the lexeme are printed. For most tokens that is easier to
say than which is the last. -/
theorem endsSolid_of_forall {c : Char} {t : Text} {x : Lexeme}
    (h : ∀ l ∈ c :: t.take x.extra, isPrinted l = true) (hkind : x.kind ≠ .semicolon) :
    EndsSolid c t x := by
  have hlast := List.getLast?_eq_some_getLast (List.cons_ne_nil c (t.take x.extra))
  exact ⟨_, hlast, solid_of_isPrinted (h _ (List.getLast_mem _)) hkind⟩

/-- It is enough to know the last character of the lexeme, as for literals that end in their quote.
-/
theorem endsSolid_of_take {c l : Char} {t u : Text} {x : Lexeme}
    (ht : t.take x.extra = u ++ [l]) (hl : Solid x.kind l) : EndsSolid c t x := by
  refine ⟨l, ?_, hl⟩
  rw [ht, ← List.cons_append, List.getLast?_concat]

/-- A run consists of characters that pass its test. -/
theorem mem_take_takeWhile {p : Char → Bool} {t : Text} {l : Char}
    (h : l ∈ t.take (t.takeWhile p).length) : p l = true := by
  rw [take_length_takeWhile] at h
  exact List.all_eq_true.1 List.all_takeWhile l h

/-- A block comment that is closed ends in a slash, which is neither a blank nor a semicolon. -/
theorem take_blockLength {t : Text} {n : Nat} (h : blockLength? t = some n) :
    ∃ u, t.take n = u ++ ['/'] := by
  induction t using blockLength?.induct generalizing n with
  | case1 | case2 => simp [blockLength?] at h
  | case3 c d t hc =>
      rw [blockLength?, if_pos hc] at h
      cases h
      exact ⟨[c], by rw [hc.2]; rfl⟩
  | case4 c d t hc ih =>
      rw [blockLength?, if_neg hc] at h
      obtain ⟨m, hm, rfl⟩ := Option.map_eq_some_iff.1 h
      obtain ⟨u, hu⟩ := ih hm
      exact ⟨c :: u, by rw [List.take_succ_cons, hu]; rfl⟩

/-- A block comment ends in the slash of its closing mark, so whatever stands inside does no harm.
-/
theorem endsSolid_blockComment {c : Char} {t : Text} (ht : nextIs (· == '*') t = true)
    (hfault : (blockComment t).kind.fault? = none) : EndsSolid c t (blockComment t) := by
  cases t with
  | nil => cases ht
  | cons d t =>
      cases hb : blockLength? t with
      | none =>
          simp only [blockComment, List.drop_succ_cons, List.drop_zero, hb] at hfault
          cases hfault
      | some n =>
          -- The comment is closed: it goes up to the slash of its mark.
          obtain ⟨u, hu⟩ := take_blockLength hb
          have hx : blockComment (d :: t) = ⟨.comment, 1 + n⟩ := by
            simp only [blockComment, List.drop_succ_cons, List.drop_zero, hb]
          rw [hx]
          refine endsSolid_of_take (l := '/') (u := d :: u) ?_ ?_
          · show (d :: t).take (1 + n) = _
            rw [Nat.add_comm, List.take_succ_cons, hu]
            rfl
          · exact solid_of_isPrinted rfl (by simp)

/-- A fraction consists of digits and its point, which is its first character. -/
theorem mem_fraction {t : Text} {n : Nat} {l : Char} (h : fractionLength? t = some n)
    (hl : l ∈ t.take n) : l.isDigit = true ∨ l = '.' := by
  rw [fractionLength?] at h
  split at h
  · next hf =>
    cases h
    cases t with
    | nil => cases hf
    | cons c t =>
        rw [startsFraction_cons, Bool.and_eq_true, beq_iff_eq] at hf
        rw [List.drop_succ_cons, List.drop_zero, Nat.add_comm, List.take_succ_cons,
          List.mem_cons] at hl
        -- The first character is the point, and the others are a run of digits.
        rcases hl with rfl | hl
        · exact Or.inr hf.1
        · exact Or.inl (mem_take_takeWhile hl)
  · cases h

/-- A number consists of digits and a point. The sign in front of it is not among the characters
that are scanned here. -/
theorem mem_number (sign : Bool) {t : Text} {l : Char}
    (h : l ∈ t.take (number sign t).extra) : l.isDigit = true ∨ l = '.' := by
  rw [number] at h
  split at h
  · next n hf =>
    simp only at h
    -- A number with a fraction is its digits and then the fraction.
    have hsplit : (t.takeWhile Char.isDigit ++ t.dropWhile Char.isDigit).take
        ((t.takeWhile Char.isDigit).length + n)
          = t.takeWhile Char.isDigit ++ (t.dropWhile Char.isDigit).take n :=
      List.take_length_add_append n
    rw [List.takeWhile_append_dropWhile] at hsplit
    rw [hsplit, List.mem_append] at h
    rcases h with h | h
    · exact Or.inl (List.all_eq_true.1 List.all_takeWhile l h)
    · exact mem_fraction hf h
  · exact Or.inl (mem_take_takeWhile h)

/-- The characters of a number are printed. -/
theorem isPrinted_of_number {l : Char} (h : l.isDigit = true ∨ l = '.') :
    isPrinted l = true := by
  rcases h with h | rfl
  · exact isPrinted_of_isDigit h
  · rfl

/-- A number is no semicolon, by its kind, whichever of its two kinds it has. -/
theorem number_ne_semicolon (sign : Bool) (t : Text) : (number sign t).kind ≠ .semicolon := by
  rcases kind_number sign t with h | h <;> simp [h]

/-- A literal ends in the quote behind its inside, whatever characters stand before it. -/
theorem take_inside {q : Char} {t s : Text} (h : inside? q t = some s) :
    t.take (s.length + 1) = s ++ [q] := by
  obtain ⟨-, rest, rfl, -⟩ := inside?_eq_some h
  rw [List.take_length_add_append]
  rfl

/-- A delimited literal that is closed ends in its quote, which is printed. -/
theorem endsSolid_delimited {q c : Char} {kind : Text → TokenKind} {fault : LexicalFault}
    {t : Text} (hq : isPrinted q = true) (hkind : ∀ s, kind s ≠ .semicolon)
    (hfault : (delimited q kind fault t).kind.fault? = none) :
    EndsSolid c t (delimited q kind fault t) := by
  cases hs : inside? q t with
  | none =>
      simp only [delimited, hs] at hfault
      cases hfault
  | some s =>
      simp only [delimited, hs]
      exact endsSolid_of_take (take_inside hs) (solid_of_isPrinted hq (hkind s))

/-- A binary string without a fault ends in its closing quote. -/
theorem endsSolid_binaryString {c : Char} {t : Text}
    (hfault : (binaryString t).kind.fault? = none) : EndsSolid c t (binaryString t) := by
  cases t with
  | nil => cases hfault
  | cons d t =>
      rw [binaryString, List.drop_succ_cons, List.drop_zero] at hfault ⊢
      split at hfault
      · next s hs =>
        split at hfault
        · next hdigits =>
          rw [if_pos hdigits]
          -- The digits are fine, so the string ends in the quote behind them.
          refine endsSolid_of_take (l := '\x27') (u := d :: s) ?_
            (solid_of_isPrinted rfl (by simp))
          show (d :: t).take (s.length + 2) = _
          rw [List.take_succ_cons, take_inside hs]
          rfl
        · cases hfault
      · cases hfault

/-- An alternative string without a fault ends in the quote behind its closing character. -/
theorem endsSolid_alternativeString {c : Char} {t : Text}
    (hfault : (alternativeString t).kind.fault? = none) :
    EndsSolid c t (alternativeString t) := by
  match t with
  | [] | [_] => cases hfault
  | d :: o :: body =>
      simp only [alternativeString, List.drop_succ_cons, List.drop_zero] at hfault ⊢
      split at hfault
      · next s hs =>
        -- Behind the inside stand the closing character and the quote.
        obtain ⟨rest, rfl⟩ := before?_eq_some hs
        refine endsSolid_of_take (l := '\x27') (u := d :: o :: s ++ [partner o]) ?_
          (solid_of_isPrinted rfl (by simp))
        show (d :: o :: (s ++ _)).take (s.length + 4) = _
        rw [List.take_succ_cons, List.take_succ_cons, List.take_length_add_append]
        simp
      · cases hfault

/-- A word consists of printed characters, so it ends in one, and it is never a semicolon. -/
theorem endsSolid_word {c : Char} {t : Text} (hc : isNameStart c = true) :
    EndsSolid c t (word c t) := by
  have hkind : (word c t).kind ≠ .semicolon := by
    rw [word]
    cases Keyword.ofText? (c :: t.takeWhile isNamePart) <;> simp
  refine endsSolid_of_forall ?_ hkind
  rw [extra_word]
  intro l hl
  rcases List.mem_cons.1 hl with rfl | hl
  · exact isPrinted_of_isNameStart hc
  · exact isPrinted_of_isNamePart (mem_take_takeWhile hl)

/-- The second character of an operator of two is printed. There are finitely many operators. -/
theorem solid_double {c d : Char} {kind : TokenKind} (h : double? c d = some kind) :
    Solid kind d := by
  obtain ⟨hd, hkind⟩ := double?_cases h
  have hprinted : isPrinted d = true := by
    simp only [List.mem_cons, List.not_mem_nil, or_false] at hd
    rcases hd with rfl | rfl | rfl <;> rfl
  refine solid_of_isPrinted hprinted ?_
  rintro rfl
  simp at hkind

/-- An operator of one character may end in it: the semicolon is the one token that ends in a
semicolon. -/
theorem solid_single {c : Char} {kind : TokenKind} (h : single? c = some kind) :
    Solid kind c := by
  have hall : ∀ p ∈ singles, isBlank p.1 = false ∧ (p.1 = ';' ↔ p.2 = .semicolon) := by decide
  exact hall (c, kind) (mem_singles h)

/-- An operator ends in its second character, or in its only one. A character that fits nothing is a
fault. -/
theorem endsSolid_operator {c : Char} {t : Text} (hfault : (operator c t).kind.fault? = none) :
    EndsSolid c t (operator c t) := by
  rw [operator] at hfault ⊢
  revert hfault
  split
  · next kind hd =>
    intro _
    cases t with
    | nil => cases hd
    | cons d t => exact endsSolid_of_take (u := []) rfl (solid_double hd)
  -- No operator of two characters begins here, so there is one of a single character, or a fault.
  · split
    · next kind hs =>
      intro _
      exact ⟨c, rfl, solid_single hs⟩
    · intro hfault
      cases hfault

end Scan

/-- A token other than a blank, a line comment and a fault ends in a character that its kind
may end in. -/
theorem solid_scan {c : Char} {t : Text} (hc : Scan.isSpace c = false)
    (ht : (c == '-' && Scan.nextIs (· == '-') t) = false)
    (hfault : (scan c t).kind.fault? = none) : Scan.EndsSolid c t (scan c t) := by
  have hcase := scanned_scan c t
  generalize scan c t = x at hfault hcase ⊢
  cases hcase with
  | blank h => simp [h] at hc
  | lineComment h h' => simp [h, h'] at ht
  | blockComment h h' => exact Scan.endsSolid_blockComment h' hfault
  | negative h _ =>
      refine Scan.endsSolid_of_forall (fun l hl => ?_) (Scan.number_ne_semicolon true t)
      rcases List.mem_cons.1 hl with rfl | hl
      · rw [h]
        rfl
      · exact Scan.isPrinted_of_number (Scan.mem_number true hl)
  | number h =>
      have hstart : Scan.startsNumber (c :: t) = true := by
        rw [Scan.startsNumber, Bool.or_eq_true]
        exact h
      -- The first character belongs to the number, so one is subtracted from its length.
      have hpos := (Scan.number_extra_pos false).2 hstart
      refine Scan.endsSolid_of_forall (fun l hl => ?_) (Scan.number_ne_semicolon false (c :: t))
      rw [← List.take_succ_cons] at hl
      refine Scan.isPrinted_of_number (Scan.mem_number false (t := c :: t) ?_)
      rwa [show (Scan.number false (c :: t)).extra = (Scan.unsignedNumber c t).extra + 1 from
        (Nat.sub_add_cancel hpos).symm]
  | string | quotedIdentifier => exact Scan.endsSolid_delimited rfl (by simp) hfault
  | alternativeString => exact Scan.endsSolid_alternativeString hfault
  | binaryString => exact Scan.endsSolid_binaryString hfault
  | word h => exact Scan.endsSolid_word h
  | operator => exact Scan.endsSolid_operator hfault

end GeneratedKeys
