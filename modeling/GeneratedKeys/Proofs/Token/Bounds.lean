import GeneratedKeys.Proofs.Token.Cut
import GeneratedKeys.Proofs.Token.Scanned

/-!
# `GeneratedKeys.Proofs.Token.Bounds`: a token lies within its text

The scanner answers with the number of characters that a token takes behind its first one.
There are always as many.

* `scan_extra_le`: the scanner takes only characters that are there.
-/

set_option autoImplicit false

namespace GeneratedKeys

namespace Scan

/-- A function takes characters that are there: what it takes behind the first character is no more
than the text has. -/
def Bounded (f : Text → Lexeme) : Prop :=
  ∀ t : Text, (f t).extra ≤ t.length

/-- A block comment that is closed ends within the text, since its closing mark was found there. -/
theorem blockLength?_le {t : Text} {n : Nat} (h : blockLength? t = some n) : n ≤ t.length := by
  induction t using blockLength?.induct generalizing n with
  | case1 | case2 => simp [blockLength?] at h
  | case3 c d t hc =>
      rw [blockLength?, if_pos hc] at h
      cases h
      simp
  | case4 c d t hc ih =>
      rw [blockLength?, if_neg hc] at h
      obtain ⟨m, hm, rfl⟩ := Option.map_eq_some_iff.1 h
      exact Nat.succ_le_succ (ih hm)

/-- A line comment ends with the text at the latest. Its second dash must be there, since it is
counted. -/
theorem bounded_lineComment {t : Text} (ht : nextIs (· == '-') t = true) :
    (lineComment t).extra ≤ t.length := by
  cases t with
  | nil => cases ht
  | cons c t =>
      have hle := (List.takeWhile_prefix (l := t) fun c => !isLineEnd c).length_le
      simp only [lineComment, List.drop_succ_cons, List.drop_zero, List.length_cons]
      omega

/-- A block comment ends with the text at the latest, whether it is closed or not. -/
theorem bounded_blockComment {t : Text} (ht : nextIs (· == '*') t = true) :
    (blockComment t).extra ≤ t.length := by
  cases t with
  | nil => cases ht
  | cons c t =>
      rw [blockComment]
      split
      · next n hn =>
        have hle := blockLength?_le hn
        simp only [List.drop_succ_cons, List.drop_zero, List.length_cons] at hle ⊢
        omega
      · exact Nat.le_refl _

/-- A number consists of characters of the text: digits, and a fraction if one starts behind them.
-/
theorem bounded_number (sign : Bool) : Bounded (number sign) := by
  intro t
  -- The digits and what follows them are the text.
  have hsum : (t.takeWhile Char.isDigit).length + (t.dropWhile Char.isDigit).length = t.length := by
    rw [← List.length_append, List.takeWhile_append_dropWhile]
  rw [number]
  simp only [fractionLength?]
  split
  · next n hn =>
    split at hn
    · next hf =>
      cases hn
      cases ht : t.dropWhile Char.isDigit with
      | nil => simp [ht, startsFraction] at hf
      | cons c u =>
          -- The fraction has its point and then a run of digits, which lie in what follows.
          have hle := (List.takeWhile_prefix (l := u) Char.isDigit).length_le
          simp only [ht, List.length_cons, List.drop_succ_cons, List.drop_zero] at hsum ⊢
          omega
    · cases hn
  · show (t.takeWhile Char.isDigit).length ≤ t.length
    omega

/-- The same for a number without a sign, whose first character is given. -/
theorem bounded_unsignedNumber (c : Char) : Bounded (unsignedNumber c) := by
  intro t
  have hle := bounded_number false (c :: t)
  simp only [unsignedNumber, List.length_cons] at hle ⊢
  omega

/-- A literal ends with its closing quote, and without one it takes the rest of the text. -/
theorem bounded_delimited (q : Char) (kind : Text → TokenKind) (fault : LexicalFault) :
    Bounded (delimited q kind fault) := by
  intro t
  rw [delimited]
  split
  · next s hs => exact inside?_length hs
  · exact Nat.le_refl _

/-- The same for a string with a closing character of its own. -/
theorem bounded_alternativeString : Bounded alternativeString := by
  intro t
  match t with
  | [] | [_] => simp [alternativeString]
  | c :: o :: body =>
      simp only [alternativeString, List.drop_succ_cons, List.drop_zero]
      split
      · next s hs =>
        obtain ⟨rest, rfl⟩ := before?_eq_some hs
        simp only [List.length_cons, List.length_append]
        omega
      · exact Nat.le_refl _

/-- The same for a binary string, whatever is between its quotes. -/
theorem bounded_binaryString : Bounded binaryString := by
  intro t
  cases t with
  | nil => simp [binaryString, inside?]
  | cons c t =>
      rw [binaryString, List.drop_succ_cons, List.drop_zero]
      split
      · next s hs =>
        have hle := inside?_length hs
        rw [List.length_cons]
        split <;> exact Nat.succ_le_succ hle
      · exact Nat.le_refl _

/-- A word is a run of characters of the text, whether it spells a keyword or not. -/
theorem bounded_word (c : Char) : Bounded (word c) := by
  intro t
  rw [extra_word]
  exact (List.takeWhile_prefix isNamePart).length_le

/-- An operator takes one character more at most, and only one that is there. -/
theorem bounded_operator (c : Char) : Bounded (operator c) := by
  intro t
  rw [operator]
  split
  · next kind h =>
    cases t with
    | nil => simp at h
    | cons d t => exact Nat.succ_le_succ (Nat.zero_le _)
  · split <;> exact Nat.zero_le _

end Scan

/-- A token lies within its text. The scanners of its pieces are bounded one by one, and this puts
them together. -/
theorem scan_extra_le (c : Char) (t : Text) : (scan c t).extra ≤ t.length := by
  have hcase := scanned_scan c t
  generalize scan c t = x at hcase ⊢
  cases hcase with
  | blank => exact (List.takeWhile_prefix _).length_le
  | lineComment _ h => exact Scan.bounded_lineComment h
  | blockComment _ h => exact Scan.bounded_blockComment h
  | negative => exact Scan.bounded_number true t
  | number => exact Scan.bounded_unsignedNumber c t
  | string | quotedIdentifier => exact Scan.bounded_delimited _ _ _ t
  | alternativeString => exact Scan.bounded_alternativeString t
  | binaryString => exact Scan.bounded_binaryString t
  | word => exact Scan.bounded_word c t
  | operator => exact Scan.bounded_operator c t

end GeneratedKeys
