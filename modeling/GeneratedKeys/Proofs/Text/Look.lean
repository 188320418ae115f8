import GeneratedKeys.Proofs.Text.Steps
import Mathlib.Algebra.Group.Nat.Defs

/-!
# `GeneratedKeys.Proofs.Text.Look`: what is seen from a place in a text

Looking ahead counts the characters from the next one on, and looking back those passed from the
last one on; nothing is counted as zero. What is seen follows from how many characters there are on
either side, an advance moves what is seen by one, and a word is passed exactly if it is seen.

The place looked at is a number of characters from the beginning of the text, reckoned from the
place of the cursor and the offset. `lookInWords` reckons it in words of 64 bits.

* `look_ofNat_succ`, `look_negSucc`: what is seen in either direction.
* `lookInWords_eq`: no sum or difference leaves the range of the words, whatever the offset is.
* `look_advance`, `look_back_advance`: what is seen after an advance.
* `passWord_iff`, `passWord_append`: when a word is passed, and where that leads to.
* `look_laws`: all of this, for every place in a text.
-/

set_option autoImplicit false

namespace GeneratedKeys

/-- The sum of two words, unless it leaves the range. The answer tells an overflow from a sum, which
plain addition of words does not. -/
def wordSum? (m n : UInt64) : Option UInt64 :=
  if m.toNat + n.toNat < 2 ^ 64 then some (m + n) else none

/-- The difference of two words, unless it leaves the range, which it does exactly if the second one
is the greater. -/
def wordDifference? (m n : UInt64) : Option UInt64 :=
  if n.toNat ≤ m.toNat then some (m - n) else none

/-- A sum that stays in range is the sum of the numbers. -/
theorem wordSum?_ofNat {m n : Nat} (h : m + n < 2 ^ 64) :
    wordSum? (.ofNat m) (.ofNat n) = some (.ofNat (m + n)) := by
  rw [wordSum?, UInt64.toNat_ofNat_of_lt' (by simp [UInt64.size]; omega),
    UInt64.toNat_ofNat_of_lt' (by simp [UInt64.size]; omega), if_pos h, UInt64.ofNat_add]

/-- A difference is that of the numbers, and there is none if more is taken away than is there. -/
theorem wordDifference?_ofNat {m n : Nat} (hm : m < 2 ^ 64) (hn : n < 2 ^ 64) :
    wordDifference? (.ofNat m) (.ofNat n) = if n ≤ m then some (.ofNat (m - n)) else none := by
  rw [wordDifference?, UInt64.toNat_ofNat_of_lt' (by simp [UInt64.size]; omega),
    UInt64.toNat_ofNat_of_lt' (by simp [UInt64.size]; omega)]
  split
  · next hle => rw [UInt64.ofNat_sub hle]
  · rfl

namespace Text

/-- The character of a text behind so many others, as it is seen: in small letters, or the end of
the text. -/
def seen (t : Text) (index : Nat) : Lookahead :=
  (t[index]?.map fun x => Lookahead.char x.toLower).getD .eof

end Text

namespace Cursor

/-- What is seen at an offset, if the place is reckoned in words. Looking ahead adds the distance
and takes one away; looking back takes the distance away, and in front of the text there is nothing
to be seen. There is no answer if a sum or a difference leaves the range where that is not expected.
-/
def lookInWords (c : Cursor) (offset : Int64) : Option Lookahead :=
  let position := UInt64.ofNat c.position
  let distance := UInt64.ofNat offset.toInt.natAbs
  if offset = 0 then some .undefined
  else if 0 < offset then
    (wordSum? position distance).bind fun sum =>
      (wordDifference? sum 1).map fun index => c.text.seen index.toNat
  else
    match wordDifference? position distance with
    | some index => some (c.text.seen index.toNat)
    | none => some .undefined

variable {c : Cursor}

/-! ### Either side of the cursor -/

/-- Looking ahead reads the list of the characters ahead, and behind the last of them there is the
end. -/
theorem look_ofNat_succ (c : Cursor) (n : Nat) :
    c.look (n + 1 : Nat) = (c.ahead[n]?.map fun x => Lookahead.char x.toLower).getD .eof := by
  show c.look (.ofNat (n + 1)) = _
  rw [look]
  cases c.ahead[n]? <;> rfl

/-- Looking back reads the list of the characters passed, and in front of the first of them there is
nothing. -/
theorem look_negSucc (c : Cursor) (n : Nat) :
    c.look (.negSucc n)
      = (c.passed[n]?.map fun x => Lookahead.char x.toLower).getD .undefined := by
  rw [look]
  cases c.passed[n]? <;> rfl

/-- A character is seen as far as there are characters on the side looked to. -/
theorem exists_look_eq_char_iff (c : Cursor) (i : Int) :
    (∃ x, c.look i = .char x) ↔
      (1 ≤ i ∧ i ≤ c.ahead.length) ∨ (i ≤ -1 ∧ -i ≤ c.passed.length) := by
  rcases i with n | n
  -- The offset 0 names no character: the next one is at 1, the last one passed at -1.
  · cases n with
    | zero => simp [look]
    | succ n =>
        rw [Int.ofNat_eq_natCast, look_ofNat_succ]
        rcases Nat.lt_or_ge n c.ahead.length with hn | hn
        · simp only [List.getElem?_eq_getElem hn, Option.map_some, Option.getD_some,
            Lookahead.char.injEq, exists_eq', true_iff]
          omega
        · simp only [List.getElem?_eq_none hn, Option.map_none, Option.getD_none, reduceCtorEq,
            exists_false, false_iff]
          omega
  · rw [look_negSucc]
    rcases Nat.lt_or_ge n c.passed.length with hn | hn
    · simp only [List.getElem?_eq_getElem hn, Option.map_some, Option.getD_some,
        Lookahead.char.injEq, exists_eq', true_iff]
      omega
    · simp only [List.getElem?_eq_none hn, Option.map_none, Option.getD_none, reduceCtorEq,
        exists_false, false_iff]
      omega

/-- Where no character is seen, the end is seen ahead and nothing else. -/
theorem look_of_no_char {i : Int} (h : ∀ x, c.look i ≠ .char x) :
    (1 ≤ i → c.look i = .eof) ∧ (i ≤ 0 → c.look i = .undefined) := by
  rcases i with n | n
  · cases n with
    | zero => exact ⟨fun hpos => by simp at hpos, fun _ => rfl⟩
    | succ n =>
        -- A character ahead would be seen, so there is none left.
        refine ⟨fun _ => ?_, fun hneg => by simp at hneg; omega⟩
        rw [Int.ofNat_eq_natCast, look_ofNat_succ] at h ⊢
        cases hchar : c.ahead[n]? with
        | none => rfl
        | some x => exact absurd (by rw [hchar]; rfl) (h x.toLower)
  · refine ⟨fun hpos => by omega, fun _ => ?_⟩
    rw [look_negSucc] at h ⊢
    cases hchar : c.passed[n]? with
    | none => rfl
    | some x => exact absurd (by rw [hchar]; rfl) (h x.toLower)

/-! ### Reckoning in words -/

/-- What is seen ahead stands in the text behind the characters passed. -/
theorem seen_ahead (c : Cursor) (n : Nat) :
    c.text.seen (c.position + n) = c.look (n + 1 : Nat) := by
  rw [Text.seen, look_ofNat_succ, text, position, ← List.length_reverse,
    List.getElem?_append_right (Nat.le_add_right ..), Nat.add_sub_cancel_left]

/-- What is seen behind stands in the text as far in front of the cursor. -/
theorem seen_behind {n : Nat} (hn : n < c.position) :
    c.text.seen (c.position - (n + 1)) = c.look (.negSucc n) := by
  have hlength : c.position - (n + 1) < c.passed.length := by
    rw [position] at hn ⊢
    omega
  have hplace : c.passed.length - 1 - (c.passed.length - (n + 1)) = n := by
    rw [position] at hn
    omega
  rw [Text.seen, look_negSucc, text, List.getElem?_append_left (by simpa using hlength),
    List.getElem?_reverse hlength, position, hplace, List.getElem?_eq_getElem hn]
  rfl

/-- Looking ahead, the sum of the place and the distance is still in range. -/
theorem lookInWords_ahead (hposition : c.position < 2 ^ 63) {i : Int64} {n : Nat}
    (hn : i.toInt = (n + 1 : Nat)) : c.lookInWords i = some (c.look i.toInt) := by
  have hpos : 0 < i := by
    rw [Int64.lt_iff_toInt_lt, hn]
    exact Int.natCast_pos.2 (Nat.succ_pos n)
  have hzero : i ≠ 0 := fun h => absurd hpos (by simp [h])
  have hhigh := i.toInt_lt
  -- The place is below 2^63 and so is the distance, so the sum fits into a word.
  have hsum : wordSum? (.ofNat c.position) (.ofNat (n + 1))
      = some (.ofNat (c.position + (n + 1))) :=
    wordSum?_ofNat (by omega)
  have hplace : wordDifference? (.ofNat (c.position + (n + 1))) 1
      = some (.ofNat (c.position + n)) :=
    (wordDifference?_ofNat (n := 1) (by omega) (by decide)).trans (if_pos (by omega))
  have hindex : (UInt64.ofNat (c.position + n)).toNat = c.position + n :=
    UInt64.toNat_ofNat_of_lt' (by simp only [UInt64.size]; omega)
  dsimp only [lookInWords]
  rw [if_neg hzero, if_pos hpos, hn, Int.natAbs_natCast, hsum, Option.bind_some, hplace,
    Option.map_some, hindex, seen_ahead]

/-- Looking back, the difference is in range exactly if it leads to a character of the text. -/
theorem lookInWords_behind (hposition : c.position < 2 ^ 63) {i : Int64} {n : Nat}
    (hn : i.toInt = .negSucc n) : c.lookInWords i = some (c.look i.toInt) := by
  have hneg : ¬ 0 < i := by
    rw [Int64.lt_iff_toInt_lt, hn]
    exact Int.not_lt.2 (Int.le_of_lt (Int.negSucc_lt_zero n))
  have hzero : i ≠ 0 := by
    rintro rfl
    cases hn
  have hlow := i.le_toInt
  -- The distance may be 2^63, which still is a word. The difference may fail, and it does exactly
  -- where the place would be in front of the text.
  have hdistance : wordDifference? (.ofNat c.position) (.ofNat (n + 1))
      = if n + 1 ≤ c.position then some (.ofNat (c.position - (n + 1))) else none :=
    wordDifference?_ofNat (by omega) (by omega)
  dsimp only [lookInWords]
  rw [if_neg hzero, if_neg hneg, hn, Int.natAbs_negSucc, Nat.succ_eq_add_one, hdistance]
  rcases Nat.lt_or_ge n c.position with hlt | hge
  · have hindex : (UInt64.ofNat (c.position - (n + 1))).toNat = c.position - (n + 1) :=
      UInt64.toNat_ofNat_of_lt' (by simp only [UInt64.size]; omega)
    rw [if_pos (Nat.succ_le_of_lt hlt)]
    dsimp only
    rw [hindex, seen_behind hlt]
  · rw [if_neg (Nat.not_le.2 (Nat.lt_succ_of_le hge)), look_negSucc, List.getElem?_eq_none hge]
    rfl

/-- In a text of less than 2^63 bytes no offset leaves the range of the words, so computing with
words sees the same character as computing with integers. -/
theorem lookInWords_eq (hsize : Text.size c.text < 2 ^ 63) (i : Int64) :
    c.lookInWords i = some (c.look i.toInt) := by
  have hposition : c.position < 2 ^ 63 :=
    Nat.lt_of_le_of_lt (Nat.le_trans c.position_le_length (Text.length_le_size _)) hsize
  rcases hi : i.toInt with n | n
  · cases n with
    | zero =>
        obtain rfl : i = 0 := Int64.toInt_inj.1 hi
        rfl
    | succ n => exact hi ▸ lookInWords_ahead hposition hi
  · exact hi ▸ lookInWords_behind hposition hi

/-! ### Advances and words -/

/-- After an advance everything ahead is seen one character nearer. What was at offset 1 is the
character passed, and is not ahead any more. -/
theorem look_advance (h : c.atEnd = false) {i : Int} (hi : 1 ≤ i) :
    c.advance.look i = c.look (i + 1) := by
  obtain ⟨passed, ahead⟩ := c
  cases ahead with
  | nil => cases h
  | cons x rest =>
      obtain ⟨n, rfl⟩ : ∃ n : Nat, i = (n + 1 : Nat) := ⟨i.toNat - 1, by omega⟩
      rw [look_ofNat_succ, show ((n + 1 : Nat) : Int) + 1 = (n + 1 + 1 : Nat) from rfl,
        look_ofNat_succ]
      rfl

/-- After an advance the character passed is seen first, and the others behind it, each one
character further away. -/
theorem look_back_advance (h : c.atEnd = false) :
    c.advance.look (-1) = c.look 1 ∧ ∀ k : Int, 1 ≤ k → c.advance.look (-k - 1) = c.look (-k) := by
  obtain ⟨passed, ahead⟩ := c
  cases ahead with
  | nil => cases h
  | cons x rest =>
      refine ⟨rfl, fun k hk => ?_⟩
      obtain ⟨n, rfl⟩ : ∃ n : Nat, k = (n + 1 : Nat) := ⟨k.toNat - 1, by omega⟩
      rw [show -((n + 1 : Nat) : Int) - 1 = .negSucc (n + 1) by omega,
        show -((n + 1 : Nat) : Int) = .negSucc n from rfl, look_negSucc, look_negSucc]
      rfl

/-- Advancing over the first part of what is ahead puts it behind the cursor, with the last
character first. -/
theorem advanceBy_append (passed taken rest : Text) :
    advanceBy taken.length ⟨passed, taken ++ rest⟩ = ⟨taken.reverse ++ passed, rest⟩ := by
  induction taken generalizing passed with
  | nil => rfl
  | cons x taken ih =>
      show advanceBy taken.length ⟨x :: passed, taken ++ rest⟩ = _
      rw [ih, List.reverse_cons, List.append_assoc]
      rfl

/-- A word is passed exactly if the characters ahead begin with it, up to letter case. -/
theorem passWord_iff (c : Cursor) (word : Text) :
    (c.passWord word).1 = true ↔
      ∃ taken rest, c.ahead = taken ++ rest ∧ Text.lower taken = Text.lower word := by
  have hfirst : (c.passWord word).1 = c.startsWith word := by
    unfold passWord
    split <;> simp_all
  rw [hfirst, startsWith, Text.sameIgnoringCase_iff]
  constructor
  · intro h
    exact ⟨_, _, (List.take_append_drop word.length c.ahead).symm, h⟩
  · rintro ⟨taken, rest, hahead, hword⟩
    have hlength := congrArg List.length hword
    rw [Text.length_lower, Text.length_lower] at hlength
    rw [hahead, ← hlength, List.take_left, hword]

/-- Passing a word leads behind the characters that match it. They are as many as the word has,
whatever letter case they are written in. -/
theorem passWord_append {word taken rest : Text} (hahead : c.ahead = taken ++ rest)
    (hword : Text.lower taken = Text.lower word) :
    (c.passWord word).2 = ⟨taken.reverse ++ c.passed, rest⟩ := by
  have hpasses := (passWord_iff c word).2 ⟨taken, rest, hahead, hword⟩
  -- The word and the characters that match it are equally long, so as many are passed.
  have hlength := congrArg List.length hword
  rw [Text.length_lower, Text.length_lower] at hlength
  obtain ⟨passed, ahead⟩ := c
  subst hahead
  unfold passWord at hpasses ⊢
  split
  · rw [← hlength]
    exact advanceBy_append passed taken rest
  · next hnot =>
    rw [if_neg hnot] at hpasses
    cases hpasses

/-- If the word is not ahead, the cursor does not move, so the next alternative is tried at the same
place. -/
theorem passWord_false {word : Text} (h : (c.passWord word).1 = false) :
    (c.passWord word).2 = c := by
  unfold passWord at h ⊢
  split
  · next hstarts =>
    rw [if_pos hstarts] at h
    cases h
  · rfl

end Cursor

open Cursor

/-- Any place in any text. A character is seen as far as there are characters on the side looked to;
otherwise the end is seen ahead, and nothing behind or at the cursor itself. In a text of less than
2^63 bytes the place looked at is reckoned in words without leaving their range, for every offset.
An advance shifts what is seen by one, and the character passed is then the first one behind. A word
is passed exactly if the next characters are the same up to ASCII letter case, by the bytes of these
characters, and otherwise nothing changes. -/
theorem look_laws (c : Cursor) :
    (∀ i : Int,
      ((∃ x, c.look i = .char x) ↔
        (1 ≤ i ∧ i ≤ c.ahead.length) ∨ (i ≤ -1 ∧ -i ≤ c.passed.length)) ∧
      ((∀ x, c.look i ≠ .char x) →
        (1 ≤ i → c.look i = .eof) ∧ (i ≤ 0 → c.look i = .undefined))) ∧
    (Text.size c.text < 2 ^ 63 → ∀ i : Int64, c.lookInWords i = some (c.look i.toInt)) ∧
    (c.atEnd = false →
      (∀ i : Int, 1 ≤ i → c.advance.look i = c.look (i + 1)) ∧
      c.advance.look (-1) = c.look 1 ∧
      ∀ k : Int, 1 ≤ k → c.advance.look (-k - 1) = c.look (-k)) ∧
    ∀ word : Text,
      ((c.passWord word).1 = true ↔
        ∃ taken rest, c.ahead = taken ++ rest ∧ Text.lower taken = Text.lower word) ∧
      (∀ taken rest : Text, c.ahead = taken ++ rest → Text.lower taken = Text.lower word →
        (c.passWord word).2.text = c.text ∧
        (c.passWord word).2.ahead = rest ∧
        (c.passWord word).2.index = c.index + Text.size taken) ∧
      ((c.passWord word).1 = false → (c.passWord word).2 = c) := by
  refine ⟨fun i => ⟨exists_look_eq_char_iff c i, look_of_no_char⟩, lookInWords_eq,
    fun h => ⟨fun i => look_advance h, look_back_advance h⟩,
    fun word => ⟨passWord_iff c word, ?_, passWord_false⟩⟩
  -- What is left are the three things that hold behind a word that was passed.
  intro taken rest hahead hword
  refine ⟨text_passWord word c, ?_, ?_⟩
  · rw [passWord_append hahead hword]
  · rw [passWord_append hahead hword]
    simp [index, Nat.add_comm]

/-- Behind a letter of two bytes, in front of a word in capitals: the least and the greatest offset,
and the word. -/
theorem look_laws_extremes :
    Cursor.lookInWords ⟨['й'], "INto".toList⟩ Int64.maxValue = some .eof ∧
      Cursor.lookInWords ⟨['й'], "INto".toList⟩ Int64.minValue = some .undefined ∧
      Cursor.look ⟨['й'], "INto".toList⟩ (-1) = .char 'й' ∧
      (Cursor.passWord "in".toList ⟨['й'], "INto".toList⟩).2.index = 4 ∧
      (Cursor.passWord "inx".toList ⟨['й'], "INto".toList⟩).2 = ⟨['й'], "INto".toList⟩ ∧
      Cursor.look (Cursor.advance ⟨['й'], "INto".toList⟩) (-2) = .char 'й' := by
  obtain ⟨-, inWords, advanced, passed⟩ := look_laws ⟨['й'], "INto".toList⟩
  have hsize : Text.size (Cursor.text ⟨['й'], "INto".toList⟩) < 2 ^ 63 := by decide
  refine ⟨(inWords hsize _).trans rfl, (inWords hsize _).trans rfl, rfl, ?_, ?_, ?_⟩
  · exact ((passed _).2.1 "IN".toList "to".toList rfl rfl).2.2
  · exact (passed _).2.2 rfl
  · exact ((advanced rfl).2.2 1 (Int.le_refl 1)).trans rfl

end GeneratedKeys
