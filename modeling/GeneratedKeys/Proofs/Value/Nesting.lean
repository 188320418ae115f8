import GeneratedKeys.Proofs.Reading.Nests
import GeneratedKeys.Proofs.Value.Complete

/-!
# `GeneratedKeys.Proofs.Value.Nesting`: how many levels a value takes

A value is read inside of another one behind an opening parenthesis or bracket, behind a sign and
behind an operator. Openings and signs take a level each, however many there are. Operators do not:
the value behind one is read with a greater power, and where an operator binds too weakly for that
power, its level has been given back already. From the power 0 there are three steps up to the
power behind `*` and `/` (`layers`), so a value takes four levels at most for each opening that it
stands in, and its length does not matter.

* `passes_value_of_nesting`: without signs in front of operands the levels go by the parentheses
  and brackets.
* `Passes.enclosed`, `Passes.signed`: one level more for a pair of parentheses and for a sign.
* `Nests.enclosed`, `Nests.signed`: one level less is not enough.
-/

set_option autoImplicit false

namespace GeneratedKeys

open Rule Grammar

/-- How many parentheses and brackets are open at once, at most. It is counted from the end, so that
a closing one gives back what an opening one has taken. -/
def nesting : List Token → Nat
  | [] => 0
  | t :: ts =>
    if t.kind.opens then nesting ts + 1
    else if t.kind.closes then nesting ts - 1
    else nesting ts

/-- Whether each sign among the tokens stands behind the end of an operand, so that it is an
operator. The first token does so if `behind` is set. -/
def unsigned (behind : Bool) : List Token → Bool
  | [] => true
  | t :: ts => (!isSign t.kind || behind) && unsigned t.kind.endsOperand ts

/-- How many values, each behind an operator, may be read inside of a value of the power before
the power is too great for any operator. -/
def layers (power : Nat) : Nat :=
  if power ≤ 1 then 3 else if power ≤ 3 then 2 else if power ≤ 5 then 1 else 0

variable {n d power : Nat} {behind : Bool} {t l r : Token} {ts rest : List Token}

/-! ### Parentheses and brackets -/

/-- An opening token is open around all that it encloses, so what is inside is deeper by one. -/
theorem nesting_of_opens (ht : t.kind.opens = true) : nesting (t :: ts) = nesting ts + 1 := by
  rw [nesting, if_pos ht]

/-- Behind a closing token one less is open, and what follows may open that much more. -/
theorem nesting_of_closes (ht : t.kind.closes = true) : nesting (t :: ts) = nesting ts - 1 := by
  rw [nesting, if_neg (by simp [TokenKind.opens_of_closes ht]), if_pos ht]

/-- Other tokens change nothing, so only parentheses and brackets have to be looked at. -/
theorem nesting_of_plain (hopens : t.kind.opens = false) (hcloses : t.kind.closes = false) :
    nesting (t :: ts) = nesting ts := by
  rw [nesting, if_neg (by simp [hopens]), if_neg (by simp [hcloses])]

/-- Behind balanced tokens no more is open at once than from them on. -/
theorem Balanced.nesting_le {commas : Bool} (h : Balanced commas ts rest) :
    nesting rest ≤ nesting ts := by
  induction h with
  | nil => exact Nat.le_refl _
  | token ht _ ih =>
      rw [TokenKind.isPlain_iff] at ht
      rwa [nesting_of_plain ht.1 ht.2.1]
  | enclosed hends _ _ ihinside ihbehind =>
      rw [nesting_of_closes (TokenKind.closes_of_closedBy hends)] at ihinside
      rw [nesting_of_opens (TokenKind.opens_of_closedBy hends)]
      omega

/-! ### Signs -/

/-- No operand ends with an opening token, as what it opens would still have to be closed. -/
theorem endsOperand_of_opens {kind : TokenKind} (h : kind.opens = true) :
    kind.endsOperand = false := by
  cases kind <;> first | rfl | cases h

/-- The first token may be a sign only behind an operand, and it tells what the second one stands
behind. -/
theorem unsigned_cons :
    unsigned behind (t :: ts) = true ↔
      (isSign t.kind = true → behind = true) ∧ unsigned t.kind.endsOperand ts = true := by
  cases hsign : isSign t.kind <;> simp [unsigned, hsign]

/-- A minus sign behind an operand is an operator, and that of a negative number is part of it. -/
example : unsigned false (visibleTokens "(1) - -2".toList) = true ∧
    unsigned false (visibleTokens "1 * - 2".toList) = false := by
  decide +kernel

/-- Behind the end of an operand a sign may be next, so with an operand in front the condition is
the weaker one. -/
theorem unsigned_behind (h : unsigned behind ts = true) : unsigned true ts = true := by
  cases ts with
  | nil => rfl
  | cons t ts => exact unsigned_cons.2 ⟨fun _ => rfl, (unsigned_cons.1 h).2⟩

/-- From a later token on the signs are operators as well, if that token stands behind an operand.
-/
theorem unsigned_of_suffix (h : unsigned behind ts = true) (hsuffix : rest <:+ ts) :
    unsigned true rest = true := by
  obtain ⟨w, rfl⟩ := hsuffix
  induction w generalizing behind with
  | nil => exact unsigned_behind h
  | cons t w ih => exact ih (unsigned_cons.1 h).2

/-- Behind balanced tokens is what is left of the tokens, in their order. -/
theorem Balanced.suffix {commas : Bool} (h : Balanced commas ts rest) : rest <:+ ts := by
  induction h with
  | nil => exact List.suffix_refl _
  | token _ _ ih => exact ih.trans (List.suffix_cons _ _)
  | enclosed _ _ _ ihinside ihbehind =>
      exact ihbehind.trans ((List.suffix_cons _ _).trans (ihinside.trans (List.suffix_cons _ _)))

/-! ### Operators -/

/-- Behind `||` a value is read with more power, behind `+` in that one with still more, and behind
`*` with the most. So a value of the least power may have three others inside of one another. -/
theorem layers_zero : layers 0 = 3 := rfl

/-- The value behind an operator has a layer less than the value that the operator goes on with. -/
theorem layers_rightPower_lt {kind : TokenKind} (h : Infix kind)
    (hp : extendsValue power kind = true) : layers (rightPower kind) < layers power := by
  cases h with
  | concat =>
      have hle : power ≤ 1 := of_decide_eq_true hp
      grind [layers, rightPower]
  | plus | minus =>
      have hle : power ≤ 3 := of_decide_eq_true hp
      grind [layers, rightPower]
  | star | slash =>
      have hle : power ≤ 5 := of_decide_eq_true hp
      grind [layers, rightPower]

/-- So has a number that is subtracted, which is read again as an operand of its own. -/
theorem layers_four_lt {kind : TokenKind} (h : kind = .integer true ∨ kind = .real true)
    (hp : extendsValue power kind = true) : layers 4 < layers power := by
  have hle : power ≤ 3 := by
    rcases h with rfl | rfl <;> exact of_decide_eq_true hp
  grind [layers]

/-! ### Values without signs -/

/-- Four levels are enough for what stands outside of parentheses and brackets, and four more for
each of them that are open at once. -/
theorem budget_nesting :
    Budget fun n power behind ts =>
      unsigned behind ts = true ∧ 4 * nesting ts + layers power < n where
  none h := absurd h.2 (Nat.not_lt_zero _)
  token hopens hcloses h := by
    rw [nesting_of_plain hopens hcloses] at h
    exact ⟨(unsigned_cons.1 h.1).2, h.2⟩
  operand h hts := by
    have hle := h.balanced.nesting_le
    exact ⟨unsigned_of_suffix hts.1 h.balanced.suffix, by omega⟩
  tails h hts := by
    have hle := h.balanced.nesting_le
    exact ⟨unsigned_of_suffix hts.1 h.balanced.suffix, by omega⟩
  -- An opening token costs a level of nesting, and that pays for four levels: the value inside and
  -- three operators in it.
  opening := fun {_ _ _ t _} ht h => by
    have hinside := (unsigned_cons.1 h.1).2
    rw [endsOperand_of_opens ht] at hinside
    rw [nesting_of_opens ht] at h
    rw [layers_zero]
    exact ⟨hinside, by omega⟩
  -- A sign in front of an operand is excluded.
  sign hs h := absurd ((unsigned_cons.1 h.1).1 (isSign_iff.2 hs)) Bool.false_ne_true
  -- The value behind an operator has a layer less, so one level is left over for it.
  operator := fun {_ _ t _} ho hp h => by
    have hplain : t.kind.opens = false ∧ t.kind.closes = false ∧ t.kind.endsOperand = false := by
      generalize t.kind = kind at ho
      cases ho <;> exact ⟨rfl, rfl, rfl⟩
    have hinside := (unsigned_cons.1 h.1).2
    rw [hplain.2.2] at hinside
    rw [nesting_of_plain hplain.1 hplain.2.1] at h
    have hlt := layers_rightPower_lt ho hp
    exact ⟨hinside, by omega⟩
  -- A number that is subtracted is read again, behind an operand and with a greater power.
  negative := fun {_ _ t _} hneg hp h => by
    have hsign : isSign t.kind = false := by rcases hneg with hneg | hneg <;> rw [hneg] <;> rfl
    have hlt := layers_four_lt hneg hp
    exact ⟨unsigned_cons.2 ⟨by simp [hsign], (unsigned_cons.1 h.1).2⟩, by omega⟩

/-- A value without signs in front of operands takes no more than four levels outside of
parentheses and brackets, and four more for each of them that are open at once, whatever its
length. -/
theorem passes_value_of_nesting (h : Derives .value ts rest) (hr : Ends rest)
    (hunsigned : unsigned false ts = true) (hlevels : 4 * (nesting ts + 1) ≤ n) :
    Passes n (.value 0) ts rest :=
  (complete budget_nesting n).passes_value ⟨hunsigned, by rw [layers_zero]; omega⟩ h hr

/-! ### Parentheses and signs by the level -/

/-- An operand is a value if no operator goes on with it. -/
theorem Passes.value_of_operand (h : Passes n operand ts rest)
    (hr : State.passes [extendsValue power] rest = false) :
    Passes (n + 1) (.value power) ts rest := by
  refine Passes.value_iff.2 (Passes.seq_iff.2 ⟨rest, h, ?_⟩)
  rw [Passes.repeatWhile_iff, if_neg (by simp [hr])]

/-- A parenthesis is no sign, so an operand that begins with one is a primary. -/
theorem not_sign_of_leftParen (hl : l.kind = .leftParen) :
    State.passes [isSign] (l :: ts) = false := by
  rw [State.passes_one_cons, hl]
  rfl

/-- A pair of parentheses takes a level. Behind it the value ends, if no operator follows. -/
theorem Passes.enclosed (hl : l.kind = .leftParen) (hr : r.kind = .rightParen)
    (h : Passes n (.value 0) ts (r :: rest))
    (hrest : State.passes [extendsValue power] rest = false) :
    Passes (n + 1) (.value power) (l :: ts) rest := by
  refine Passes.value_of_operand ?_ hrest
  rw [Grammar.operand, Passes.branch_iff, if_neg (by simp [not_sign_of_leftParen hl]),
    passes_primary_iff, hl]
  exact passes_enclosed_of h hr

/-- A sign takes a level, too, as the operand behind it is read as a value that binds strongly. -/
theorem Passes.signed (ht : t.kind = .plus ∨ t.kind = .minus) (h : Passes n (.value 7) ts rest)
    (hrest : State.passes [extendsValue power] rest = false) :
    Passes (n + 1) (.value power) (t :: ts) rest := by
  refine Passes.value_of_operand ?_ hrest
  rw [Grammar.operand, Passes.branch_iff, State.passes_one_cons, if_pos (isSign_iff.2 ht)]
  exact Passes.seq_iff.2 ⟨ts, Passes.take_cons_iff.2 rfl, h⟩

/-- A value after tokens that are passed begins inside as many others, since those in front of it
are closed. -/
theorem Nests.after {first second : Rule} {mid : List Token} (h : Passes n first ts mid)
    (hsecond : Nests d second mid rest) : Nests d (.seq first second) ts rest := by
  obtain ⟨ms, ks, hread, -⟩ := h
  exact .second hread hsecond

/-- A value inside of parentheses is nested deeper by one, wherever in it the deep place lies. -/
theorem Nests.enclosed (hl : l.kind = .leftParen) (h : Nests d (.value 0) ts rest) :
    Nests (d + 1) (.value power) (l :: ts) rest := by
  have hliteral : State.passes [isLiteral] (l :: ts) = false := by
    rw [State.passes_one_cons, hl]
    rfl
  exact .inside (.first (.no (not_sign_of_leftParen hl) (.no hliteral
    (.yes (passes_isA rfl hl ts) (.second (n := 0) .take (.first h))))))

/-- So is a value behind a sign. The bounds on nesting are built from these two, one for each value
that is opened. -/
theorem Nests.signed (ht : t.kind = .plus ∨ t.kind = .minus) (h : Nests d (.value 7) ts rest) :
    Nests (d + 1) (.value power) (t :: ts) rest := by
  have hsign : State.passes [isSign] (t :: ts) = true :=
    State.passes_one_cons.trans (isSign_iff.2 ht)
  exact .inside (.first (.yes hsign (.second (n := 0) .take h)))

end GeneratedKeys
