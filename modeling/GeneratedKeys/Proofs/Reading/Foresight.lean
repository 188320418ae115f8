import GeneratedKeys.Proofs.Reading.Reads

/-!
# `GeneratedKeys.Proofs.Reading.Foresight`: what an attempt foretells

Whether a data type is an array is decided by an attempt to read a type and an opening bracket.
The same rules are read twice then, first under the attempt and, if it succeeds, once more for
good. During the attempt a missing token stops reading, and for good it is repaired, so the two
runs could differ. They do not: a plain rule that succeeds under an attempt needs no repair, and
without repairs it does nothing but pass tokens.

* `exists_takeMany`: a plain rule that is read as it stands passes a number of tokens, and it
  passes the same ones under any number of attempts.
* `arrayForm_foresees`: the attempt leaves the state as it was, and what it finds is what is read
  for good afterwards, up to the same place.
-/

set_option autoImplicit false

namespace GeneratedKeys

/-- What an attempt at an array type tries: a type, and the bracket that opens its bounds. -/
def Grammar.arrayForm : Rule :=
  .seq (scalarType false) (.expect .leftBracket)

open Rule Grammar

namespace State

/-- What is ahead behind a number of tokens is what stands behind these. -/
theorem after_takeMany (k : Nat) (s : State) : (takeMany k s).after = s.after.drop k := by
  rw [takeMany_eq_follow]
  rfl

/-- Passing tokens repairs nothing. Repairs come from wanted tokens only. -/
theorem repairs_takeMany (k : Nat) (s : State) : (takeMany k s).repairs = s.repairs := by
  rw [takeMany_eq_follow, follow, Move.repairs_eq_nil.2 (Move.clean_map_pass _)]
  exact List.append_nil _

/-- Tokens are passed alike under one attempt more, since the count of attempts is not looked at. -/
theorem takeMany_enter (k : Nat) (s : State) : takeMany k s.enter = (takeMany k s).enter := by
  rw [takeMany_eq_follow, takeMany_eq_follow]
  rfl

/-- Passing some tokens and then some more is passing all of them at once. -/
theorem takeMany_add (j k : Nat) (s : State) : takeMany (j + k) s = takeMany k (takeMany j s) := by
  induction j generalizing s with
  | zero => rw [Nat.zero_add, takeMany]
  | succ j ih => rw [Nat.succ_add, takeMany, takeMany, ih]

end State

open State

/-- A plain rule that is read as it stands passes a number of tokens and does nothing else. That
does not depend on what was found and repaired before, nor on the attempts under way. -/
theorem exists_takeMany {r : Rule} (hr : r.plain = true) {ts rest : List Token}
    (h : r.strict ts = some rest) :
    ∃ k, rest = ts.drop k ∧ ∀ (value : Nat → State → Outcome) (s : State), s.after = ts →
      r.run value s = .ok (takeMany k s) := by
  induction r generalizing ts rest with
  | empty =>
      cases h
      exact ⟨0, rfl, fun _ _ _ => rfl⟩
  | seq first second ih₁ ih₂ =>
      simp only [plain, Bool.and_eq_true] at hr
      obtain ⟨mid, hfirst, hsecond⟩ := Option.bind_eq_some_iff.1 h
      obtain ⟨j, rfl, hj⟩ := ih₁ hr.1 hfirst
      obtain ⟨k, rfl, hk⟩ := ih₂ hr.2 hsecond
      refine ⟨j + k, List.drop_drop.symm ▸ rfl, fun value s hs => ?_⟩
      rw [run, hj value s hs, Outcome.ok_andThen, takeMany_add]
      exact hk value _ (by rw [after_takeMany, hs])
  | expect kind =>
      cases ts with
      | nil => cases h
      | cons t ts =>
          rw [strict] at h
          split at h
          · next hkind =>
            cases h
            -- The wanted token is there, so whether a repair is allowed is not asked.
            refine ⟨1, rfl, fun value s hs => ?_⟩
            rw [run, State.expect, hs]
            simp only [hkind, if_true]
            rfl
          · cases h
  | take =>
      cases h
      exact ⟨1, List.drop_one.symm, fun _ _ _ => rfl⟩
  | branch tests yes no ihy ihn =>
      simp only [plain, Bool.and_eq_true] at hr
      rw [strict] at h
      split at h
      · next hp =>
        obtain ⟨k, hrest, hk⟩ := ihy hr.1 h
        refine ⟨k, hrest, fun value s hs => ?_⟩
        rw [run, hs, if_pos hp, hk value s hs]
      · next hp =>
        obtain ⟨k, hrest, hk⟩ := ihn hr.2 h
        refine ⟨k, hrest, fun value s hs => ?_⟩
        rw [run, hs, if_neg hp, hk value s hs]
  | fail => cases h
  | _ => simp [plain] at hr

/-! ### The attempt at an array type -/

/-- A data type is an attempt at an array type, and then one type or the other from where the
attempt began. -/
theorem dataType_eq :
    dataType = .foresee arrayForm (inOrder [scalarType false, ranges, charset])
      (scalarType true) := rfl

/-- An attempt at an array type and the reading that follows it, at any place and for any way to
read values. The attempt reads no value, so it takes no level of nesting. Whether it succeeds or
not, it leaves the state as it was: the place, what was found and repaired, and the number of
attempts under way. So a data type is read from where the attempt began. If the attempt succeeds,
then reading the type and the bracket for good succeeds, repairs nothing and ends at the place that
the attempt had come to. -/
theorem arrayForm_foresees (value : Nat → State → Outcome) (s : State) :
    (∀ value', arrayForm.run value' s.enter = arrayForm.run value s.enter) ∧
    s.leave (arrayForm.run value s.enter).state = s ∧
    dataType.run value s = (if (arrayForm.run value s.enter).isOk
      then (inOrder [scalarType false, ranges, charset]).run value s
      else (scalarType true).run value s) ∧
    ∀ t, arrayForm.run value s.enter = .ok t →
      ∃ u w, (scalarType false).run value s = .ok u ∧ u.expect .leftBracket = .ok w ∧
        u.repairs = s.repairs ∧ w.repairs = s.repairs ∧ w.before = t.before ∧
        w.after = t.after := by
  have hplain : arrayForm.plain = true := rfl
  have hlevels : ∀ value', arrayForm.run value' s.enter = arrayForm.run value s.enter :=
    fun value' => run_eq_of_ground (ground_of_plain hplain) value' value s.enter
  have hleave : s.leave (arrayForm.run value s.enter).state = s := by
    rw [← hlevels (readValue 0)]
    exact leave_run 0 arrayForm s
  refine ⟨hlevels, hleave, ?_, ?_⟩
  · rw [dataType_eq, run]
    simp only [hleave]
  · intro t ht
    have hstrict : arrayForm.strict s.enter.after = some t.after :=
      strict_of_run hplain value (Nat.succ_pos _) ht
    obtain ⟨mid, hscalar, hbracket⟩ := Option.bind_eq_some_iff.1 hstrict
    obtain ⟨j, rfl, hj⟩ := exists_takeMany (r := scalarType false) rfl hscalar
    obtain ⟨k, -, hk⟩ := exists_takeMany (r := .expect .leftBracket) rfl hbracket
    have hu : (takeMany j s).after = s.after.drop j := after_takeMany j s
    -- Under the attempt the same tokens are passed.
    have hsame : t = (takeMany k (takeMany j s)).enter := by
      have hrun : arrayForm.run value s.enter = .ok (takeMany k (takeMany j s.enter)) := by
        rw [arrayForm, run, hj value s.enter rfl, Outcome.ok_andThen]
        exact hk value _ (after_takeMany j s.enter)
      rw [ht] at hrun
      rw [Outcome.ok.inj hrun, takeMany_enter, takeMany_enter]
    refine ⟨takeMany j s, takeMany k (takeMany j s), hj value s rfl, hk value _ hu, ?_, ?_, ?_, ?_⟩
    · exact repairs_takeMany j s
    · rw [repairs_takeMany, repairs_takeMany]
    · rw [hsame]
      rfl
    · rw [hsame]
      rfl

/-- `DECIMAL(10, -2)[1:4]` in front of a closing parenthesis. The last bound is written together
with its colon, as one token. -/
def decimalArray : List Token :=
  [⟨.keyword .decimal, "DECIMAL".toList, 0⟩, ⟨.leftParen, ['('], 7⟩,
    ⟨.integer false, ['1', '0'], 8⟩, ⟨.comma, [','], 10⟩, ⟨.integer true, ['-', '2'], 12⟩,
    ⟨.rightParen, [')'], 14⟩, ⟨.leftBracket, ['['], 15⟩, ⟨.integer false, ['1'], 16⟩,
    ⟨.identifier [':', '4'], [':', '4'], 17⟩, ⟨.rightBracket, [']'], 19⟩,
    ⟨.rightParen, [')'], 20⟩]

/-- The attempt at `DECIMAL(10, -2)[1:4]` comes to the lower bound, and so does reading for good,
without a repair. -/
theorem arrayForm_foresees_decimal :
    ∃ u w, (scalarType false).run (readValue 3) (.initial decimalArray 21) = .ok u ∧
      u.expect .leftBracket = .ok w ∧ w.repairs = [] ∧ w.after = decimalArray.drop 7 := by
  obtain ⟨-, -, -, hforesees⟩ := arrayForm_foresees (readValue 3) (.initial decimalArray 21)
  have hattempt : arrayForm.run (readValue 3) (State.initial decimalArray 21).enter
      = .ok (takeMany 7 (State.initial decimalArray 21).enter) := by decide +kernel
  obtain ⟨u, w, hu, hw, -, hrepairs, -, hafter⟩ := hforesees _ hattempt
  exact ⟨u, w, hu, hw, hrepairs, hafter⟩

end GeneratedKeys
