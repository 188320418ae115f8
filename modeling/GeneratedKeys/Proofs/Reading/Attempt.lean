import GeneratedKeys.Statement.Invariant

/-!
# `GeneratedKeys.Proofs.Reading.Attempt`: attempts are tests

The one attempt of the grammar asks whether a data type is an array. During an attempt
nothing is repaired and nothing is kept, so the attempt amounts to a test on the tokens
ahead: it succeeds exactly if its rule can be read as it stands.

* `Rule.strict` is that test, for rules that are `plain`.
* `Rule.leave_run`: an attempt returns to the state it began in.
* `Rule.run_foresee`: reading a rule with an attempt is a branch on the test.

A plain rule reads no value, and neither does any `ground` rule.
-/

set_option autoImplicit false

namespace GeneratedKeys

namespace Rule

/-! ### Plain rules -/

/-- Whether a rule is made of tokens, tests and sequences only. Such a rule takes a bounded number
of tokens, and `strict` says which. -/
def plain : Rule → Bool
  | empty | expect _ | take | fail _ => true
  | seq first second => first.plain && second.plain
  | branch _ yes no => yes.plain && no.plain
  | _ => false

/-- Whether a rule refers to no value. How deep values may be nested does not matter for such a
rule. -/
def ground : Rule → Bool
  | seq first second => first.ground && second.ground
  | branch _ yes no => yes.ground && no.ground
  | foresee attempt yes no => attempt.ground && yes.ground && no.ground
  | repeatWhile _ body | record _ body | together body => body.ground
  | value _ => false
  | _ => true

/-- What a plain rule leaves of the tokens ahead if it needs no repair. It is the rule as a function
on tokens, without a state. -/
def strict : Rule → List Token → Option (List Token)
  | empty, ts => some ts
  | seq first second, ts => (first.strict ts).bind second.strict
  | expect kind, t :: ts => if t.kind.sameClass kind then some ts else none
  | take, ts => some ts.tail
  | branch tests yes no, ts => if State.passes tests ts then yes.strict ts else no.strict ts
  | _, _ => none

/-- A plain rule refers to no value, as it is made of tokens, tests and sequences only. -/
theorem ground_of_plain {r : Rule} (hr : r.plain = true) : r.ground = true := by
  induction r with
  | seq _ _ ih₁ ih₂ | branch _ _ _ ih₁ ih₂ =>
      simp only [plain, Bool.and_eq_true] at hr
      rw [ground, ih₁ hr.1, ih₂ hr.2]
      rfl
  | empty | expect | take | fail => rfl
  | _ => simp [plain] at hr

/-- A ground rule does not ask how values are read, so any two ways to read them give the same. -/
theorem run_eq_of_ground {r : Rule} (hr : r.ground = true) (v v' : Nat → State → Outcome)
    (s : State) : r.run v s = r.run v' s := by
  induction r generalizing s with
  | seq first second ih₁ ih₂ =>
      simp only [ground, Bool.and_eq_true] at hr
      -- Both runs end the first part at one place, so the second part starts alike.
      rw [run, run, ih₁ hr.1 s]
      cases first.run v' s with
      | ok t => exact ih₂ hr.2 t
      | stop e t => rfl
  | branch tests yes no ihy ihn =>
      simp only [ground, Bool.and_eq_true] at hr
      rw [run, run, ihy hr.1, ihn hr.2]
  | foresee attempt yes no iha ihy ihn =>
      simp only [ground, Bool.and_eq_true] at hr
      simp only [run, iha hr.1.1, ihy hr.1.2, ihn hr.2]
  | repeatWhile test body ih =>
      rw [run, run, show body.run v = body.run v' from funext (ih hr)]
  | record part body ih => rw [run, run, ih hr]
  | together body ih => rw [run, run, ih hr]
  | value => cases hr
  | _ => rfl

end Rule

namespace State

/-- The relation of two places between which no trace is left. The size of the text stays in any
case. While an attempt is under way nothing more is found or repaired, and no attempt begins that
does not end. -/
def Untraced (s t : State) : Prop :=
  t.size = s.size ∧ (0 < s.attempts → t.attempts = s.attempts ∧ t.found = s.found ∧
    t.repairs = s.repairs)

/-- No trace is left between a place and itself. Rules that pass nothing are done by this. -/
theorem untraced_refl (s : State) : Untraced s s := ⟨rfl, fun _ => ⟨rfl, rfl, rfl⟩⟩

/-- If no trace is left on either of two ways, none is left on the whole way. -/
theorem Untraced.trans {s t u : State} (h₁ : Untraced s t) (h₂ : Untraced t u) :
    Untraced s u := by
  refine ⟨h₂.1.trans h₁.1, fun h => ?_⟩
  obtain ⟨ha, hf, hp⟩ := h₁.2 h
  obtain ⟨ha', hf', hp'⟩ := h₂.2 (by omega)
  exact ⟨ha'.trans ha, hf'.trans hf, hp'.trans hp⟩

/-- Passing a token leaves no trace of it in what was found and repaired. -/
theorem untraced_take (s : State) : Untraced s s.take := by
  unfold take
  split <;> exact ⟨rfl, fun _ => ⟨rfl, rfl, rfl⟩⟩

/-- Passing several tokens leaves no trace either: nothing is kept and nothing repaired. -/
theorem untraced_takeMany (n : Nat) (s : State) : Untraced s (takeMany n s) := by
  induction n generalizing s with
  | zero => exact untraced_refl s
  | succ n ih => exact (untraced_take s).trans (ih s.take)

/-- Asking for a token leaves no trace while an attempt is under way, since nothing is repaired
then. -/
theorem untraced_expect (wanted : TokenKind) (s : State) :
    Untraced s (s.expect wanted).state := by
  unfold expect
  split
  · split
    · next h => exact ⟨rfl, fun hs => by omega⟩
    · exact untraced_refl s
  · split
    · exact untraced_take s
    · split
      · next h =>
        exact ⟨(untraced_takeMany 2 (s.repair _)).1, fun hs => by omega⟩
      · exact untraced_refl s

end State

/-- An attempt under way leaves no trace, and every step leaves the size as it is. -/
theorem stepRelation_untraced : StepRelation State.Untraced where
  refl := State.untraced_refl
  trans := State.Untraced.trans
  take := State.untraced_take
  expect := State.untraced_expect
  skip s := State.untraced_takeMany _ s
  record part range s := by
    unfold State.record
    split
    · exact ⟨rfl, fun h => by omega⟩
    · exact State.untraced_refl s
  declare type s := by
    unfold State.declare
    split
    · exact ⟨rfl, fun h => by omega⟩
    · exact State.untraced_refl s
  defaults s := by
    unfold State.noteDefaults
    split
    · exact ⟨rfl, fun h => by omega⟩
    · exact State.untraced_refl s
  attempt := by
    intro s t h
    -- What happens inside the attempt happens under one attempt more.
    refine ⟨h.1, fun _ => ?_⟩
    obtain ⟨ha, hf, hp⟩ := h.2 (Nat.succ_pos _)
    refine ⟨?_, hf, hp⟩
    show t.attempts - 1 = s.attempts
    rw [ha]
    exact Nat.add_sub_cancel s.attempts 1
  restore h := ⟨h.1, fun hs => ⟨(h.2 hs).1, rfl, (h.2 hs).2.2⟩⟩

namespace Rule

/-- An attempt at a rule returns to the state it began in, whether it succeeds or fails: nothing is
kept and nothing repaired meanwhile. -/
theorem leave_run (n : Nat) (attempt : Rule) (s : State) :
    s.leave (attempt.run (readValue n) s.enter).state = s := by
  have trace := stepRelation_untraced.run_relates
    (stepRelation_untraced.readValue_relates n) attempt s.enter
  obtain ⟨hsize, htrace⟩ := trace
  obtain ⟨ha, hf, hp⟩ := htrace (Nat.succ_pos _)
  have hatt : (attempt.run (readValue n) s.enter).state.attempts - 1 = s.attempts := by
    rw [ha]
    exact Nat.add_sub_cancel s.attempts 1
  cases s with
  | mk before after size found repairs attempts =>
      simp only [State.leave, State.mk.injEq, true_and]
      exact ⟨hsize, hf, hp, hatt⟩

/-- During an attempt a plain rule reads what it reads without repairs. -/
theorem run_of_strict {r : Rule} (hr : r.plain = true) (v : Nat → State → Outcome) {s : State}
    (hs : 0 < s.attempts) {rest : List Token} (h : r.strict s.after = some rest) :
    ∃ t, r.run v s = .ok t ∧ t.after = rest ∧ t.attempts = s.attempts := by
  induction r generalizing s rest with
  | empty => exact ⟨s, rfl, Option.some.inj h, rfl⟩
  | seq first second ih₁ ih₂ =>
      simp only [plain, Bool.and_eq_true] at hr
      obtain ⟨mid, h₁, h₂⟩ := Option.bind_eq_some_iff.1 h
      obtain ⟨t, ht, rfl, hta⟩ := ih₁ hr.1 hs h₁
      obtain ⟨u, hu, hur, hua⟩ := ih₂ hr.2 (by omega) h₂
      exact ⟨u, by rw [run, ht]; exact hu, hur, hua.trans hta⟩
  | expect kind =>
      -- No repair is tried during an attempt, so a wanted token is there or the rule fails.
      cases hts : s.after with
      | nil => simp [hts, strict] at h
      | cons t ts =>
          rw [hts, strict] at h
          split at h
          · next hk =>
            cases h
            refine ⟨s.take, ?_, ?_, State.attempts_take s⟩
            · simp [run, State.expect, hts, hk]
            · simp [State.take, hts]
          · cases h
  | take =>
      refine ⟨s.take, rfl, ?_, State.attempts_take s⟩
      rw [strict, Option.some.injEq] at h
      rw [← h, State.take]
      cases hts : s.after <;> simp [hts]
  | branch tests yes no ihy ihn =>
      simp only [plain, Bool.and_eq_true] at hr
      simp only [strict] at h
      rw [run]
      split
      · next hp =>
        rw [if_pos hp] at h
        exact ihy hr.1 hs h
      · next hp =>
        rw [if_neg hp] at h
        exact ihn hr.2 hs h
  | fail => cases h
  | _ => simp [plain] at hr

/-- During an attempt a plain rule reads nothing else than `strict` says, as no repair is made
there. -/
theorem strict_of_run {r : Rule} (hr : r.plain = true) (v : Nat → State → Outcome) {s t : State}
    (hs : 0 < s.attempts) (h : r.run v s = .ok t) : r.strict s.after = some t.after := by
  induction r generalizing s t with
  | empty =>
      cases h
      rfl
  | seq first second ih₁ ih₂ =>
      simp only [plain, Bool.and_eq_true] at hr
      rw [run, Outcome.andThen_eq_ok] at h
      obtain ⟨mid, h₁, h₂⟩ := h
      have hmid := ih₁ hr.1 hs h₁
      -- The first part has not ended the attempt, so the induction goes on behind it.
      obtain ⟨u, hu, -, hua⟩ := run_of_strict hr.1 v hs hmid
      rw [h₁] at hu
      cases hu
      rw [strict, hmid]
      exact ih₂ hr.2 (by omega) h₂
  | expect kind =>
      -- An attempt is under way, so neither repair is made.
      have hs' : s.attempts ≠ 0 := by omega
      rw [run, State.expect] at h
      cases hts : s.after with
      | nil => simp [hts, hs'] at h
      | cons u us =>
          simp only [hts, hs', false_and, if_false] at h
          rw [strict]
          split at h
          · next hk =>
            cases h
            simp [hk, State.take, hts]
          · cases h
  | take =>
      cases h
      rw [strict, State.take]
      cases hts : s.after <;> simp [hts]
  | branch tests yes no ihy ihn =>
      simp only [plain, Bool.and_eq_true] at hr
      rw [run] at h
      rw [strict]
      split at h
      · next hp =>
        rw [if_pos hp]
        exact ihy hr.1 hs h
      · next hp =>
        rw [if_neg hp]
        exact ihn hr.2 hs h
  | fail => cases h
  | _ => simp [plain] at hr

/-- An attempt at a plain rule succeeds exactly if the rule can be read without repairs. -/
theorem isOk_run_enter {r : Rule} (hr : r.plain = true) (v : Nat → State → Outcome) (s : State) :
    (r.run v s.enter).isOk = (r.strict s.after).isSome := by
  -- The attempt itself counts, so repairs are off and the two readings agree.
  have hs : 0 < s.enter.attempts := Nat.succ_pos _
  cases h : r.strict s.after with
  | some rest =>
      obtain ⟨t, ht, -, -⟩ := run_of_strict hr v hs h
      rw [ht]
      rfl
  | none =>
      cases ho : r.run v s.enter with
      | stop e t => rfl
      | ok t =>
          -- A success would be a reading without repairs, and there is none.
          have := strict_of_run hr v hs ho
          rw [show s.enter.after = s.after from rfl, h] at this
          cases this

/-- Outside values an attempt is a test on the tokens ahead, by `strict`. The grammar can then be
read as one that looks ahead and never goes back. -/
theorem run_foresee (n : Nat) {attempt : Rule} (hplain : attempt.plain = true) (yes no : Rule)
    (s : State) :
    (foresee attempt yes no).run (readValue n) s =
      if (attempt.strict s.after).isSome = true then yes.run (readValue n) s
      else no.run (readValue n) s := by
  rw [← isOk_run_enter hplain (readValue n), run]
  show (if _ then yes.run (readValue n) (s.leave _) else no.run (readValue n) (s.leave _)) = _
  rw [leave_run]

end Rule

end GeneratedKeys
