import GeneratedKeys.Proofs.Reading.Reads

/-!
# `GeneratedKeys.Proofs.Reading.Levels`: the nesting limit only cuts off

The number of levels left is the measure by which reading a value ends. It decides
nothing else: with fewer levels a rule is read exactly as with more, or reading stops
because the values are nested too deep. Where it stops for that reason, reading with more
levels has come past this place.

* `run_cutOff`: the two runs of a rule are related in this sense.
* `readValue_levels`: what remains of it for a value if the place does not matter.
-/

set_option autoImplicit false

namespace GeneratedKeys

namespace Outcome

/-- Whether reading stopped because values are nested too deep. The place is left open. -/
def TooDeep (o : Outcome) : Prop :=
  ∃ place t, o = .stop (.tooDeep nestingLimit place) t

/-- The outcome with fewer levels is that with more, unless the values are nested too
deep for it. -/
def Agrees (fewer more : Outcome) : Prop :=
  fewer = more ∨ TooDeep fewer

/-- The outcome with fewer levels is that with more, or it is reached earlier since the values
are nested too deep. -/
def CutOff (fewer more : Outcome) : Prop :=
  fewer = more ∨ (TooDeep fewer ∧ fewer.state.position ≤ more.state.position)

/-- An outcome is itself cut off nowhere. Rules without values are compared by this. -/
theorem cutOff_refl (o : Outcome) : CutOff o o := Or.inl rfl

/-- Stopping at the limit is what it means that values are nested too deep. -/
theorem tooDeep_stop (place : Span) (t : State) :
    TooDeep (.stop (.tooDeep nestingLimit place) t) := ⟨place, t, rfl⟩

/-- Cut off at the same place or earlier, the outcome agrees, once the place is left out. -/
theorem CutOff.agrees {o o' : Outcome} (h : CutOff o o') : Agrees o o' :=
  h.imp_right And.left

/-- What goes on behind is cut off if it is so from every place, and if it does not go back. -/
theorem CutOff.andThen {o o' : Outcome} {next next' : State → Outcome} (h : CutOff o o')
    (hnext : ∀ s, CutOff (next s) (next' s))
    (hposition : ∀ s, s.position ≤ (next' s).state.position) :
    CutOff (o.andThen next) (o'.andThen next') := by
  rcases h with rfl | ⟨⟨place, t, rfl⟩, hearlier⟩
  · cases o with
    | ok s => exact hnext s
    | stop e s => exact cutOff_refl _
  · refine Or.inr ⟨tooDeep_stop place t, ?_⟩
    -- What is read behind the cut goes on from a place further on.
    cases o' with
    | ok s => exact Nat.le_trans hearlier (hposition s)
    | stop e s => exact hearlier

end Outcome

open Outcome

/-- A repetition is cut off if its body is, in the first round in which that happens. -/
theorem cutOff_repeatWhile (test : TokenKind → Bool) {step step' : State → Outcome}
    (h : ∀ s, CutOff (step s) (step' s)) (hposition : ∀ s, s.position ≤ (step' s).state.position)
    (rounds : Nat) (s : State) :
    CutOff (repeatWhile test step rounds s) (repeatWhile test step' rounds s) := by
  induction rounds generalizing s with
  | zero => exact cutOff_refl _
  | succ rounds ih =>
      rw [repeatWhile, repeatWhile]
      split
      · exact (h s).andThen ih (stepRelation_position.repeatWhile test hposition rounds)
      · exact cutOff_refl _

/-- One run of a rule is the other one cut off if that holds of values. -/
theorem cutOff_run {v v' : Nat → State → Outcome}
    (hv : ∀ power s, CutOff (v power s) (v' power s))
    (hposition : ∀ power s, s.position ≤ (v' power s).state.position) (r : Rule)
    (hr : r.steady = true) (s : State) : CutOff (r.run v s) (r.run v' s) := by
  induction r generalizing s with
  | seq first second ih₁ ih₂ =>
      simp only [Rule.steady, Bool.and_eq_true] at hr
      exact (ih₁ hr.1 s).andThen (ih₂ hr.2) (stepRelation_position.run_relates hposition second)
  | branch tests yes no ihy ihn =>
      simp only [Rule.steady, Bool.and_eq_true] at hr
      rw [Rule.run, Rule.run]
      split
      · exact ihy hr.1 s
      · exact ihn hr.2 s
  | foresee attempt yes no _ ihy ihn =>
      simp only [Rule.steady, Bool.and_eq_true] at hr
      -- The attempt reads no value, so it decides the same way in both runs.
      have hattempt := Rule.run_eq_of_ground (Rule.ground_of_plain hr.1.1) v v' s.enter
      simp only [Rule.run, hattempt]
      split
      · exact ihy hr.1.2 _
      · exact ihn hr.2 _
  | repeatWhile test body ih =>
      simp only [Rule.steady, Bool.and_eq_true] at hr
      exact cutOff_repeatWhile test (ih hr.2) (stepRelation_position.run_relates hposition body) _ s
  | value power => exact hv power s
  | record part body ih =>
      simp only [Rule.steady, Bool.and_eq_true] at hr
      exact (ih hr.2 s).andThen (fun t => cutOff_refl _)
        (fun t => stepRelation_position.record part (s.rangeFrom t) t)
  | together body ih =>
      rw [Rule.run, Rule.run]
      -- What is kept is undone in both runs alike if the body fails.
      rcases ih hr s with h | ⟨⟨place, t, h⟩, hearlier⟩
      · rw [h]
        exact cutOff_refl _
      · rw [h] at hearlier ⊢
        refine Or.inr ⟨tooDeep_stop place _, ?_⟩
        generalize body.run v' s = o' at hearlier
        cases o' with
        | ok u => exact hearlier
        | stop e u => exact hearlier
  | _ => exact cutOff_refl _

/-- With fewer levels a value is read as with more, or it is cut off. -/
theorem readValue_cutOff {n m : Nat} (h : n ≤ m) (power : Nat) (s : State) :
    CutOff (readValue n power s) (readValue m power s) := by
  induction n generalizing m power s with
  | zero =>
      exact Or.inr ⟨tooDeep_stop s.next.span s, stepRelation_position.readValue_relates m power s⟩
  | succ n ih =>
      -- Both have a level to spend on the operators of this value.
      obtain ⟨m, rfl⟩ : ∃ m', m = m' + 1 := ⟨m - 1, by omega⟩
      exact cutOff_run (fun power s => ih (Nat.le_of_succ_le_succ h) power s)
        (stepRelation_position.readValue_relates m) (Grammar.value power) rfl s

/-- With fewer levels a value is read as with more, or it is nested too deep. So a value that is
read at all is read the same with any greater limit. -/
theorem readValue_levels {n m : Nat} (h : n ≤ m) (power : Nat) (s : State) :
    Agrees (readValue n power s) (readValue m power s) :=
  (readValue_cutOff h power s).agrees

/-- With fewer levels a rule is read as with more, or its values are cut off. The cut is then no
further on than where reading with more levels comes to. -/
theorem run_cutOff {n m : Nat} (h : n ≤ m) {r : Rule} (hr : r.steady = true) (s : State) :
    CutOff (r.run (readValue n) s) (r.run (readValue m) s) :=
  cutOff_run (readValue_cutOff h) (stepRelation_position.readValue_relates m) r hr s

end GeneratedKeys
