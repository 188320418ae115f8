import GeneratedKeys.Statement.Parse

/-!
# `GeneratedKeys.Statement.Invariant`: what reading a rule keeps

`Rule.run` and `readValue` are built from a few steps: passing tokens, expecting one,
keeping a part, settling the type, and making an attempt. A relation between the places
before and after that holds for these steps holds for reading any rule. The relation is
asked of both ends of reading, so it also tells what a rule leaves behind that stopped.

* `run_relates` is the induction over the rules, and `readValue_relates` the one over
  the levels of nesting.
* `tokens_read`: reading loses and adds no token.
* `attempts_read`: the attempts under way are the same before and after.
* `position_le_read`: reading never ends before the place where it began.
-/

set_option autoImplicit false

namespace GeneratedKeys

/-- A relation between the places before and after that every step of reading keeps. There is one
field for each kind of step, so an invariant of reading is proved by looking at single steps only.
-/
structure StepRelation (P : State → State → Prop) : Prop where
  refl : ∀ s, P s s
  trans : ∀ {s t u}, P s t → P t u → P s u
  take : ∀ s, P s s.take
  expect : ∀ kind s, P s (s.expect kind).state
  skip : ∀ s, P s s.skip
  record : ∀ part range s, P s (s.record part range)
  declare : ∀ type s, P s (s.declare type)
  defaults : ∀ s, P s s.noteDefaults
  /-- An attempt is made one level further in, and its place is given up. -/
  attempt : ∀ {s t}, P s.enter t → P s (s.leave t)
  /-- The parts found are put back to those at the start. -/
  restore : ∀ {s t : State}, P s t → P s { t with found := s.found }

namespace StepRelation

variable {P : State → State → Prop}

/-- Reading one thing after the other keeps the relation if both do. If the first one stops, the
relation up to there is all that is needed. -/
theorem andThen (hP : StepRelation P) {s : State} {o : Outcome} {next : State → Outcome}
    (first : P s o.state) (second : ∀ t, P t (next t).state) : P s (o.andThen next).state := by
  cases o with
  | ok t => exact hP.trans first (second t)
  | stop e t => exact first

/-- A repetition keeps the relation if its body does. The induction is on the rounds that are
allowed. -/
theorem repeatWhile (hP : StepRelation P) (test : TokenKind → Bool) {step : State → Outcome}
    (body : ∀ s, P s (step s).state) (rounds : Nat) (s : State) :
    P s (GeneratedKeys.repeatWhile test step rounds s).state := by
  induction rounds generalizing s with
  | zero => exact hP.refl s
  | succ rounds ih =>
    rw [GeneratedKeys.repeatWhile]
    split
    · exact hP.andThen (body s) ih
    · exact hP.refl s

/-- Reading any rule keeps the relation if reading values does. This is the one induction on rules
by which all invariants of reading are proved. -/
theorem run_relates (hP : StepRelation P) {value : Nat → State → Outcome}
    (values : ∀ power s, P s (value power s).state) (r : Rule) (s : State) :
    P s (r.run value s).state := by
  induction r generalizing s with
  | empty => exact hP.refl s
  | seq first second ih₁ ih₂ => exact hP.andThen (ih₁ s) ih₂
  | expect kind => exact hP.expect kind s
  | take => exact hP.take s
  | fail wanted => exact hP.refl s
  | branch tests yes no ihy ihn =>
    rw [Rule.run]
    split
    · exact ihy s
    · exact ihn s
  | foresee attempt yes no iha ihy ihn =>
    -- An attempt is left again, so what is read behind it starts from the place in front of it.
    have back := hP.attempt (iha s.enter)
    simp only [Rule.run]
    split
    · exact hP.trans back (ihy _)
    · exact hP.trans back (ihn _)
  | repeatWhile test body ih => exact hP.repeatWhile test ih s.after.length s
  | value power => exact values power s
  | skip => exact hP.skip s
  | record part body ih => exact hP.andThen (ih s) fun t => hP.record part (s.rangeFrom t) t
  | together body ih =>
    have read := ih s
    rw [Rule.run]
    split
    · next h => rwa [h] at read
    · next h =>
      -- A body that stops drops what it has kept, and nothing else.
      rw [h] at read
      exact hP.restore read
  | declare type => exact hP.declare type s
  | defaults => exact hP.defaults s
  | finish =>
    rw [Rule.run]
    split <;> exact hP.refl s

/-- Reading a value keeps the relation, however many levels of nesting are left. -/
theorem readValue_relates (hP : StepRelation P) (levels power : Nat) (s : State) :
    P s (readValue levels power s).state := by
  induction levels generalizing power s with
  | zero => exact hP.refl s
  | succ levels ih => exact hP.run_relates ih (Grammar.value power) s

/-- Reading a rule of a statement keeps the relation, by `readValue_relates` for the values inside
it. -/
theorem read_relates (hP : StepRelation P) (r : Rule) (s : State) : P s (r.read s).state :=
  hP.run_relates (hP.readValue_relates nestingLimit) r s

end StepRelation

namespace State

/-- Keeping a part leaves the tokens alone, in an attempt and outside. -/
@[simp] theorem tokens_record (p : Part) (range : Span) (s : State) :
    (s.record p range).tokens = s.tokens := by
  unfold record
  split <;> rfl

/-- Settling the type leaves the tokens alone. -/
@[simp] theorem tokens_declare (t : StatementType) (s : State) :
    (s.declare t).tokens = s.tokens := by
  unfold declare
  split <;> rfl

/-- Noting default values leaves the tokens alone. -/
@[simp] theorem tokens_noteDefaults (s : State) : s.noteDefaults.tokens = s.tokens := by
  unfold noteDefaults
  split <;> rfl

/-- Passing a token begins and ends no attempt. -/
@[simp] theorem attempts_take (s : State) : s.take.attempts = s.attempts := by
  unfold take
  split <;> rfl

/-- Nor does passing several, by induction on how many. -/
@[simp] theorem attempts_takeMany (n : Nat) (s : State) :
    (takeMany n s).attempts = s.attempts := by
  induction n generalizing s with
  | zero => rfl
  | succ n ih => rw [takeMany, ih, attempts_take]

/-- Expecting a token begins and ends no attempt, whichever of its three ways it goes. -/
theorem attempts_expect (wanted : TokenKind) (s : State) :
    (s.expect wanted).state.attempts = s.attempts := by
  unfold expect
  split <;> split <;> try split
  all_goals simp [Outcome.state, repair]

/-- Keeping a part begins and ends no attempt. -/
@[simp] theorem attempts_record (p : Part) (range : Span) (s : State) :
    (s.record p range).attempts = s.attempts := by
  unfold record
  split <;> rfl

/-- Settling the type begins and ends no attempt. -/
@[simp] theorem attempts_declare (t : StatementType) (s : State) :
    (s.declare t).attempts = s.attempts := by
  unfold declare
  split <;> rfl

/-- Noting default values begins and ends no attempt. -/
@[simp] theorem attempts_noteDefaults (s : State) : s.noteDefaults.attempts = s.attempts := by
  unfold noteDefaults
  split <;> rfl

/-- Passing a token moves forward, or stays at the end, where there is none to pass. -/
theorem position_le_take (s : State) : s.position ≤ s.take.position := by
  unfold take position
  split <;> simp

/-- Passing several does as well, as each of them does. -/
theorem position_le_takeMany (n : Nat) (s : State) : s.position ≤ (takeMany n s).position := by
  induction n generalizing s with
  | zero => exact Nat.le_refl _
  | succ n ih => exact Nat.le_trans (position_le_take s) (ih s.take)

/-- Expecting a token never moves backward. A stray token that is dropped is passed like any other.
-/
theorem position_le_expect (wanted : TokenKind) (s : State) :
    s.position ≤ (s.expect wanted).state.position := by
  unfold expect
  split
  · split
    · exact Nat.le_refl _
    · exact Nat.le_refl _
  · split
    · exact position_le_take s
    · split
      · exact position_le_takeMany 2 (s.repair _)
      · exact Nat.le_refl _

end State

/-- No step loses or adds a token. By `run_relates` the same holds of every rule, whatever it
repairs or tries. -/
theorem stepRelation_tokens : StepRelation fun s t => t.tokens = s.tokens where
  refl _ := rfl
  trans h₁ h₂ := h₂.trans h₁
  take := State.tokens_take
  expect kind s := State.tokens_expect kind s
  skip s := State.tokens_takeMany _ s
  record part range s := State.tokens_record part range s
  declare type s := State.tokens_declare type s
  defaults := State.tokens_noteDefaults
  attempt _ := rfl
  restore h := h

/-- Every step ends as many attempts as it begins. Inside an attempt more are under way, and none of
them outlasts it. -/
theorem stepRelation_attempts : StepRelation fun s t => t.attempts = s.attempts where
  refl _ := rfl
  trans h₁ h₂ := h₂.trans h₁
  take := State.attempts_take
  expect kind s := State.attempts_expect kind s
  skip s := State.attempts_takeMany _ s
  record part range s := State.attempts_record part range s
  declare type s := State.attempts_declare type s
  defaults := State.attempts_noteDefaults
  attempt h := by
    simp only [State.enter] at h
    simp only [State.leave, h]
    omega
  restore h := h

/-- No step returns to an earlier place. An attempt as a whole is one step here, since it goes back
to its own beginning. -/
theorem stepRelation_position : StepRelation fun s t => s.position ≤ t.position where
  refl _ := Nat.le_refl _
  trans := Nat.le_trans
  take := State.position_le_take
  expect kind s := State.position_le_expect kind s
  skip s := State.position_le_takeMany _ s
  -- The notes change what is known, and the place stays.
  record part range s := by
    unfold State.record
    split <;> exact Nat.le_refl _
  declare type s := by
    unfold State.declare
    split <;> exact Nat.le_refl _
  defaults s := by
    unfold State.noteDefaults
    split <;> exact Nat.le_refl _
  attempt _ := Nat.le_refl _
  restore h := h

namespace Rule

/-- Reading loses and adds no token, whether it succeeds, repairs, attempts or stops. -/
theorem tokens_read (r : Rule) (s : State) : (r.read s).state.tokens = s.tokens :=
  stepRelation_tokens.read_relates r s

/-- The attempts under way are the same before and after. So a rule that is read outside attempts
ends outside them, and its parts are kept. -/
theorem attempts_read (r : Rule) (s : State) : (r.read s).state.attempts = s.attempts :=
  stepRelation_attempts.read_relates r s

/-- Reading never ends before the place where it began. An attempt goes back to its own beginning,
and not further. -/
theorem position_le_read (r : Rule) (s : State) : s.position ≤ (r.read s).state.position :=
  stepRelation_position.read_relates r s

end Rule

end GeneratedKeys
