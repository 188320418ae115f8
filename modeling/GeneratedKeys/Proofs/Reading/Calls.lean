import GeneratedKeys.Proofs.Reading.Nests
import GeneratedKeys.Proofs.Text.Rounds
import Mathlib.Data.Prod.Lex
import Mathlib.Logic.Relation

/-!
# `GeneratedKeys.Proofs.Reading.Calls`: reading as calls of tasks

To read a rule at a place is a task, and a task calls others: for the parts of its rule, for a value
that begins here, and for the next round of a repetition. What a task does is written down as its
`code`. The code sets no bound on the rounds of a repetition, and it counts the open values the way
a machine does: the count is raised where a value begins, handed from task to task, and lowered
where the value ends. So nothing in the code says that a task ends, or that it ends with the count
that it began with.

That it does is proved with a measure: the levels of nesting left, the tokens ahead and the size of
the rule, in this order. Every call lowers it. A repetition calls itself only after its body has
passed a token, which is what `steady` and `guarded` rules are made for.

* `Code.Returns`, `Code.Calls`: what a code replies, and which tasks it calls on the way.
* `Task.settles_code`: what single calls come to, one case for each kind of rule.
* `Task.Sound.returns_iff`: a task has one reply, which is what reading with the levels left gives.
* `Task.Sound.leads`: every call leaves less to do.
* `Task.Sound.depth_lt`, `Task.Sound.shrinks`: values inside values and rounds of a repetition.
-/

set_option autoImplicit false

namespace GeneratedKeys

/-- A rule to be read at a place, when `depth` values are open. It is one call of the reading
function, with its arguments. -/
structure Task where
  depth : Nat
  rule : Rule
  state : State

/-- How reading ended, and how many values are open then. The depth is part of it, so that restoring
it can be proved and is not assumed. -/
structure Reply where
  outcome : Outcome
  depth : Nat

/-- What is done for a task: it is replied to, or another task is called, and what comes next
depends on the reply to that. -/
inductive Code where
  | done (r : Reply)
  | call (x : Task) (next : Reply → Code)

/-- After a reply another rule is read, unless reading stopped. The second call gets the depth of
the reply. -/
def Reply.thenRead (r : Reply) (second : Rule) : Code :=
  match r.outcome with
  | .ok t => .call ⟨r.depth, second, t⟩ .done
  | .stop _ _ => .done r

/-- What is done for a task. A rule that has no parts is read at once. -/
def Task.code (x : Task) : Code :=
  match x.rule with
  | .seq first second => .call { x with rule := first } fun r => r.thenRead second
  | .branch tests yes no =>
    .call { x with rule := if State.passes tests x.state.after then yes else no } .done
  | .foresee attempt yes no =>
    .call ⟨x.depth, attempt, x.state.enter⟩ fun r =>
      .call ⟨r.depth, if r.outcome.isOk then yes else no, x.state.leave r.outcome.state⟩ .done
  | .repeatWhile test body =>
    if State.passes [test] x.state.after then
      .call { x with rule := body } fun r => r.thenRead (.repeatWhile test body)
    else .done ⟨.ok x.state, x.depth⟩
  | .value power =>
    if nestingLimit ≤ x.depth then
      .done ⟨.stop (.tooDeep nestingLimit x.state.next.span) x.state, x.depth⟩
    else
      .call ⟨x.depth + 1, Grammar.value power, x.state⟩ fun r => .done ⟨r.outcome, r.depth - 1⟩
  | .record part body =>
    .call { x with rule := body } fun r =>
      .done ⟨r.outcome.andThen fun t => .ok (t.record part (x.state.rangeFrom t)), r.depth⟩
  | .together body =>
    .call { x with rule := body } fun r =>
      match r.outcome with
      | .ok _ => .done r
      | .stop e t => .done ⟨.stop e { t with found := x.state.found }, r.depth⟩
  | leaf => .done ⟨leaf.run (readValue 0) x.state, x.depth⟩

/-! ### Replies and calls -/

/-- The code is replied to with `r`, as every task that it calls is replied to. -/
inductive Code.Returns : Code → Reply → Prop where
  | done {r : Reply} : Returns (.done r) r
  | call {x : Task} {next : Reply → Code} {r r' : Reply} :
      Returns x.code r → Returns (next r) r' → Returns (.call x next) r'

/-- The code calls a task, once the calls before are replied to. A call that is never replied to
keeps the later ones from being made. -/
inductive Code.Calls : Code → Task → Prop where
  | first {x : Task} {next : Reply → Code} : Calls (.call x next) x
  | later {x y : Task} {next : Reply → Code} {r : Reply} :
      Returns x.code r → Calls (next r) y → Calls (.call x next) y

/-- There is one reply at most, by induction on how it came about: each call on the way has one
reply. -/
theorem Code.Returns.unique {c : Code} {r r' : Reply} (h : c.Returns r) (h' : c.Returns r') :
    r = r' := by
  induction h generalizing r' with
  | done =>
      cases h'
      rfl
  | call _ _ ih₁ ih₂ =>
      cases h' with
      | call hfirst hrest =>
          rw [ih₁ hfirst] at ih₂
          exact ih₂ hrest

/-- How many values a rule opens for the rules that it calls. Only a value opens one, and closes it
again before it replies. -/
def Rule.opens : Rule → Nat
  | .value _ => 1
  | _ => 0

/-- How many rules a rule is made of, the least ones aside. It decreases from a rule to its parts
and bounds the calls between two tokens. -/
def Rule.size : Rule → Nat
  | .seq first second => first.size + second.size + 1
  | .branch _ yes no => yes.size + no.size + 1
  | .foresee attempt yes no => attempt.size + yes.size + no.size + 1
  | .repeatWhile _ body | .record _ body | .together body => body.size + 1
  | _ => 0

/-- A rule can be read at a place. It is plain, or else no attempt is under way there and the tokens
that it takes were tested. -/
def Rule.Fits (r : Rule) (s : State) : Prop :=
  r.plain = true ∨ (r.steady = true ∧ s.attempts = 0 ∧
    ∃ tested ≤ s.after.length, r.guarded tested = true)

namespace Task

/-- What is done for one task calls the other. This is the relation that has to be well-founded for
reading to end. -/
def Calls (x y : Task) : Prop :=
  x.code.Calls y

/-- A task is the other one, or calls it, at once or through others. Whatever is proved along it
holds of every call during a reading. -/
def Reaches : Task → Task → Prop :=
  Relation.ReflTransGen Calls

/-- The levels of nesting left, which is the limit less the values that are open. -/
def levels (x : Task) : Nat :=
  nestingLimit - x.depth

/-- What reading with the levels left gives. The depth is the one that the task began with. -/
def answer (x : Task) : Reply :=
  ⟨x.rule.run (readValue x.levels) x.state, x.depth⟩

/-- How much is left to do for a task: the levels of nesting count before the tokens ahead, and
those before the size of the rule. -/
def measure (x : Task) : ℕ ×ₗ ℕ ×ₗ ℕ :=
  toLex (x.levels, toLex (x.state.after.length, x.rule.size))

/-- What is known of the tasks that a statement calls: the depth is within the limit, and the rule
fits the place that it is read at. -/
def Sound (x : Task) : Prop :=
  x.depth ≤ nestingLimit ∧ x.rule.Fits x.state

/-- What holds of a call: the count of open values, what is ahead, and that less is left to do. -/
structure Leads (x y : Task) : Prop where
  sound : y.Sound
  depth_eq : y.depth = x.depth + x.rule.opens
  suffix : y.state.after <:+ x.state.after
  smaller : y.measure < x.measure

/-- Every call of the code leads on, and where the calls are replied to by `answer`, so is the
task. -/
inductive Settles (x : Task) : Code → Prop where
  | done : Settles x (.done x.answer)
  | call {y : Task} {next : Reply → Code} :
      x.Leads y → Settles x (next y.answer) → Settles x (.call y next)

end Task

/-! ### What reading keeps -/

/-- Reading does not go back behind the place where it began: what is ahead then is a last part of
what was. -/
theorem suffix_run (n : Nat) (r : Rule) (s : State) :
    (r.run (readValue n) s).state.after <:+ s.after := by
  have htokens := stepRelation_tokens.run_relates (stepRelation_tokens.readValue_relates n) r s
  have hposition :=
    stepRelation_position.run_relates (stepRelation_position.readValue_relates n) r s
  have hshorter := length_after_le htokens.symm hposition
  refine List.suffix_of_suffix_length_le ?_ (List.suffix_append s.before.reverse s.after) hshorter
  rw [show s.before.reverse ++ s.after = s.tokens from rfl, ← htokens]
  exact List.suffix_append _ _

/-- The same for a rule that was read to its end: what is ahead then is a last stretch of what was
ahead before. -/
theorem suffix_of_run {n : Nat} {r : Rule} {s t : State} (h : r.run (readValue n) s = .ok t) :
    t.after <:+ s.after := by
  have hsuffix := suffix_run n r s
  rwa [h] at hsuffix

/-- As many attempts are under way after reading as before, so a rule that is called outside
attempts replies outside them. -/
theorem attempts_run (n : Nat) (r : Rule) (s : State) :
    (r.run (readValue n) s).state.attempts = s.attempts :=
  stepRelation_attempts.run_relates (stepRelation_attempts.readValue_relates n) r s

/-- What `Reads` says of a rule that was read outside attempts, with as many tokens ahead as its
guards count on. -/
theorem readable_of_guarded {n tested : Nat} {r : Rule} {s t : State} (hr : r.steady = true)
    (hg : r.guarded tested = true) (hs : tested ≤ s.after.length) (h0 : s.attempts = 0)
    (h : r.run (readValue n) s = .ok t) : Readable n r s t :=
  readable_of_run (fun power _ _ => readable_of_readValue n power) r hr tested hg hs h0 h

/-! ### A repetition is a round and a repetition -/

section

variable {test : TokenKind → Bool} {step : State → Outcome}

/-- Where the test fails there is no round, however many are allowed. -/
theorem repeatWhile_over {s : State} (hp : ¬State.passes [test] s.after = true) (rounds : Nat) :
    repeatWhile test step rounds s = .ok s := by
  cases rounds with
  | zero => rfl
  | succ rounds => rw [repeatWhile, if_neg hp]

/-- Rounds that are as many as the tokens ahead are enough, if every round passes a token. -/
theorem repeatWhile_enough
    (hstep : ∀ s t : State, s.attempts = 0 → State.passes [test] s.after = true → step s = .ok t →
      t.attempts = 0 ∧ t.after.length < s.after.length)
    {k m : Nat} {s : State} (h0 : s.attempts = 0) (hk : s.after.length ≤ k)
    (hm : s.after.length ≤ m) : repeatWhile test step k s = repeatWhile test step m s := by
  induction k generalizing m s with
  | zero =>
      -- With no rounds left nothing is ahead, and then the test fails.
      have hs : s.after = [] := List.length_eq_zero_iff.1 (Nat.le_zero.1 hk)
      have hp : ¬State.passes [test] s.after = true := by
        rw [hs]
        exact Bool.false_ne_true
      rw [repeatWhile_over hp, repeatWhile_over hp]
  | succ k ih =>
      by_cases hp : State.passes [test] s.after = true
      · have hpos := State.length_le_of_passes hp
        rw [List.length_singleton] at hpos
        -- The test has seen a token, so the other repetition has a round left as well.
        obtain ⟨m, rfl⟩ : ∃ m', m = m' + 1 := ⟨m - 1, by omega⟩
        rw [repeatWhile, repeatWhile, if_pos hp, if_pos hp]
        cases ht : step s with
        | stop e t => rfl
        | ok t =>
            -- The round passed a token, so one round less is still as many as the tokens ahead.
            obtain ⟨hatt, hlt⟩ := hstep s t h0 hp ht
            exact ih hatt (by omega) (by omega)
      · rw [repeatWhile_over hp, repeatWhile_over hp]

end

/-! ### Rules and their parts -/

namespace Rule.Fits

variable {n : Nat} {s t : State}

/-- The first of two rules can be read where both can be. -/
theorem seq_first {first second : Rule} (h : (Rule.seq first second).Fits s) : first.Fits s := by
  rcases h with hplain | ⟨hr, h0, tested, hs, hg⟩
  · simp only [plain, Bool.and_eq_true] at hplain
    exact .inl hplain.1
  · simp only [steady, guarded, Bool.and_eq_true] at hr hg
    exact .inr ⟨hr.1, h0, tested, hs, hg.1⟩

/-- The second of two rules can be read where the first one has come to. -/
theorem seq_second {first second : Rule} (h : (Rule.seq first second).Fits s)
    (hfirst : first.run (readValue n) s = .ok t) : second.Fits t := by
  rcases h with hplain | ⟨hr, h0, tested, hs, hg⟩
  · simp only [plain, Bool.and_eq_true] at hplain
    exact .inl hplain.2
  · simp only [steady, guarded, Bool.and_eq_true] at hr hg
    have hread := readable_of_guarded hr.1 hg.1 hs h0 hfirst
    exact .inr ⟨hr.2, hread.attempts_eq.trans h0, _, hread.untaken_le hs, hg.2⟩

/-- The branch that the tests choose can be read where the choice can be. -/
theorem branch {tests : List (TokenKind → Bool)} {yes no : Rule}
    (h : (Rule.branch tests yes no).Fits s) :
    (if State.passes tests s.after then yes else no).Fits s := by
  rcases h with hplain | ⟨hr, h0, tested, hs, hg⟩
  · simp only [plain, Bool.and_eq_true] at hplain
    split
    · exact .inl hplain.1
    · exact .inl hplain.2
  · simp only [steady, guarded, Bool.and_eq_true] at hr hg
    split
    · next hp =>
      -- The tests that were passed count as tokens tested from here on.
      have hlen := Nat.max_le.2 ⟨hs, State.length_le_of_passes hp⟩
      exact .inr ⟨hr.1, h0, _, hlen, hg.1⟩
    · exact .inr ⟨hr.2, h0, tested, hs, hg.2⟩

/-- The attempt is plain and either rule behind it can be read, whatever the attempt finds. -/
theorem foresee {attempt yes no : Rule} (h : (Rule.foresee attempt yes no).Fits s) (b : Bool) :
    attempt.plain = true ∧ (if b then yes else no).Fits s := by
  rcases h with hplain | ⟨hr, h0, tested, hs, hg⟩
  · cases hplain
  · simp only [steady, guarded, Bool.and_eq_true] at hr hg
    refine ⟨hr.1.1, ?_⟩
    cases b with
    | true => exact .inr ⟨hr.1.2, h0, tested, hs, hg.1⟩
    | false => exact .inr ⟨hr.2, h0, tested, hs, hg.2⟩

/-- A repetition needs the same at every place, and no attempt may be under way. -/
theorem repeatWhile {test : TokenKind → Bool} {body : Rule}
    (h : (Rule.repeatWhile test body).Fits s) :
    (Rule.repeatWhile test body).steady = true ∧ body.guarded 1 = true ∧ s.attempts = 0 := by
  rcases h with hplain | ⟨hr, h0, tested, hs, hg⟩
  · cases hplain
  · exact ⟨hr, hg, h0⟩

/-- Where a value can be read, the rules for values can be: they test what they take. -/
theorem value {power : Nat} (h : (Rule.value power).Fits s) : (Grammar.value power).Fits s := by
  rcases h with hplain | ⟨-, h0, -⟩
  · cases hplain
  · exact .inr ⟨rfl, h0, 0, Nat.zero_le _, rfl⟩

/-- The rule that a part is kept of can be read where keeping it can be. -/
theorem record {part : Part} {body : Rule} (h : (Rule.record part body).Fits s) : body.Fits s := by
  rcases h with hplain | ⟨hr, h0, tested, hs, hg⟩
  · cases hplain
  · simp only [steady, Bool.and_eq_true] at hr
    exact .inr ⟨hr.2, h0, tested, hs, hg⟩

/-- The rule whose parts are kept together can be read where keeping them can be. -/
theorem together {body : Rule} (h : (Rule.together body).Fits s) : body.Fits s := by
  rcases h with hplain | ⟨hr, h0, tested, hs, hg⟩
  · cases hplain
  · exact .inr ⟨hr, h0, tested, hs, hg⟩

end Rule.Fits

/-- A body of a repetition passes a token in each round, so the rounds are no more than the tokens
ahead. -/
theorem length_lt_of_round {n : Nat} {test : TokenKind → Bool} {body : Rule} {s t : State}
    (hr : (Rule.repeatWhile test body).steady = true) (hg : body.guarded 1 = true)
    (h0 : s.attempts = 0) (hp : State.passes [test] s.after = true)
    (h : body.run (readValue n) s = .ok t) : t.attempts = 0 ∧ t.after.length < s.after.length := by
  simp only [Rule.steady, Bool.and_eq_true, Bool.not_eq_true'] at hr
  have hread := readable_of_guarded hr.2 hg (State.length_le_of_passes hp) h0 h
  refine ⟨hread.attempts_eq.trans h0, ?_⟩
  obtain ⟨ms, ks, rest, hread, rfl⟩ := hread
  rw [State.after_follow]
  exact hread.length_lt hr.1

/-- Where the test is passed a repetition is its body and the repetition again. -/
theorem run_repeatWhile {n : Nat} {test : TokenKind → Bool} {body : Rule} {s : State}
    (hr : (Rule.repeatWhile test body).steady = true) (hg : body.guarded 1 = true)
    (h0 : s.attempts = 0) (hp : State.passes [test] s.after = true) :
    (Rule.repeatWhile test body).run (readValue n) s
      = (body.run (readValue n) s).andThen ((Rule.repeatWhile test body).run (readValue n)) := by
  have hpos := State.length_le_of_passes hp
  rw [List.length_singleton] at hpos
  obtain ⟨k, hk⟩ : ∃ k, s.after.length = k + 1 := ⟨s.after.length - 1, by omega⟩
  rw [Rule.run, hk, repeatWhile, if_pos hp]
  cases ht : body.run (readValue n) s with
  | stop e t => rfl
  | ok t =>
      obtain ⟨hatt, hlt⟩ := length_lt_of_round hr hg h0 hp ht
      exact repeatWhile_enough (fun _ _ => length_lt_of_round hr hg) hatt (by omega) (Nat.le_refl _)

/-! ### Single calls -/

namespace Task

variable {x : Task}

/-- What it means that less is left to do: fewer levels of nesting, or as many and fewer tokens
ahead, or as many of both and a smaller rule. -/
theorem measure_lt_iff {y : Task} : y.measure < x.measure ↔
    y.levels < x.levels ∨ y.levels = x.levels ∧
      (y.state.after.length < x.state.after.length ∨
        y.state.after.length = x.state.after.length ∧ y.rule.size < x.rule.size) := by
  rw [measure, measure, Prod.Lex.toLex_lt_toLex, Prod.Lex.toLex_lt_toLex]

/-- A smaller rule is called at the same place, or further on. -/
theorem leads_of_size {r : Rule} {s : State} (hx : x.Sound) (hfits : r.Fits s)
    (hopens : x.rule.opens = 0) (hsuffix : s.after <:+ x.state.after)
    (hsize : r.size < x.rule.size) : x.Leads ⟨x.depth, r, s⟩ where
  sound := ⟨hx.1, hfits⟩
  depth_eq := by rw [hopens]; rfl
  suffix := hsuffix
  smaller := by
    rcases Nat.lt_or_eq_of_le hsuffix.length_le with hlt | heq
    · exact measure_lt_iff.2 (.inr ⟨rfl, .inl hlt⟩)
    · exact measure_lt_iff.2 (.inr ⟨rfl, .inr ⟨heq, hsize⟩⟩)

/-- Any rule is called further on. If tokens were passed, the size of the rule does not matter any
more. -/
theorem leads_of_length {r : Rule} {s : State} (hx : x.Sound) (hfits : r.Fits s)
    (hopens : x.rule.opens = 0) (hsuffix : s.after <:+ x.state.after)
    (hlength : s.after.length < x.state.after.length) : x.Leads ⟨x.depth, r, s⟩ where
  sound := ⟨hx.1, hfits⟩
  depth_eq := by rw [hopens]; rfl
  suffix := hsuffix
  smaller := measure_lt_iff.2 (.inr ⟨rfl, .inl hlength⟩)

/-- A task that is replied to at once is settled by its own answer. -/
theorem settles_of_eq {r : Reply} (h : r = x.answer) : x.Settles (.done r) := by
  rw [h]
  exact .done

/-- Reading one rule and then another settles the task, if that is what reading its rule is. -/
theorem settles_thenRead {first second : Rule}
    (hrun : x.rule.run (readValue x.levels) x.state
      = (first.run (readValue x.levels) x.state).andThen (second.run (readValue x.levels)))
    (hsecond : ∀ t, first.run (readValue x.levels) x.state = .ok t → x.Leads ⟨x.depth, second, t⟩) :
    x.Settles ((answer ⟨x.depth, first, x.state⟩).thenRead second) := by
  -- The call of the first rule is replied to with what reading that rule gives.
  have hreply : (answer ⟨x.depth, first, x.state⟩).outcome
      = first.run (readValue x.levels) x.state := rfl
  cases hfirst : first.run (readValue x.levels) x.state with
  | stop e t =>
      have hanswer : x.answer = answer ⟨x.depth, first, x.state⟩ := by
        rw [answer, hrun, hfirst]
        exact congrArg (Reply.mk · x.depth) hfirst.symm
      rw [Reply.thenRead, hreply, hfirst]
      exact settles_of_eq hanswer.symm
  | ok t =>
      have hanswer : x.answer = ⟨second.run (readValue x.levels) t, x.depth⟩ := by
        rw [answer, hrun, hfirst]
        rfl
      rw [Reply.thenRead, hreply, hfirst]
      -- The second rule is called where the first one has come to, and its reply is the answer.
      exact .call (hsecond t hfirst) (settles_of_eq hanswer.symm)

section

variable {depth : Nat} {s : State}

/-- Reading two rules one after the other settles its task by two calls. The second one is made only
if the first goes on. -/
theorem settles_seq {first second : Rule} (hx : Sound ⟨depth, .seq first second, s⟩) :
    Settles ⟨depth, .seq first second, s⟩ (code ⟨depth, .seq first second, s⟩) := by
  have hfirst := leads_of_size hx hx.2.seq_first rfl (List.suffix_refl _)
    (by simp only [Rule.size]; omega)
  refine .call hfirst (settles_thenRead rfl fun t ht => ?_)
  have hsuffix := suffix_of_run ht
  exact leads_of_size hx (hx.2.seq_second ht) rfl hsuffix (by simp only [Rule.size]; omega)

/-- Choosing by tests settles its task: the rule that is chosen is smaller and is read at the same
place. -/
theorem settles_branch {tests : List (TokenKind → Bool)} {yes no : Rule}
    (hx : Sound ⟨depth, .branch tests yes no, s⟩) :
    Settles ⟨depth, .branch tests yes no, s⟩ (code ⟨depth, .branch tests yes no, s⟩) := by
  have hcall := leads_of_size hx hx.2.branch rfl (List.suffix_refl _)
    (by simp only [Rule.size]; split <;> omega)
  refine .call hcall (settles_of_eq ?_)
  simp only [answer, levels, Rule.run]
  split <;> rfl

/-- Making an attempt settles its task. The rule that follows is read where the attempt began, so it
is called at the same place. -/
theorem settles_foresee {attempt yes no : Rule} (hx : Sound ⟨depth, .foresee attempt yes no, s⟩) :
    Settles ⟨depth, .foresee attempt yes no, s⟩ (code ⟨depth, .foresee attempt yes no, s⟩) := by
  obtain ⟨o, ho⟩ : ∃ o, attempt.run (readValue (nestingLimit - depth)) s.enter = o := ⟨_, rfl⟩
  obtain ⟨hplain, hfits⟩ := hx.2.foresee o.isOk
  have hattempt := leads_of_size hx (s := s.enter) (.inl hplain) rfl (List.suffix_refl _)
    (by simp only [Rule.size]; omega)
  have hcall := leads_of_size hx hfits rfl (List.suffix_refl _)
    (by simp only [Rule.size]; split <;> omega)
  -- The attempt returns to where it began.
  have hback := Rule.leave_run (nestingLimit - depth) attempt s
  have hreply : answer ⟨depth, attempt, s.enter⟩ = ⟨o, depth⟩ := congrArg (Reply.mk · depth) ho
  rw [ho] at hback
  refine .call hattempt ?_
  dsimp only
  rw [hreply, hback]
  refine .call hcall (settles_of_eq ?_)
  simp only [answer, levels, Rule.run, ho, hback]
  cases o <;> rfl

/-- A repetition settles its task. It is not a smaller rule that it calls in the end but itself, and
that is a call with less to do because the body has passed a token. -/
theorem settles_repeatWhile {test : TokenKind → Bool} {body : Rule}
    (hx : Sound ⟨depth, .repeatWhile test body, s⟩) :
    Settles ⟨depth, .repeatWhile test body, s⟩ (code ⟨depth, .repeatWhile test body, s⟩) := by
  obtain ⟨hr, hg, h0⟩ := hx.2.repeatWhile
  have hbodySteady := (Bool.and_eq_true_iff.1 hr).2
  rw [code]
  dsimp only
  split
  · next hp =>
    have hbody := leads_of_size hx (.inr ⟨hbodySteady, h0, 1, State.length_le_of_passes hp, hg⟩) rfl
      (List.suffix_refl _) (Nat.lt_succ_self _)
    refine .call hbody (settles_thenRead (run_repeatWhile hr hg h0 hp) fun t ht => ?_)
    -- The next round begins with fewer tokens ahead.
    obtain ⟨ht0, hlength⟩ := length_lt_of_round hr hg h0 hp ht
    exact leads_of_length hx (.inr ⟨hr, ht0, 0, Nat.zero_le _, hg⟩) rfl (suffix_of_run ht) hlength
  · next hp => exact settles_of_eq (congrArg (Reply.mk · depth) (repeatWhile_over hp _).symm)

/-- A value settles its task. At the limit the reply is that the value is too deep, and below it the
rules for values are called with one more value open, which leaves one level less. -/
theorem settles_value {power : Nat} (hx : Sound ⟨depth, .value power, s⟩) :
    Settles ⟨depth, .value power, s⟩ (code ⟨depth, .value power, s⟩) := by
  rw [code]
  dsimp only
  split
  · next hdeep =>
    -- At the limit no level is left.
    refine settles_of_eq ?_
    rw [answer, levels, Nat.sub_eq_zero_of_le hdeep]
    rfl
  · next hdeep =>
    -- Below the limit one of the levels left is taken by this value.
    have hlevels : nestingLimit - depth = nestingLimit - (depth + 1) + 1 := by omega
    have hcall : Leads ⟨depth, .value power, s⟩ ⟨depth + 1, Grammar.value power, s⟩ := {
      sound := ⟨Nat.lt_of_not_le hdeep, hx.2.value⟩
      depth_eq := rfl
      suffix := List.suffix_refl _
      smaller := measure_lt_iff.2 (.inl (by simp only [levels]; omega)) }
    -- The count goes back to `depth` with the reply, which is the answer of this task.
    refine .call hcall (settles_of_eq ?_)
    simp only [answer, levels, hlevels]
    rfl

/-- Keeping parts together settles its task by one call, whose error is passed on with the parts put
back. -/
theorem settles_together {body : Rule} (hx : Sound ⟨depth, .together body, s⟩) :
    Settles ⟨depth, .together body, s⟩ (code ⟨depth, .together body, s⟩) := by
  refine .call (leads_of_size hx hx.2.together rfl (List.suffix_refl _) (Nat.lt_succ_self _)) ?_
  simp only [answer, levels]
  split
  · next t ht =>
    refine settles_of_eq ?_
    simp only [answer, levels, Rule.run, ht]
  · next e t ht =>
    refine settles_of_eq ?_
    simp only [answer, levels, Rule.run, ht]

end

/-- The calls for a task lead on, and make its answer out of theirs. There is one case for each sort
of rule. -/
theorem settles_code (hx : x.Sound) : x.Settles x.code := by
  obtain ⟨depth, rule, s⟩ := x
  cases rule with
  | seq => exact settles_seq hx
  | branch => exact settles_branch hx
  | foresee => exact settles_foresee hx
  | repeatWhile => exact settles_repeatWhile hx
  | value => exact settles_value hx
  | record =>
      exact .call (leads_of_size hx hx.2.record rfl (List.suffix_refl _) (Nat.lt_succ_self _)) .done
  | together => exact settles_together hx
  | empty | expect | take | fail | skip | declare | defaults | finish => exact .done

/-! ### All calls -/

/-- A task is replied to with what reading gives. The induction is on the measure, as no bound on
the calls is built in. -/
theorem Sound.returns (hx : x.Sound) : x.code.Returns x.answer := by
  -- Every call is one with a smaller measure, so the calls of a task are replied to before it.
  induction hm : x.measure using WellFoundedLT.induction generalizing x with
  | ind m ih =>
    have hsettles := settles_code hx
    generalize x.code = c at hsettles
    induction hsettles with
    | done => exact .done
    | call hleads _ ihrest =>
        exact .call (ih _ (by rw [← hm]; exact hleads.smaller) hleads.sound rfl) ihrest

/-- A task has one reply, and that is its answer. So the calls, which are made without any bound,
come to what reading with levels gives. -/
theorem Sound.returns_iff (hx : x.Sound) {r : Reply} : x.code.Returns r ↔ r = x.answer := by
  constructor
  · intro h
    exact h.unique hx.returns
  · rintro rfl
    exact hx.returns

/-- A call of code that settles a task leads on, whichever of its calls it is. -/
theorem Settles.leads {y : Task} {c : Code} (h : x.Settles c) (hc : c.Calls y) : x.Leads y := by
  induction h with
  | done => cases hc
  | call hleads _ ih =>
      cases hc with
      | first => exact hleads
      | later hreply hnext =>
          rw [hleads.sound.returns_iff.1 hreply] at hnext
          exact ih hnext

/-- Every call leaves less to do. The measure behind it is the levels left, then the tokens ahead,
then the size of the rule. -/
theorem Sound.leads {y : Task} (hx : x.Sound) (h : x.Calls y) : x.Leads y :=
  (settles_code hx).leads h

/-- What is known of a task is known of all tasks that it comes to call. -/
theorem Sound.reaches {y : Task} (hx : x.Sound) (h : x.Reaches y) : y.Sound := by
  induction h with
  | refl => exact hx
  | tail _ hcall ih => exact (ih.leads hcall).sound

/-- No value is closed by a call, and no token that was passed is read again. -/
theorem Sound.within {y : Task} (hx : x.Sound) (h : x.Reaches y) :
    x.depth ≤ y.depth ∧ y.state.after <:+ x.state.after := by
  induction h with
  | refl => exact ⟨Nat.le_refl _, List.suffix_refl _⟩
  | @tail y z hreach hcall ih =>
      have hleads := (hx.reaches hreach).leads hcall
      have hdepth := hleads.depth_eq
      exact ⟨by omega, hleads.suffix.trans ih.2⟩

/-- Everything that is called for a value is read with one more value open, at the least. This is
what bounds the depth of calls. -/
theorem Sound.depth_lt {y : Task} {power : Nat} (hx : x.Sound) (hrule : x.rule = .value power)
    (h : Relation.TransGen Calls x y) : x.depth < y.depth := by
  obtain ⟨z, hcall, hreach⟩ := Relation.TransGen.head'_iff.1 h
  have hleads := hx.leads hcall
  have hdepth := hleads.depth_eq
  have hwithin := (hleads.sound.within hreach).1
  rw [hrule] at hdepth
  simp only [Rule.opens] at hdepth
  omega

/-- A repetition that calls itself has passed a token. This is the progress that every round of such
a loop makes. -/
theorem Sound.shrinks {y : Task} {test : TokenKind → Bool} {body : Rule} (hx : x.Sound)
    (hrule : x.rule = .repeatWhile test body) (h : x.Calls y) (hy : y.rule = x.rule) :
    Shrinks x.state.after y.state.after := by
  have hleads := hx.leads h
  have hdepth := hleads.depth_eq
  have hsmaller := measure_lt_iff.1 hleads.smaller
  -- Neither the levels nor the size of the rule can have become less, so the tokens have.
  have hlength : y.state.after.length < x.state.after.length := by
    rw [hrule] at hdepth
    simp only [Rule.opens, levels, hy] at hdepth hsmaller
    omega
  obtain ⟨taken, htaken⟩ := hleads.suffix
  cases taken with
  | nil =>
      rw [← htaken] at hlength
      exact absurd hlength (Nat.lt_irrefl _)
  | cons t taken => exact ⟨t, taken, htaken.symm⟩

end Task

end GeneratedKeys
