import GeneratedKeys.Proofs.Reading.Calls
import GeneratedKeys.Proofs.Reading.Machine

/-!
# `GeneratedKeys.Proofs.Reading.Replay`: a machine reads what is read

Whatever reading a rule comes to, a machine comes to as well, with any frames below on its stack. It
counts the open values up and down where reading has levels left, it goes round a repetition without
a bound, and its index stands where the two lists of tokens meet.

The tests of a rule see no token behind the last one, while a machine shows them the token of the
end. So the rules have to be `wary`: no test passes that token. This is read off the rules as data.

* `Machine.Captured`: a part that was read begins with a token, and that token was passed.
* `replays_of_values`: reading a rule is replayed if reading values is, by induction on the rule.
* `replays_value`: reading values is replayed, by induction on the levels of nesting.
-/

set_option autoImplicit false

namespace GeneratedKeys

/-- Whether the token of the end passes no test and is never wanted. Reading then never takes it for
a token of the statement. -/
def Rule.wary : Rule → Bool
  | seq first second => first.wary && second.wary
  | expect kind => !TokenKind.eof.sameClass kind
  | branch tests yes no => tests.all (fun test => !test .eof) && yes.wary && no.wary
  | foresee attempt yes no => attempt.wary && yes.wary && no.wary
  | repeatWhile test body => !test .eof && body.wary
  | record _ body | together body => body.wary
  | _ => true

/-- No token of the statement is that of the end, which the lexer adds behind them. -/
def State.EofFree (s : State) : Prop :=
  ∀ x ∈ s.tokens, x.isEof = false

namespace Machine

/-- If a part was just read, it begins with a token of the vector, and that token was passed. -/
def Captured : Machine → Prop
  | ⟨p, .keep _ start first :: _, none⟩ =>
    start < p.index ∧ ∃ x, p.tokens[start]? = some x ∧ x.start = first
  | _ => True

/-- One machine comes to another, and every part that is read on the way has a token. -/
def Runs : Machine → Machine → Prop :=
  Relation.ReflTransGen fun m m' => m.Captured ∧ m.step = some m'

/-- While an error is on its way nothing is kept, so there is nothing to be asked of the machine. -/
theorem captured_error (p : Reader) (stack : List Frame) (e : ParseError) :
    Captured ⟨p, stack, some e⟩ := by
  cases stack with
  | nil => trivial
  | cons f stack => cases f <;> trivial

/-- One step of a machine without an error is a run, if a part that is kept by it has a token. -/
theorem runs_of_proceed {p : Reader} {f : Frame} {stack : List Frame} {m : Machine}
    (h : p.proceed? stack f = some m) (hf : Captured (p.goOn (f :: stack))) :
    Runs (p.goOn (f :: stack)) m :=
  .single ⟨hf, h⟩

/-- One step of a machine with an error is a run. -/
theorem runs_of_unwind {p : Reader} {e : ParseError} {f : Frame} {stack : List Frame} {m : Machine}
    (h : p.unwind e stack f = m) : Runs (p.fail e (f :: stack)) m :=
  .single ⟨captured_error _ _ _, congrArg some h⟩

end Machine

open Machine (Runs runs_of_proceed runs_of_unwind)

variable {lexical : Diagnostics} {depth : Nat} {s : State} {stack : List Frame}

/-! ### Places and their readers -/

namespace State

/-- The machine has as many attempts under way as the state, so both keep parts at the same times.
-/
@[simp] theorem attempts_reader : (s.reader lexical depth).attempts = s.attempts := rfl

/-- Passing a token adds one to the index, and changes nothing else of the reader. -/
theorem reader_take {t : Token} {ts : List Token} (h : s.after = t :: ts) :
    s.take.reader lexical depth = { s.reader lexical depth with index := s.position + 1 } := by
  rw [reader, tokens_take]
  simp [reader, take, h, position]

/-- A repair is a problem that the machine notes. The state keeps the repair itself, and its report
makes the same problem of it. -/
theorem reader_repair (r : Repair) :
    (s.repair r).reader lexical depth = (s.reader lexical depth).report r.diagnostic := by
  have hproblems : lexical.recordAll ((s.repair r).repairs.map Repair.diagnostic)
      = (lexical.recordAll (s.repairs.map Repair.diagnostic)).record r.diagnostic := by
    rw [repair, List.map_append, Diagnostics.recordAll_append]
    rfl
  rw [reader, hproblems]
  rfl

/-- A part is kept by the machine as it is by the state, attempts aside. -/
theorem reader_record (part : Part) (range : Span) :
    (s.record part range).reader lexical depth
      = (s.reader lexical depth).note (·.record part range) := by
  unfold record Reader.note
  split <;> simp_all [reader, position, tokens]

/-- A type is settled by the machine as it is by the state. -/
theorem reader_declare (type : StatementType) :
    (s.declare type).reader lexical depth = (s.reader lexical depth).note (.ofType type) := by
  unfold declare Reader.note
  split <;> simp_all [reader, position, tokens]

/-- So are default values, which are noted outside attempts only, on both sides. -/
theorem reader_noteDefaults :
    s.noteDefaults.reader lexical depth = (s.reader lexical depth).note .withDefaultValues := by
  unfold noteDefaults Reader.note
  split <;> simp_all [reader, position, tokens]

/-- A reader that returns to a mark is where the attempt began. -/
theorem reader_leave {t : State} (h : t.tokens = s.tokens) :
    (s.leave t).reader lexical depth
      = { t.reader lexical depth with index := s.position, attempts := t.attempts - 1 } := by
  have htokens : (s.leave t).tokens = t.tokens := h.symm
  rw [reader, htokens]
  rfl

/-- The machine refuses the next token with the error of the state. -/
theorem refuse?_reader (wanted : String) :
    (s.reader lexical depth).refuse? wanted stack
      = some ((s.reader lexical depth).fail (s.unexpected wanted) stack) := by
  rw [Reader.refuse?, ahead?_zero_reader]
  rfl

/-- Tests that the token of the end does not pass see what is ahead. -/
theorem passes?_reader {tests : List (TokenKind → Bool)} (h : ∀ test ∈ tests, test .eof = false)
    (k : Nat) :
    (s.reader lexical depth).passes? k tests = some (passes tests (s.after.drop k)) := by
  induction tests generalizing k with
  | nil => rfl
  | cons test tests ih =>
      obtain ⟨htest, htests⟩ := List.forall_mem_cons.1 h
      rw [Reader.passes?, ahead?_reader, Option.bind_some, ← List.head?_drop]
      cases hk : s.after.drop k with
      | nil =>
          -- Behind the last token the machine sees that of the end, which passes no test.
          rw [List.head?_nil, Option.getD_none, show (Token.atEnd s.size).kind = .eof from rfl,
            htest]
          rfl
      | cons t ts =>
          -- The next token of the machine is looked at only if this one passes.
          have hnext : s.after.drop (k + 1) = ts := by
            rw [← List.drop_drop, hk, List.drop_one, List.tail_cons]
          rw [List.head?_cons, Option.getD_some, ih htests, hnext, passes]
          cases test t.kind <;> rfl

/-- At the end the token of the end is looked at, which the definition puts there by `State.next`.
-/
theorem ahead?_of_nil (h : s.after = []) :
    (s.reader lexical depth).ahead? 0 = some (.atEnd s.size) := by
  rw [ahead?_reader, h]
  rfl

/-- In front of a token the machine looks at that token. -/
theorem ahead?_of_cons {t : Token} {ts : List Token} (h : s.after = t :: ts) :
    (s.reader lexical depth).ahead? 0 = some t := by
  rw [ahead?_reader, h]
  rfl

/-- The next token, if there is one, is not that of the end. -/
theorem EofFree.next (h : s.EofFree) {t : Token} {ts : List Token} (hs : s.after = t :: ts) :
    t.isEof = false :=
  h t (by rw [tokens, hs]; exact List.mem_append_right _ (List.mem_cons_self ..))

/-- This is a fact about the tokens of the statement, so it holds at every place in them. -/
theorem EofFree.of_tokens_eq (h : s.EofFree) {t : State} (ht : t.tokens = s.tokens) :
    t.EofFree := by
  rw [EofFree, ht]
  exact h

end State

open State

/-! ### Passing tokens -/

/-- Passing a token moves the index on, except at the end, where both stay. -/
theorem runs_pass (hs : s.EofFree) :
    Runs ((s.reader lexical depth).goOn (.pass :: stack))
      ((s.take.reader lexical depth).goOn stack) := by
  refine runs_of_proceed ?_ trivial
  cases hafter : s.after with
  | nil =>
      rw [Reader.proceed?, ahead?_of_nil hafter, take, hafter]
      rfl
  | cons t ts =>
      rw [Reader.proceed?, ahead?_of_cons hafter, Option.map_some, hs.next hafter,
        reader_take hafter]
      rfl

/-- Skipping to a RETURNING, a semicolon or the end. The induction is on the tokens ahead, with the
open parentheses arbitrary. -/
theorem runs_skip (hs : s.EofFree) (opened : Nat) :
    Runs ((s.reader lexical depth).goOn (.skip opened :: stack))
      (((takeMany (bodyLength opened s.after) s).reader lexical depth).goOn stack) := by
  induction hafter : s.after generalizing s opened with
  | nil =>
      refine runs_of_proceed ?_ trivial
      rw [Reader.proceed?, ahead?_of_nil hafter]
      rfl
  | cons t ts ih =>
      rw [bodyLength_cons]
      by_cases hstop : opened = 0 ∧ (t.kind = .semicolon ∨ t.kind = .keyword .returning)
      -- The machine stops skipping at the same token.
      · refine runs_of_proceed ?_ trivial
        rw [Reader.proceed?, ahead?_of_cons hafter, Option.map_some, if_pos (.inr hstop),
          if_pos hstop]
        rfl
      -- One token is passed, and the machine goes on at the depth behind it.
      · have hrest := ih (hs.of_tokens_eq s.tokens_take) (t.kind.depth opened)
          (by simp [take, hafter])
        rw [if_neg hstop, takeMany]
        refine .trans (runs_of_proceed ?_ trivial) (.trans (runs_pass hs) hrest)
        rw [Reader.proceed?, ahead?_of_cons hafter, Option.map_some, hs.next hafter,
          if_neg (by simpa using hstop)]

/-- Skipping to a semicolon or the end. The machine goes token by token, where the definition passes
all of them at once. -/
theorem runs_seek (hs : s.EofFree) :
    Runs ((s.reader lexical depth).goOn (.seek :: stack))
      ((s.skipToEnd.reader lexical depth).goOn stack) := by
  rw [skipToEnd]
  induction hafter : s.after generalizing s with
  | nil =>
      refine runs_of_proceed ?_ trivial
      rw [Reader.proceed?, ahead?_of_nil hafter]
      rfl
  | cons t ts ih =>
      by_cases hstop : t.kind = .semicolon
      -- The machine stops at the same semicolon.
      · refine runs_of_proceed ?_ trivial
        rw [Reader.proceed?, ahead?_of_cons hafter, Option.map_some, if_pos (.inr hstop),
          List.takeWhile_cons_of_neg (by simpa using hstop)]
        rfl
      -- One token is passed, and the machine goes on behind it.
      · have hrest := ih (hs.of_tokens_eq s.tokens_take) (by simp [take, hafter])
        rw [List.takeWhile_cons_of_pos (by simpa using hstop), List.length_cons, takeMany]
        refine .trans (runs_of_proceed ?_ trivial) (.trans (runs_pass hs) hrest)
        rw [Reader.proceed?, ahead?_of_cons hafter, Option.map_some, hs.next hafter,
          if_neg (by simpa using hstop)]

/-! ### Rules -/

/-- The machine that goes on behind a rule, or takes the error of the rule to the frames. -/
def Outcome.machine (lexical : Diagnostics) (depth : Nat) (stack : List Frame) : Outcome → Machine
  | .ok s => (s.reader lexical depth).goOn stack
  | .stop e s => (s.reader lexical depth).fail e stack

/-- With `n` levels of nesting left, a machine reads rule `r` from `s` on as it is run. -/
def Replays (lexical : Diagnostics) (n : Nat) (r : Rule) (s : State) : Prop :=
  ∀ stack, Runs ((s.reader lexical (nestingLimit - n)).goOn (.read r :: stack))
    ((r.run (readValue n) s).machine lexical (nestingLimit - n) stack)

variable {n : Nat}

/-- A rule that is read in one step is replayed by that step alone. -/
theorem replays_of_read {r : Rule}
    (h : ∀ stack, (s.reader lexical (nestingLimit - n)).read? stack r
      = some ((r.run (readValue n) s).machine lexical (nestingLimit - n) stack)) :
    Replays lexical n r s :=
  fun stack => runs_of_proceed (h stack) trivial

/-- In front of a token, what the machine does for a wanted one is decided by that token and the one
behind it. -/
theorem expect?_reader (lexical : Diagnostics) (stack : List Frame) {kind : TokenKind}
    (hkind : TokenKind.eof.sameClass kind = false) {t : Token} {ts : List Token}
    (hafter : s.after = t :: ts) (hend : t.isEof = false) (depth : Nat) :
    (s.reader lexical depth).expect? kind stack
      = if t.kind.sameClass kind then some ((s.reader lexical depth).goOn (.pass :: stack))
        else if s.attempts = 0 ∧ ts.head?.any (·.kind.sameClass kind) then
          some (((s.repair (.dropped t kind)).reader lexical depth).goOn (.pass :: .pass :: stack))
        else some ((s.reader lexical depth).fail (s.unexpected kind.describe) stack) := by
  -- The token behind the next one, or that of the end, which is not of a wanted kind.
  have hsecond : ∃ u, (s.reader lexical depth).ahead? 1 = some u ∧
      u.kind.sameClass kind = ts.head?.any (·.kind.sameClass kind) := by
    refine ⟨_, ahead?_reader 1, ?_⟩
    rw [hafter]
    cases ts with
    | nil => exact hkind
    | cons u us => rfl
  obtain ⟨u, hu, hclass⟩ := hsecond
  rw [Reader.expect?, ahead?_of_cons hafter, Option.bind_some, hend, hu, Option.bind_some, hclass,
    refuse?_reader, attempts_reader, reader_repair]
  -- A stray token is dropped outside attempts only, in both.
  by_cases h0 : s.attempts = 0 <;> simp [h0]

/-- A wanted token is passed, behind a stray one or not, or it is supplied at the end. -/
theorem replays_expect {kind : TokenKind} (hkind : TokenKind.eof.sameClass kind = false)
    (hs : s.EofFree) : Replays lexical n (.expect kind) s := by
  intro stack
  rw [Rule.run]
  cases hafter : s.after with
  | nil =>
      have hnext : s.next = .atEnd s.size := by rw [next, hafter]; rfl
      have hend : s.next.isEof = true := by rw [hnext]; rfl
      have hother : s.next.kind.sameClass kind = false := by rw [hnext]; exact hkind
      rw [State.expect, hafter]
      refine runs_of_proceed ?_ trivial
      rw [Reader.proceed?, Reader.read?, Reader.expect?, ahead?_zero_reader, Option.bind_some,
        hother, hend, refuse?_reader, attempts_reader]
      by_cases h0 : s.attempts = 0
      · by_cases hk : kind = .rightParen
        · simp [h0, hk, Outcome.machine, reader_repair]
        · simp [h0, hk, Outcome.machine]
      · simp [h0, Outcome.machine]
  | cons t ts =>
      have hread := expect?_reader lexical stack hkind hafter (hs.next hafter)
      rw [State.expect, hafter]
      dsimp only
      split
      · next hwanted =>
        refine .trans (runs_of_proceed ?_ trivial) (runs_pass hs)
        exact (hread _).trans (if_pos hwanted)
      · next hwanted =>
        split
        · next hstray =>
          -- The stray token is passed, and then the wanted one.
          have hrepaired : (s.repair (.dropped t kind)).EofFree := hs
          refine .trans (runs_of_proceed ?_ trivial) (.trans (runs_pass hrepaired)
            (runs_pass (hrepaired.of_tokens_eq (tokens_take _))))
          exact (hread _).trans ((if_neg hwanted).trans (if_pos hstray))
        · next hstray =>
          refine runs_of_proceed ?_ trivial
          exact (hread _).trans ((if_neg hwanted).trans (if_neg hstray))

/-! ### All rules -/

/-- What tokens there are does not change with reading, so the vector of the machine is the same all
the way. -/
theorem tokens_run (n : Nat) (r : Rule) (s : State) :
    (r.run (readValue n) s).state.tokens = s.tokens :=
  stepRelation_tokens.run_relates (stepRelation_tokens.readValue_relates n) r s

/-- The same for a rule that was read to its end. -/
theorem tokens_eq_of_run {r : Rule} {t : State} (h : r.run (readValue n) s = .ok t) :
    t.tokens = s.tokens := by
  rw [← tokens_run n r s, h]
  rfl

/-- So no token is that of the end behind the rule, either. -/
theorem eofFree_of_run {r : Rule} {t : State} (hs : s.EofFree)
    (h : r.run (readValue n) s = .ok t) : t.EofFree :=
  hs.of_tokens_eq (tokens_eq_of_run h)

/-- One rule after the other is replayed if both are, the second one from where the first one ends.
-/
theorem replays_seq {first second : Rule} (hfirst : Replays lexical n first s)
    (hsecond : ∀ t, first.run (readValue n) s = .ok t → Replays lexical n second t) :
    Replays lexical n (.seq first second) s := by
  intro stack
  refine .trans (runs_of_proceed rfl trivial) (.trans (hfirst _) ?_)
  rw [Rule.run]
  cases ho : first.run (readValue n) s with
  | ok t => exact hsecond t ho stack
  | stop e t => exact runs_of_unwind rfl

/-- One of two rules, by tests. The machine may look at the token of the end, which passes none of
them. -/
theorem replays_branch {tests : List (TokenKind → Bool)} {yes no : Rule}
    (htests : ∀ test ∈ tests, test .eof = false)
    (hyes : passes tests s.after = true → Replays lexical n yes s)
    (hno : ¬passes tests s.after = true → Replays lexical n no s) :
    Replays lexical n (.branch tests yes no) s := by
  intro stack
  -- The tests come out as they do on the tokens ahead, so the same rule is begun.
  have hstep : (s.reader lexical (nestingLimit - n)).read? stack (.branch tests yes no)
      = some ((s.reader lexical (nestingLimit - n)).goOn
        (.read (if passes tests s.after then yes else no) :: stack)) := by
    rw [Reader.read?, passes?_reader htests]
    rfl
  refine .trans (runs_of_proceed hstep trivial) ?_
  rw [Rule.run]
  split
  · next hp => exact hyes hp stack
  · next hp => exact hno hp stack

/-- One of two rules, by an attempt. The machine comes back to its mark where the definition comes
back to its state. -/
theorem replays_foresee {attempt yes no : Rule} (hattempt : Replays lexical n attempt s.enter)
    (hyes : Replays lexical n yes s) (hno : Replays lexical n no s) :
    Replays lexical n (.foresee attempt yes no) s := by
  intro stack
  refine .trans (runs_of_proceed rfl trivial) (.trans (hattempt _) ?_)
  have hback := Rule.leave_run n attempt s
  have htokens := tokens_run n attempt s.enter
  simp only [Rule.run, hback]
  generalize attempt.run (readValue n) s.enter = o at hback htokens ⊢
  -- The reader returns to the mark, and nothing else has changed.
  have hreader : { o.state.reader lexical (nestingLimit - n) with
      index := s.position, attempts := o.state.attempts - 1 }
        = s.reader lexical (nestingLimit - n) := by
    rw [← reader_leave (s := s) htokens, hback]
  cases o with
  | ok t =>
      refine .trans (runs_of_proceed ?_ trivial) (hyes stack)
      exact congrArg (fun p => some (Reader.goOn p (.read yes :: stack))) hreader
  | stop e t =>
      refine .trans (runs_of_unwind ?_) (hno stack)
      exact congrArg (fun p => Reader.goOn p (.read no :: stack)) hreader

/-- A repetition, if each of its rounds passes a token. The machine has no count of rounds, and ends
because the tokens do. -/
theorem replays_repeatWhile {test : TokenKind → Bool} {body : Rule} (htest : test .eof = false)
    (hround : ∀ s t : State, s.attempts = 0 → passes [test] s.after = true →
      body.run (readValue n) s = .ok t → t.attempts = 0 ∧ t.after.length < s.after.length)
    (hbody : ∀ s : State, s.attempts = 0 → passes [test] s.after = true → s.EofFree →
      Replays lexical n body s)
    (h0 : s.attempts = 0) (hs : s.EofFree) (rounds : Nat) (hrounds : s.after.length ≤ rounds)
    (stack : List Frame) :
    Runs ((s.reader lexical (nestingLimit - n)).goOn (.read (.repeatWhile test body) :: stack))
      ((repeatWhile test (body.run (readValue n)) rounds s).machine lexical (nestingLimit - n)
        stack) := by
  -- Each round begins by looking whether the test holds.
  have hread : ∀ s : State,
      (s.reader lexical (nestingLimit - n)).read? stack (.repeatWhile test body)
        = some ((s.reader lexical (nestingLimit - n)).goOn
          (if passes [test] s.after then .read body :: .read (.repeatWhile test body) :: stack
            else stack)) := by
    intro s
    rw [Reader.read?, passes?_reader (by simpa using htest)]
    rfl
  induction rounds generalizing s with
  | zero =>
      -- No rounds are left only where no tokens are.
      have hafter : s.after = [] := List.length_eq_zero_iff.1 (Nat.le_zero.1 hrounds)
      refine runs_of_proceed ?_ trivial
      rw [Reader.proceed?, hread, hafter]
      rfl
  | succ rounds ih =>
      have hstep := hread s
      rw [repeatWhile]
      split
      · next hp =>
        rw [if_pos hp] at hstep
        refine .trans (runs_of_proceed hstep trivial) (.trans (hbody s h0 hp hs _) ?_)
        cases ho : body.run (readValue n) s with
        | ok t =>
            -- The round passed a token, so the rounds left are still enough.
            obtain ⟨ht0, hlt⟩ := hround s t h0 hp ho
            exact ih ht0 (eofFree_of_run hs ho) (by omega)
        -- An error passes by the repetition.
        | stop e t => exact runs_of_unwind rfl
      · next hp =>
        rw [if_neg hp] at hstep
        exact runs_of_proceed hstep trivial

/-- A part that is kept, if its rule passes a token. Then the token passed last is one of the part.
-/
theorem replays_record {part : Part} {body : Rule} (hbody : Replays lexical n body s)
    (hpasses : ∀ t, body.run (readValue n) s = .ok t → t.after.length < s.after.length) :
    Replays lexical n (.record part body) s := by
  intro stack
  -- The machine remembers where the part begins, and how many tokens were passed then.
  have hstep : (s.reader lexical (nestingLimit - n)).read? stack (.record part body)
      = some ((s.reader lexical (nestingLimit - n)).goOn
        (.read body :: .keep part s.position s.next.start :: stack)) := by
    rw [Reader.read?, ahead?_zero_reader]
    rfl
  refine .trans (runs_of_proceed hstep trivial) (.trans (hbody _) ?_)
  rw [Rule.run]
  cases ho : body.run (readValue n) s with
  | stop e t => exact runs_of_unwind rfl
  | ok t =>
      -- The tokens are the same ones, with a longer stretch of them passed.
      have htokens : t.tokens = s.tokens := tokens_eq_of_run ho
      -- The body has passed a token, so there is one behind the place.
      have hposition : s.position < t.position := by
        have hlt := hpasses t ho
        have hlength := congrArg List.length htokens
        simp only [State.tokens, List.length_append, List.length_reverse] at hlength
        show s.before.length < t.before.length
        omega
      obtain ⟨x, xs, hbefore⟩ := List.exists_cons_of_length_pos (Nat.zero_lt_of_lt hposition)
      refine runs_of_proceed ?_ ⟨hposition, s.next, ?_, rfl⟩
      · rw [Reader.proceed?, behind?_reader hbefore, Outcome.andThen, Outcome.machine,
          reader_record, rangeFrom, hbefore]
        rfl
      -- The token that the part begins with is still the one at its index.
      · obtain ⟨y, ys, hafter⟩ := List.exists_cons_of_length_pos (Nat.zero_lt_of_lt (hpasses t ho))
        show (t.tokens ++ [Token.atEnd t.size])[s.before.length]? = some s.next
        rw [htokens, State.tokens, next, hafter, List.append_assoc,
          List.getElem?_append_right (by simp), List.length_reverse, Nat.sub_self]
        rfl

/-- A rule that is kept as a part passes a token, so the part has a last one. -/
theorem length_lt_of_recorded {part : Part} {body : Rule} {t : State}
    (hfits : (Rule.record part body).Fits s) (h : body.run (readValue n) s = .ok t) :
    t.after.length < s.after.length := by
  rcases hfits with hplain | ⟨hr, h0, tested, htested, hg⟩
  · cases hplain
  · simp only [Rule.steady, Bool.and_eq_true, Bool.not_eq_true'] at hr
    obtain ⟨ms, ks, rest, hread, rfl⟩ := readable_of_guarded hr.2 hg htested h0 h
    rw [after_follow]
    exact hread.length_lt hr.1

/-- Parts that are kept all together or not at all. The machine puts the parts back when an error
comes to the frame. -/
theorem replays_together {body : Rule} (hbody : Replays lexical n body s) :
    Replays lexical n (.together body) s := by
  intro stack
  refine .trans (runs_of_proceed rfl trivial) (.trans (hbody _) ?_)
  rw [Rule.run]
  cases body.run (readValue n) s with
  | ok t => exact runs_of_proceed rfl trivial
  | stop e t => exact runs_of_unwind rfl

/-- The end of the statement is where the next token is that of the end, for the machine as for the
definition. -/
theorem replays_finish (hs : s.EofFree) : Replays lexical n .finish s := by
  refine replays_of_read fun stack => ?_
  rw [Reader.read?, refuse?_reader, Rule.run, atEnd]
  cases hafter : s.after with
  | nil =>
      rw [ahead?_of_nil hafter]
      rfl
  | cons t ts =>
      rw [ahead?_of_cons hafter, Option.bind_some, hs.next hafter]
      rfl

/-- Reading any rule is replayed if reading values is: the machine comes to what the rule comes to,
at the index of its place. -/
theorem replays_of_values
    (hvalue : ∀ (power : Nat) (s : State), (Rule.value power).Fits s → s.EofFree →
      Replays lexical n (.value power) s)
    (r : Rule) (hw : r.wary = true) (hfits : r.Fits s) (hs : s.EofFree) :
    Replays lexical n r s := by
  induction r generalizing s with
  | empty => exact replays_of_read fun stack => rfl
  | seq first second ih₁ ih₂ =>
      simp only [Rule.wary, Bool.and_eq_true] at hw
      -- The tokens stay free of the end's, wherever the first rule comes to.
      refine replays_seq (ih₁ hw.1 hfits.seq_first hs) fun t ht => ?_
      exact ih₂ hw.2 (hfits.seq_second ht) (eofFree_of_run hs ht)
  | expect kind => exact replays_expect (by simpa [Rule.wary] using hw) hs
  | take => exact fun stack => .trans (runs_of_proceed rfl trivial) (runs_pass hs)
  | fail wanted => exact replays_of_read fun stack => refuse?_reader wanted
  | branch tests yes no ihy ihn =>
      simp only [Rule.wary, Bool.and_eq_true, List.all_eq_true, Bool.not_eq_true'] at hw
      -- Only the rule that the tests choose has to be readable here.
      have hchosen := hfits.branch
      refine replays_branch hw.1.1 (fun hp => ?_) fun hp => ?_
      · rw [if_pos hp] at hchosen
        exact ihy hw.1.2 hchosen hs
      · rw [if_neg hp] at hchosen
        exact ihn hw.2 hchosen hs
  | foresee attempt yes no iha ihy ihn =>
      simp only [Rule.wary, Bool.and_eq_true] at hw
      -- The attempt is plain, and the rule behind it is read where the attempt began.
      obtain ⟨hplain, hyes⟩ := hfits.foresee true
      obtain ⟨-, hno⟩ := hfits.foresee false
      exact replays_foresee (iha hw.1.1 (.inl hplain) hs) (ihy hw.1.2 hyes hs) (ihn hw.2 hno hs)
  | repeatWhile test body ih =>
      simp only [Rule.wary, Bool.and_eq_true, Bool.not_eq_true'] at hw
      -- A round passes a token, because the body is not idle.
      obtain ⟨hr, hg, h0⟩ := hfits.repeatWhile
      refine replays_repeatWhile hw.1 (fun s t => length_lt_of_round hr hg) ?_ h0 hs _
        (Nat.le_refl _)
      intro s h0 hp hs
      exact ih hw.2 (.inr ⟨(Bool.and_eq_true_iff.1 hr).2, h0, 1, length_le_of_passes hp, hg⟩) hs
  | value power => exact hvalue power s hfits hs
  | skip => exact fun stack => .trans (runs_of_proceed rfl trivial) (runs_skip hs 0)
  | record part body ih =>
      exact replays_record (ih hw hfits.record hs) fun t => length_lt_of_recorded hfits
  | together body ih => exact replays_together (ih hw hfits.together hs)
  | declare type =>
      refine replays_of_read fun stack => ?_
      rw [Rule.run, Outcome.machine, reader_declare]
      rfl
  | defaults =>
      refine replays_of_read fun stack => ?_
      rw [Rule.run, Outcome.machine, reader_noteDefaults]
      rfl
  | finish => exact replays_finish hs

/-- Reading a value is replayed, however many levels of nesting are left. The depth of the machine
and the levels left add up to the limit. -/
theorem replays_value (hn : n ≤ nestingLimit) (power : Nat) (hfits : (Rule.value power).Fits s)
    (hs : s.EofFree) : Replays lexical n (.value power) s := by
  induction n generalizing power s with
  | zero =>
      have hdeep : nestingLimit ≤ (s.reader lexical (nestingLimit - 0)).depth := Nat.le_refl _
      refine replays_of_read fun stack => ?_
      rw [Reader.read?, if_pos hdeep, ahead?_zero_reader]
      rfl
  | succ n ih =>
      intro stack
      have hbody := replays_of_values (fun power s => ih (Nat.le_of_succ_le hn) power)
        (Grammar.value power) rfl hfits.value hs
      -- One more value is open while its rule is read.
      have hopen : nestingLimit - (n + 1) + 1 = nestingLimit - n := by omega
      have hstep : (s.reader lexical (nestingLimit - (n + 1))).read? stack (.value power)
          = some ((s.reader lexical (nestingLimit - n)).goOn
            (.read (Grammar.value power) :: .close :: stack)) := by
        have hlevel : ¬nestingLimit ≤ (s.reader lexical (nestingLimit - (n + 1))).depth :=
          Nat.not_le_of_lt (Nat.sub_lt (Nat.zero_lt_of_lt hn) (Nat.succ_pos n))
        rw [Reader.read?, if_neg hlevel, ← hopen]
        rfl
      refine .trans (runs_of_proceed hstep trivial) (.trans (hbody _) ?_)
      rw [show (Rule.value power).run (readValue (n + 1)) s
        = (Grammar.value power).run (readValue n) s from rfl, ← hopen]
      cases (Grammar.value power).run (readValue n) s with
      | ok t => exact runs_of_proceed rfl trivial
      | stop e t => exact runs_of_unwind rfl

/-- Every rule in which the token of the end passes no test is replayed. -/
theorem replays_run (hn : n ≤ nestingLimit) {r : Rule} (hw : r.wary = true) (hfits : r.Fits s)
    (hs : s.EofFree) : Replays lexical n r s :=
  replays_of_values (fun power _ => replays_value hn power) r hw hfits hs

end GeneratedKeys
