import GeneratedKeys.Proofs.Reading.Depth
import GeneratedKeys.Proofs.Reading.Foresight
import GeneratedKeys.Proofs.Reading.Nests

/-!
# `GeneratedKeys.Proofs.Reading.Horizon`: how far reading looks ahead

A rule is read by looking at the next token and at the one behind it, and at nothing further on. So
the tokens that a rule has come past, with the two behind them, decide how it is read: whatever
follows, the same moves are made and the same notes are kept, and reading ends or stalls there for
the same reason.

The attempt at an array type is the exception. It goes through a whole type before anything is read,
but never further than the type is read for good afterwards, so what it has seen is seen again.

* `run_of_stalls`: what the relation says of a rule that stalls, reading does.
* `Rule.Near`: rules whose tests look two tokens ahead at most, and whose attempts go no further
  than the reading behind them.
* `Reads.horizon`, `Stalls.horizon`: such rules are read alike if the next two tokens agree.
* `sighted_arrayForm`: the attempt at an array type is of this kind.
* `near_statement`: so are the rules of all statements.
-/

set_option autoImplicit false

namespace GeneratedKeys

open Move Rule Grammar

/-! ### Reading stops where a rule stalls -/

/-- Nothing happens between a place and itself, so the empty trace leads back to it. -/
theorem State.follow_nil_of_after {s : State} {ts : List Token} (h : s.after = ts) :
    s.follow [] [] ts = s :=
  h ▸ s.follow_nil

/-- What the relation says of a rule that stalls, reading does. Together with `stalls_of_run` the
two say the same of an error. -/
theorem run_of_stalls {n : Nat} {r : Rule} {ts rest : List Token} {ms : List Move}
    {ks : List Note} {reason : Reason} (h : Stalls n r ts ms ks rest reason) (hr : r.steady = true)
    (s : State) (hs : s.after = ts) (h0 : s.attempts = 0) :
    r.run (readValue n) s
      = .stop (reason.error (s.follow ms ks rest)) (s.follow ms ks rest) := by
  induction h generalizing s with
  | first _ ih =>
      simp only [Rule.steady, Bool.and_eq_true] at hr
      rw [Rule.run, ih hr.1 s hs h0, Outcome.stop_andThen]
  | second hread _ ih =>
      simp only [Rule.steady, Bool.and_eq_true] at hr
      rw [Rule.run, run_of_reads hread hr.1 s hs h0, Outcome.ok_andThen,
        ih hr.2 (s.follow _ _ _) (State.after_follow ..) h0,
        State.follow_follow]
  | missing hkind =>
      rw [State.follow_nil_of_after hs, Rule.run, State.expect, hs]
      simp [hkind, Reason.error]
  | @other n kind t ts ht hnext =>
      have hbehind : (ts.head?.any fun u => u.kind.sameClass kind) = false := by
        cases ts with
        | nil => rfl
        | cons u us => simpa [State.passes, Rule.isA] using hnext
      rw [State.follow_nil_of_after hs, Rule.run, State.expect, hs]
      simp [ht, hbehind, Reason.error]
  | fail => rw [State.follow_nil_of_after hs, Rule.run, Reason.error]
  | yes hp _ ih =>
      simp only [Rule.steady, Bool.and_eq_true] at hr
      rw [Rule.run, hs, if_pos hp, ih hr.1 s hs h0]
  | no hp _ ih =>
      simp only [Rule.steady, Bool.and_eq_true] at hr
      rw [Rule.run, hs, if_neg (by simp [hp]), ih hr.2 s hs h0]
  | foreseen hp _ ih =>
      simp only [Rule.steady, Bool.and_eq_true] at hr
      rw [Rule.run_foresee _ hr.1.1, hs, if_pos hp, ih hr.1.2 s hs h0]
  | unforeseen hp _ ih =>
      simp only [Rule.steady, Bool.and_eq_true] at hr
      rw [Rule.run_foresee _ hr.1.1, hs, if_neg (by simp [hp]), ih hr.2 s hs h0]
  | @round n test body ts rest ms ks reason hp _ ih =>
      simp only [Rule.steady, Bool.and_eq_true] at hr
      have hlength := State.length_le_of_passes hp
      obtain ⟨k, hk⟩ : ∃ k, s.after.length = k + 1 :=
        ⟨s.after.length - 1, by rw [hs]; simp at hlength; omega⟩
      rw [Rule.run, hk, repeatWhile, hs, if_pos hp, ih hr.2 s hs h0, Outcome.stop_andThen]
  | @again n test body ts mid rest ms₁ ms₂ ks₁ ks₂ reason hp hread _ ih =>
      have hsteady := hr
      simp only [Rule.steady, Bool.and_eq_true, Bool.not_eq_true'] at hr
      have hlt := hread.length_lt hr.1
      have hothers := ih hsteady (s.follow ms₁ ks₁ mid) (State.after_follow ..) h0
      rw [State.follow_follow] at hothers
      -- The rounds left are at least as many as those that the others begin with.
      obtain ⟨k, hk⟩ : ∃ k, s.after.length = k + 1 := ⟨s.after.length - 1, by rw [hs]; omega⟩
      rw [Rule.run, hk, repeatWhile, hs, if_pos hp, run_of_reads hread hr.2 s hs h0,
        Outcome.ok_andThen]
      refine repeatWhile_stop_mono hothers ?_
      rw [State.after_follow]
      rw [hs] at hk
      omega
  | value _ ih => exact ih rfl s hs h0
  | tooDeep => rw [State.follow_nil_of_after hs, Rule.run, readValue, Reason.error]
  | record _ ih =>
      simp only [Rule.steady, Bool.and_eq_true] at hr
      rw [Rule.run, ih hr.2 s hs h0, Outcome.stop_andThen]
  | @together n body ts rest ms ks reason _ ih =>
      rw [Rule.run, ih hr s hs h0]
      -- The place is the same, whatever is kept.
      cases reason <;> rfl
  | finish =>
      rw [State.follow_nil_of_after hs, Rule.run, State.atEnd, hs, Reason.error]
      rfl

/-! ### Two tokens ahead -/

/-- The next two tokens are the same, or the tokens end alike in front of them. -/
def SameAhead (ts ts' : List Token) : Prop :=
  ts'.take 2 = ts.take 2

namespace SameAhead

variable {ts ts' : List Token}

/-- Fewer than two tokens ahead agree as well, so tests on one token are covered. -/
theorem take_eq (h : SameAhead ts ts') {k : Nat} (hk : k ≤ 2) : ts'.take k = ts.take k := by
  rw [← Nat.min_eq_left hk, ← List.take_take, ← List.take_take, h]

/-- Behind the same tokens the next two of the whole agree, as those tokens come first. -/
theorem append (h : SameAhead ts ts') (w : List Token) : SameAhead (w ++ ts) (w ++ ts') := by
  rw [SameAhead, List.take_append, List.take_append, h.take_eq (Nat.sub_le ..)]

/-- If the one list of tokens has ended, so has the other. -/
theorem eq_nil (h : SameAhead [] ts') : ts' = [] := by
  cases ts' with
  | nil => rfl
  | cons t ts' => cases h

/-- If the one list begins with a token, so does the other, and behind it one more token agrees. -/
theorem exists_cons {t : Token} (h : SameAhead (t :: ts) ts') :
    ∃ us', ts' = t :: us' ∧ us'.take 1 = ts.take 1 := by
  cases ts' with
  | nil => cases h
  | cons u us' =>
      obtain ⟨rfl, hus⟩ := List.cons.inj h
      exact ⟨us', rfl, hus⟩

end SameAhead

/-- Tests see as many tokens as there are tests, so what stands further on does not change the
answer. -/
theorem passes_congr {tests : List (TokenKind → Bool)} {ts ts' : List Token}
    (h : ts'.take tests.length = ts.take tests.length) :
    State.passes tests ts' = State.passes tests ts := by
  induction tests generalizing ts ts' with
  | nil => rfl
  | cons test tests ih =>
      cases ts with
      | nil =>
          cases ts' with
          | nil => rfl
          | cons t' ts' => cases h
      | cons t ts =>
          cases ts' with
          -- One list has ended where the other goes on, though the tests see that far.
          | nil => cases h
          | cons t' ts' =>
              obtain ⟨rfl, hothers⟩ := List.cons.inj h
              rw [State.passes, State.passes, ih hothers]

/-- One or two tests cannot tell tokens apart that agree so far. -/
theorem SameAhead.passes {tests : List (TokenKind → Bool)} {ts ts' : List Token}
    (h : SameAhead ts ts') (htests : tests.length ≤ 2) :
    State.passes tests ts' = State.passes tests ts :=
  passes_congr (h.take_eq htests)

/-- One test sees the next token only. If that is the same in both, so is the answer. -/
theorem isA_congr {test : TokenKind → Bool} {ts ts' : List Token} (h : ts'.take 1 = ts.take 1) :
    State.passes [test] ts' = State.passes [test] ts :=
  passes_congr h

/-- Nor can a single test, as it looks at even less. -/
theorem SameAhead.isA {test : TokenKind → Bool} {ts ts' : List Token} (h : SameAhead ts ts') :
    State.passes [test] ts' = State.passes [test] ts :=
  isA_congr (h.take_eq (Nat.le_succ 1))

/-- Skipping that stops in front of a token does so whatever stands behind that token. -/
theorem bodyLength_congr {depth : Nat} {us ts ts' : List Token}
    (h : State.bodyLength depth (us ++ ts) = us.length) (hts : ts'.take 1 = ts.take 1) :
    State.bodyLength depth (us ++ ts') = us.length := by
  induction us generalizing depth with
  | nil =>
      cases ts with
      | nil =>
          cases ts' with
          | nil => rfl
          | cons t' ts' => cases hts
      | cons t ts =>
          cases ts' with
          | nil => cases hts
          | cons t' ts' =>
              -- The token that skipping stops at is the same in both.
              obtain ⟨rfl, -⟩ := List.cons.inj hts
              rw [List.nil_append, bodyLength_cons] at h ⊢
              split at h
              · next hstop => rw [if_pos hstop, List.length_nil]
              · cases h
  | cons u us ih =>
      rw [List.cons_append, bodyLength_cons] at h ⊢
      split at h
      · cases h
      · next hstop =>
        -- This token is skipped in both, as only the depth and the token itself decide.
        rw [if_neg hstop, ih (Nat.succ.inj h)]
        rfl

/-! ### The horizon of a rule -/

/-- Rule `r`, read from `ts` on, comes to `rest` by the moves `ms`, and ends or stalls there. -/
inductive Comes (n : Nat) (r : Rule) (ts : List Token) (ms : List Move) (rest : List Token) :
    Prop where
  | reads {ks : List Note} : Reads n r ts ms ks rest → Comes n r ts ms rest
  | stalls {ks : List Note} {reason : Reason} :
      Stalls n r ts ms ks rest reason → Comes n r ts ms rest

/-- The tokens that reading comes past and those that are left are together the tokens in front of
which it began. -/
theorem Comes.consumed_append {n : Nat} {r : Rule} {ts rest : List Token} {ms : List Move}
    (h : Comes n r ts ms rest) : consumed ms ++ rest = ts := by
  cases h with
  | reads h => exact h.consumed_append
  | stalls h => exact h.leads.consumed_append

/-- In front of what was read the tokens agree as well, so the property carries from the end of a
rule back to its beginning. -/
theorem Comes.sameAhead {n : Nat} {r : Rule} {ts rest rest' : List Token} {ms : List Move}
    (h : Comes n r ts ms rest) (hahead : SameAhead rest rest') :
    SameAhead ts (consumed ms ++ rest') := by
  have hfront := hahead.append (consumed ms)
  rwa [h.consumed_append] at hfront

/-- What the attempt finds is decided by the tokens that the reading behind it comes past, and by
the two tokens behind these. -/
def Sighted (attempt yes no : Rule) : Prop :=
  ∀ {n : Nat} {ts rest rest' : List Token} {ms : List Move},
    Comes n (if (attempt.strict ts).isSome = true then yes else no) ts ms rest →
      SameAhead rest rest' →
        (attempt.strict (consumed ms ++ rest')).isSome = (attempt.strict ts).isSome

section

variable {n : Nat} {attempt yes no : Rule} {ts rest rest' : List Token} {ms : List Move}

/-- An attempt that succeeds does so as well if other tokens stand behind the two next ones. -/
theorem Sighted.foreseen (h : Sighted attempt yes no) (hp : (attempt.strict ts).isSome = true)
    (hcomes : Comes n yes ts ms rest) (hahead : SameAhead rest rest') :
    (attempt.strict (consumed ms ++ rest')).isSome = true :=
  (h (n := n) (by rwa [if_pos hp]) hahead).trans hp

/-- An attempt that fails does so as well if other tokens stand behind the two next ones. -/
theorem Sighted.unforeseen (h : Sighted attempt yes no) (hp : (attempt.strict ts).isSome = false)
    (hcomes : Comes n no ts ms rest) (hahead : SameAhead rest rest') :
    (attempt.strict (consumed ms ++ rest')).isSome = false :=
  (h (n := n) (by rwa [if_neg (by simp [hp])]) hahead).trans hp

end

/-- Whether the rule looks at the next two tokens only. Values are allowed in it if `values` holds.
-/
def Rule.Near (values : Prop) : Rule → Prop
  | .seq first second => first.Near values ∧ second.Near values
  | .branch tests yes no => tests.length ≤ 2 ∧ yes.Near values ∧ no.Near values
  | .foresee attempt yes no => Sighted attempt yes no ∧ yes.Near values ∧ no.Near values
  | .repeatWhile _ body | .record _ body | .together body => body.Near values
  | .value _ => values
  | _ => True

section

variable {n : Nat} {r : Rule} {ts rest rest' : List Token} {ms : List Move} {ks : List Note}
  {values : Prop}

/-- A rule that looks two tokens ahead is read alike if these agree. What stands further on has no
influence on the moves and the notes. -/
theorem Reads.horizon (hvalues : values → ∀ power, (Grammar.value power).Near values)
    (h : Reads n r ts ms ks rest) (hr : r.Near values) (hahead : SameAhead rest rest') :
    Reads n r (consumed ms ++ rest') ms ks rest' := by
  induction h generalizing rest' with
  | empty => exact .empty
  | seq _ hsecond ih₁ ih₂ =>
      rw [Move.consumed_append, List.append_assoc]
      -- In front of the second rule the tokens agree, since that rule has come past the same ones.
      have hmid := (Comes.reads hsecond).sameAhead hahead
      exact .seq (ih₁ hr.1 hmid) (ih₂ hr.2 hahead)
  | expect hk => exact .expect hk
  | dropped hk hu => exact .dropped hk hu
  -- A parenthesis is supplied at the end only, and the end is seen.
  | supplied =>
      obtain rfl := hahead.eq_nil
      exact .supplied
  | take => exact .take
  | yes hp hread ih =>
      have hfront := (Comes.reads hread).sameAhead hahead
      exact .yes ((hfront.passes hr.1).trans hp) (ih hr.2.1 hahead)
  | no hp hread ih =>
      have hfront := (Comes.reads hread).sameAhead hahead
      exact .no ((hfront.passes hr.1).trans hp) (ih hr.2.2 hahead)
  -- The attempt sees no further than the reading behind it.
  | foreseen hp hread ih =>
      exact .foreseen (Sighted.foreseen hr.1 hp (.reads hread) hahead) (ih hr.2.1 hahead)
  | unforeseen hp hread ih =>
      exact .unforeseen (Sighted.unforeseen hr.1 hp (.reads hread) hahead) (ih hr.2.2 hahead)
  | stop hp => exact .stop (hahead.isA.trans hp)
  | again hp hbody hothers ih₁ ih₂ =>
      have hmid := (Comes.reads hothers).sameAhead hahead
      have hbegin := (Comes.reads hbody).sameAhead hmid
      rw [Move.consumed_append, List.append_assoc]
      exact .again (hbegin.isA.trans hp) (ih₁ hr hmid) (ih₂ hr hahead)
  | value _ ih => exact .value (ih (hvalues hr _) hahead)
  -- Skipping stops at the next token, and that is the same one.
  | @skip n ts =>
      have hlength : State.bodyLength 0 (ts.take (State.bodyLength 0 ts) ++ rest')
          = (ts.take (State.bodyLength 0 ts)).length := by
        -- What is skipped is as long as skipping says.
        have hstop : State.bodyLength 0 (ts.take (State.bodyLength 0 ts)
            ++ ts.drop (State.bodyLength 0 ts)) = (ts.take (State.bodyLength 0 ts)).length := by
          rw [List.take_append_drop, List.length_take, Nat.min_eq_left (bodyLength_le 0 ts)]
        exact bodyLength_congr hstop (hahead.take_eq (Nat.le_succ 1))
      have hskip : Reads n .skip (ts.take (State.bodyLength 0 ts) ++ rest') _ _ _ := .skip
      rw [hlength, List.take_left, List.drop_left] at hskip
      rwa [consumed_map_pass]
  | record _ ih => exact .record (ih hr hahead)
  | together _ ih => exact .together (ih hr hahead)
  | declare => exact .declare
  | defaults => exact .defaults
  | finish =>
      obtain rfl := hahead.eq_nil
      exact .finish

/-- Such a rule stalls alike, too, for the same reason and at the same place. -/
theorem Stalls.horizon (hvalues : values → ∀ power, (Grammar.value power).Near values)
    {reason : Reason} (h : Stalls n r ts ms ks rest reason) (hr : r.Near values)
    (hahead : SameAhead rest rest') : Stalls n r (consumed ms ++ rest') ms ks rest' reason := by
  induction h generalizing rest' with
  | first _ ih => exact .first (ih hr.1 hahead)
  | second hread hstalls ih =>
      rw [Move.consumed_append, List.append_assoc]
      -- The rule that stalls has come past the same tokens, so the one in front of it is read
      -- alike.
      have hmid := (Comes.stalls hstalls).sameAhead hahead
      exact .second (hread.horizon hvalues hr.1 hmid) (ih hr.2 hahead)
  -- A token is missing at the end, and the end is seen.
  | missing hk =>
      obtain rfl := hahead.eq_nil
      exact .missing hk
  -- The token in the way and the one behind it are seen.
  | other ht hnext =>
      obtain ⟨us', rfl, hus⟩ := hahead.exists_cons
      exact .other ht ((isA_congr hus).trans hnext)
  | fail => exact .fail
  | yes hp hstalls ih =>
      have hfront := (Comes.stalls hstalls).sameAhead hahead
      exact .yes ((hfront.passes hr.1).trans hp) (ih hr.2.1 hahead)
  | no hp hstalls ih =>
      have hfront := (Comes.stalls hstalls).sameAhead hahead
      exact .no ((hfront.passes hr.1).trans hp) (ih hr.2.2 hahead)
  | foreseen hp hstalls ih =>
      exact .foreseen (Sighted.foreseen hr.1 hp (.stalls hstalls) hahead) (ih hr.2.1 hahead)
  | unforeseen hp hstalls ih =>
      exact .unforeseen (Sighted.unforeseen hr.1 hp (.stalls hstalls) hahead) (ih hr.2.2 hahead)
  | round hp hstalls ih =>
      have hfront := (Comes.stalls hstalls).sameAhead hahead
      exact .round (hfront.isA.trans hp) (ih hr hahead)
  | again hp hread hstalls ih =>
      have hmid := (Comes.stalls hstalls).sameAhead hahead
      have hbegin := (Comes.reads hread).sameAhead hmid
      rw [Move.consumed_append, List.append_assoc]
      exact .again (hbegin.isA.trans hp) (hread.horizon hvalues hr hmid) (ih hr hahead)
  | value _ ih => exact .value (ih (hvalues hr _) hahead)
  | tooDeep => exact .tooDeep
  | record _ ih => exact .record (ih hr hahead)
  | together _ ih => exact .together (ih hr hahead)
  | finish =>
      obtain ⟨us', rfl, -⟩ := hahead.exists_cons
      exact .finish

/-- Wherever such a rule comes to, it comes to, whether it ends there or stalls. -/
theorem Comes.horizon (hvalues : values → ∀ power, (Grammar.value power).Near values)
    (h : Comes n r ts ms rest) (hr : r.Near values) (hahead : SameAhead rest rest') :
    Comes n r (consumed ms ++ rest') ms rest' := by
  cases h with
  | reads h => exact .reads (h.horizon hvalues hr hahead)
  | stalls h => exact .stalls (h.horizon hvalues hr hahead)

end

/-! ### The attempt at an array type -/

/-- It does not matter which of the two lists comes first. -/
theorem SameAhead.symm {ts ts' : List Token} (h : SameAhead ts ts') : SameAhead ts' ts :=
  Eq.symm h

/-- A plain rule repeats nothing and keeps nothing, so it is steady. -/
theorem steady_of_plain {r : Rule} (hr : r.plain = true) : r.steady = true := by
  induction r with
  | seq _ _ ih₁ ih₂ | branch _ _ _ ih₁ ih₂ =>
      simp only [plain, Bool.and_eq_true] at hr
      rw [steady, ih₁ hr.1, ih₂ hr.2]
      rfl
  | empty | expect | take | fail => rfl
  | _ => simp [plain] at hr

/-- A plain rule that is read as it stands passes some tokens, and it passes them whatever stands
behind the two tokens that come next. -/
theorem strict_horizon {r : Rule} (hplain : r.plain = true) (hr : r.Near False)
    {ts rest : List Token} (h : r.strict ts = some rest) :
    ∃ w, ts = w ++ rest ∧
      ∀ rest', SameAhead rest rest' → r.strict (w ++ rest') = some rest' := by
  induction r generalizing ts rest with
  | empty =>
      cases h
      exact ⟨[], rfl, fun _ _ => rfl⟩
  | seq first second ih₁ ih₂ =>
      simp only [plain, Bool.and_eq_true] at hplain
      obtain ⟨mid, hfirst, hsecond⟩ := Option.bind_eq_some_iff.1 h
      -- What stands behind the first rule begins with what the second one passes, so it agrees too.
      obtain ⟨w₁, rfl, h₁⟩ := ih₁ hplain.1 hr.1 hfirst
      obtain ⟨w₂, rfl, h₂⟩ := ih₂ hplain.2 hr.2 hsecond
      refine ⟨w₁ ++ w₂, (List.append_assoc ..).symm, fun rest' hahead => ?_⟩
      rw [List.append_assoc, strict, h₁ _ (hahead.append w₂)]
      exact h₂ rest' hahead
  | expect kind =>
      cases ts with
      | nil => cases h
      | cons t ts =>
          rw [strict] at h
          split at h
          · next hkind =>
            cases h
            exact ⟨[t], rfl, fun _ _ => if_pos hkind⟩
          · cases h
  | take =>
      cases h
      cases ts with
      | nil =>
          -- At the end nothing is passed, and the other tokens have ended as well.
          refine ⟨[], rfl, fun rest' hahead => ?_⟩
          obtain rfl := hahead.eq_nil
          rfl
      | cons t ts => exact ⟨[t], rfl, fun _ _ => rfl⟩
  | branch tests yes no ihy ihn =>
      simp only [plain, Bool.and_eq_true] at hplain
      rw [strict] at h
      split at h
      · next hp =>
        obtain ⟨w, rfl, hw⟩ := ihy hplain.1 hr.2.1 h
        refine ⟨w, rfl, fun rest' hahead => ?_⟩
        -- The tests look two tokens ahead, at most past the tokens passed and the two behind them.
        rw [strict, (hahead.append w).passes hr.1, if_pos hp, hw rest' hahead]
      · next hp =>
        obtain ⟨w, rfl, hw⟩ := ihn hplain.2 hr.2.2 h
        refine ⟨w, rfl, fun rest' hahead => ?_⟩
        rw [strict, (hahead.append w).passes hr.1, if_neg hp, hw rest' hahead]
  | fail => cases h
  | _ => simp [plain] at hplain

section

variable {n : Nat} {r second : Rule} {ts mid rest : List Token} {ms : List Move}

/-- A plain rule that can be read as it stands is read so. -/
theorem Reads.eq_of_strict {ks : List Note} (h : Reads n r ts ms ks rest)
    (hplain : r.plain = true) (hstrict : r.strict ts = some mid) : rest = mid := by
  obtain ⟨k, rfl, hk⟩ := exists_takeMany hplain hstrict
  have hrun := run_of_reads h (steady_of_plain hplain) (.initial ts 0) rfl rfl
  rw [hk _ _ rfl] at hrun
  have hafter := congrArg State.after (Outcome.ok.inj hrun)
  rw [State.after_takeMany] at hafter
  exact hafter.symm

/-- A plain rule that can be read as it stands does not stall. -/
theorem not_stalls_of_strict {ks : List Note} {reason : Reason} (hplain : r.plain = true)
    (hstrict : r.strict ts = some mid) : ¬ Stalls n r ts ms ks rest reason := by
  intro h
  obtain ⟨k, -, hk⟩ := exists_takeMany hplain hstrict
  have hrun := run_of_stalls h (steady_of_plain hplain) (.initial ts 0) rfl rfl
  rw [hk _ _ rfl] at hrun
  cases hrun

/-- Where a plain rule can be read as it stands, there is one place that it comes to. -/
theorem Comes.eq_of_strict (h : Comes n r ts ms rest) (hplain : r.plain = true)
    (hstrict : r.strict ts = some mid) : rest = mid := by
  cases h with
  | reads h => exact h.eq_of_strict hplain hstrict
  | stalls h => exact absurd h (not_stalls_of_strict hplain hstrict)

/-- Behind a plain rule that can be read as it stands the next rule begins. -/
theorem Comes.behind_strict (h : Comes n (.seq r second) ts ms rest) (hplain : r.plain = true)
    (hstrict : r.strict ts = some mid) : ∃ ms', Comes n second mid ms' rest := by
  cases h with
  | reads h =>
      cases h with
      | seq hfirst hsecond =>
          obtain rfl := hfirst.eq_of_strict hplain hstrict
          exact ⟨_, .reads hsecond⟩
  | stalls h =>
      cases h with
      | first hfirst => exact absurd hfirst (not_stalls_of_strict hplain hstrict)
      | second hfirst hsecond =>
          obtain rfl := hfirst.eq_of_strict hplain hstrict
          exact ⟨_, .stalls hsecond⟩

/-- A type for good comes at least as far as a type without a character set does. -/
theorem Comes.exists_append_of_scalarType (h : Comes n (scalarType true) ts ms rest)
    (hstrict : (scalarType false).strict ts = some mid) : ∃ v, mid = v ++ rest := by
  have hothers : ∀ {r : Rule}, Comes n r ts ms rest → r.plain = true → r.strict ts = some mid →
      ∃ v, mid = v ++ rest :=
    fun h hplain hstrict => ⟨[], (h.eq_of_strict hplain hstrict).symm⟩
  rw [scalarType, strict] at hstrict
  -- Only behind the length of a character type do the two rules differ.
  have hcharacter : State.passes [isWordOf [.char, .varchar]] ts = true →
      Comes n (inOrder [.take, length, charset]) ts ms rest → ∃ v, mid = v ++ rest := by
    intro hp h
    rw [if_pos hp] at hstrict
    obtain ⟨us, htake, hbehind⟩ := Option.bind_eq_some_iff.1 hstrict
    obtain ⟨us', hlength, hempty⟩ : ∃ us', length.strict us = some us' ∧
      Rule.empty.strict us' = some mid := Option.bind_eq_some_iff.1 hbehind
    obtain rfl := Option.some.inj hempty
    obtain ⟨ms₁, h₁⟩ := h.behind_strict rfl htake
    obtain ⟨ms₂, h₂⟩ := h₁.behind_strict rfl hlength
    exact ⟨consumed ms₂, h₂.consumed_append.symm⟩
  cases h with
  | reads h =>
      cases h with
      | yes hp h => exact hcharacter hp (.reads h)
      | no hp h => exact hothers (.reads h) rfl (by rwa [if_neg (by simp [hp])] at hstrict)
  | stalls h =>
      cases h with
      | yes hp h => exact hcharacter hp (.stalls h)
      | no hp h => exact hothers (.stalls h) rfl (by rwa [if_neg (by simp [hp])] at hstrict)

end

/-- A type without array bounds is read by looking two tokens ahead, whether a character set may
follow it or not. -/
theorem near_scalarType (withCharset : Bool) : (scalarType withCharset).Near False := by
  cases withCharset <;>
    repeat' first | exact trivial | refine And.intro ?_ ?_ | decide

/-- The attempt at an array type succeeds if a type can be read and a bracket stands behind it. -/
theorem isSome_arrayForm {ts mid : List Token} (h : (scalarType false).strict ts = some mid) :
    (arrayForm.strict ts).isSome = State.passes [isA .leftBracket] mid := by
  rw [arrayForm, strict, h]
  cases mid with
  | nil => rfl
  | cons t ts =>
      rw [State.passes_one_cons, Option.bind_some, strict]
      split <;> simp_all [isA]

/-- The attempt at an array type is decided by what the type that is read comes past, and by the two
tokens behind it. -/
theorem sighted_arrayForm :
    Sighted arrayForm (inOrder [scalarType false, ranges, charset]) (scalarType true) := by
  have hagain : ∀ {ts rest rest' : List Token} {ms : List Move} {mid : List Token},
      (scalarType false).strict ts = some mid → consumed ms ++ rest = ts →
        (∃ v, mid = v ++ rest) → SameAhead rest rest' →
          (arrayForm.strict (consumed ms ++ rest')).isSome = (arrayForm.strict ts).isSome := by
    rintro ts rest rest' ms mid hmid hconsumed ⟨v, rfl⟩ hahead
    obtain ⟨w, hw, hstrict⟩ := strict_horizon rfl (near_scalarType false) hmid
    -- What was passed is the type and what stands behind it.
    have hsplit : consumed ms = w ++ v := by
      have hall : consumed ms ++ rest = (w ++ v) ++ rest := by
        rw [hconsumed, hw, List.append_assoc]
      exact List.append_cancel_right hall
    have hmid' := hstrict _ (hahead.append v)
    rw [hsplit, List.append_assoc, isSome_arrayForm hmid', isSome_arrayForm hmid]
    exact (hahead.append v).isA
  intro n ts rest rest' ms h hahead
  split at h
  · next hp =>
    obtain ⟨rest₀, hrest₀⟩ := Option.isSome_iff_exists.1 hp
    obtain ⟨mid, hmid, -⟩ := Option.bind_eq_some_iff.1 hrest₀
    obtain ⟨ms', hbehind⟩ := h.behind_strict rfl hmid
    exact hagain hmid h.consumed_append ⟨_, hbehind.consumed_append.symm⟩ hahead
  · next hp =>
    cases hsome : (arrayForm.strict (consumed ms ++ rest')).isSome with
    | false => simp [hp]
    | true =>
        -- The attempt succeeds with the other tokens, so it does with these.
        obtain ⟨rest₀, hrest₀⟩ := Option.isSome_iff_exists.1 hsome
        obtain ⟨mid, hmid, -⟩ := Option.bind_eq_some_iff.1 hrest₀
        have h' := h.horizon False.elim (near_scalarType true) hahead
        have hback := hagain hmid rfl (h'.exists_append_of_scalarType hmid) hahead.symm
        rw [h.consumed_append, hsome] at hback
        exact hback.symm

/-! ### All rules -/

/-- A value is read by looking two tokens ahead. The second one is looked at behind a name and a
point only. -/
theorem near_value (power : Nat) : (Grammar.value power).Near True := by
  repeat' first | exact trivial | exact sighted_arrayForm | refine And.intro ?_ ?_ | decide

/-- Every statement is read by looking two tokens ahead, the attempts included. It is checked rule
by rule over the grammar. -/
theorem near_statement (type : StatementType) : (statement type).Near True := by
  cases type <;>
    repeat' first | exact trivial | refine And.intro ?_ ?_ | decide

end GeneratedKeys
