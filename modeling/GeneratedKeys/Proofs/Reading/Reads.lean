import GeneratedKeys.Proofs.Reading.Attempt
import GeneratedKeys.Proofs.Reading.Trace

/-!
# `GeneratedKeys.Proofs.Reading.Reads`: what a rule reads

`Reads n r ts ms ks rest` says that rule `r`, with `n` levels of nesting left, reads the
tokens `ts` up to `rest`, makes the moves `ms` and keeps the notes `ks`. It is a relation
on lists of tokens: no place, no text and no state is part of it, so it can be reasoned
about rule by rule.

The module proves that `Reads` is what reading does outside attempts:

* `run_of_reads`: whatever the relation allows, `Rule.run` does.
* `reads_of_run`: whatever `Rule.run` does, the relation allows.

Both need that the rule is well-behaved, which is checked on the rule as data. `steady`
asks that a repeated or recorded rule passes at least one token and that an attempt is
`plain`, and `guarded` that the next token is tested before it is taken.
-/

set_option autoImplicit false

namespace GeneratedKeys

namespace Rule

/-! ### Checks on rules -/

/-- Whether a rule may be read without passing or dropping a token. Only a closing
parenthesis can be supplied. -/
def idle : Rule → Bool
  | seq first second => first.idle && second.idle
  | expect kind => kind == .rightParen
  | take | fail _ | value _ => false
  | branch _ yes no | foresee _ yes no => yes.idle || no.idle
  | record _ body | together body => body.idle
  | empty | repeatWhile _ _ | skip | declare _ | defaults | finish => true

/-- Whether repeated and recorded rules pass a token, and attempts are plain. A repetition then
ends, and a part is never empty. -/
def steady : Rule → Bool
  | seq first second => first.steady && second.steady
  | branch _ yes no => yes.steady && no.steady
  | foresee attempt yes no => attempt.plain && yes.steady && no.steady
  | repeatWhile _ body | record _ body => !body.idle && body.steady
  | together body => body.steady
  | _ => true

/-- How many of the tokens tested are still ahead after a rule. Behind any other rule none is taken
for granted. -/
def untaken (tested : Nat) : Rule → Nat
  | empty => tested
  | take => tested - 1
  | _ => 0

/-- Whether every token taken was tested before, when `tested` tokens are known to be ahead. So a
rule never takes a token at the end. -/
def guarded (tested : Nat) : Rule → Bool
  | seq first second => first.guarded tested && second.guarded (untaken tested first)
  | take => 0 < tested
  | branch tests yes no => yes.guarded (max tested tests.length) && no.guarded tested
  | foresee _ yes no => yes.guarded tested && no.guarded tested
  | repeatWhile _ body => body.guarded 1
  | record _ body | together body => body.guarded tested
  | _ => true

end Rule

/-! ### The relation -/

/-- Rule `r`, with `n` levels of nesting left, reads `ts` up to `rest` by the moves `ms`
and keeps the notes `ks`. -/
inductive Reads : Nat → Rule → List Token → List Move → List Note → List Token → Prop where
  | empty {n : Nat} {ts : List Token} : Reads n .empty ts [] [] ts
  | seq {n : Nat} {first second : Rule} {ts mid rest : List Token} {ms₁ ms₂ : List Move}
      {ks₁ ks₂ : List Note} :
      Reads n first ts ms₁ ks₁ mid → Reads n second mid ms₂ ks₂ rest →
        Reads n (.seq first second) ts (ms₁ ++ ms₂) (ks₁ ++ ks₂) rest
  | expect {n : Nat} {kind : TokenKind} {t : Token} {ts : List Token} :
      t.kind.sameClass kind = true → Reads n (.expect kind) (t :: ts) [.pass t] [] ts
  | dropped {n : Nat} {kind : TokenKind} {t u : Token} {ts : List Token} :
      t.kind.sameClass kind = false → u.kind.sameClass kind = true →
        Reads n (.expect kind) (t :: u :: ts) [.drop t kind, .pass u] [] ts
  | supplied {n : Nat} : Reads n (.expect .rightParen) [] [.supply] [] []
  | take {n : Nat} {t : Token} {ts : List Token} : Reads n .take (t :: ts) [.pass t] [] ts
  | yes {n : Nat} {tests : List (TokenKind → Bool)} {yes no : Rule} {ts rest : List Token}
      {ms : List Move} {ks : List Note} :
      State.passes tests ts = true → Reads n yes ts ms ks rest →
        Reads n (.branch tests yes no) ts ms ks rest
  | no {n : Nat} {tests : List (TokenKind → Bool)} {yes no : Rule} {ts rest : List Token}
      {ms : List Move} {ks : List Note} :
      State.passes tests ts = false → Reads n no ts ms ks rest →
        Reads n (.branch tests yes no) ts ms ks rest
  | foreseen {n : Nat} {attempt yes no : Rule} {ts rest : List Token} {ms : List Move}
      {ks : List Note} :
      (attempt.strict ts).isSome = true → Reads n yes ts ms ks rest →
        Reads n (.foresee attempt yes no) ts ms ks rest
  | unforeseen {n : Nat} {attempt yes no : Rule} {ts rest : List Token} {ms : List Move}
      {ks : List Note} :
      (attempt.strict ts).isSome = false → Reads n no ts ms ks rest →
        Reads n (.foresee attempt yes no) ts ms ks rest
  | stop {n : Nat} {test : TokenKind → Bool} {body : Rule} {ts : List Token} :
      State.passes [test] ts = false → Reads n (.repeatWhile test body) ts [] [] ts
  | again {n : Nat} {test : TokenKind → Bool} {body : Rule} {ts mid rest : List Token}
      {ms₁ ms₂ : List Move} {ks₁ ks₂ : List Note} :
      State.passes [test] ts = true → Reads n body ts ms₁ ks₁ mid →
        Reads n (.repeatWhile test body) mid ms₂ ks₂ rest →
          Reads n (.repeatWhile test body) ts (ms₁ ++ ms₂) (ks₁ ++ ks₂) rest
  | value {n power : Nat} {ts rest : List Token} {ms : List Move} {ks : List Note} :
      Reads n (Grammar.value power) ts ms ks rest → Reads (n + 1) (.value power) ts ms ks rest
  | skip {n : Nat} {ts : List Token} :
      Reads n .skip ts ((ts.take (State.bodyLength 0 ts)).map .pass) []
        (ts.drop (State.bodyLength 0 ts))
  | record {n : Nat} {part : Part} {body : Rule} {ts rest : List Token} {ms : List Move}
      {ks : List Note} :
      Reads n body ts ms ks rest → Reads n (.record part body) ts ms (ks ++ [.part part ms]) rest
  | together {n : Nat} {body : Rule} {ts rest : List Token} {ms : List Move} {ks : List Note} :
      Reads n body ts ms ks rest → Reads n (.together body) ts ms ks rest
  | declare {n : Nat} {type : StatementType} {ts : List Token} :
      Reads n (.declare type) ts [] [.type type] ts
  | defaults {n : Nat} {ts : List Token} : Reads n .defaults ts [] [.defaults] ts
  | finish {n : Nat} : Reads n .finish [] [] [] []

namespace Reads

/-- The tokens read are the ones consumed, in front of the others. -/
theorem consumed_append {n : Nat} {r : Rule} {ts rest : List Token} {ms : List Move}
    {ks : List Note} (h : Reads n r ts ms ks rest) : Move.consumed ms ++ rest = ts := by
  induction h with
  | seq _ _ ih₁ ih₂ | again _ _ _ ih₁ ih₂ =>
      rw [Move.consumed_append, List.append_assoc, ih₂, ih₁]
  | yes _ _ ih | no _ _ ih | foreseen _ _ ih | unforeseen _ _ ih => exact ih
  | value _ ih | record _ ih | together _ ih => exact ih
  | skip => rw [Move.consumed_map_pass, List.take_append_drop]
  | _ => rfl

/-- A rule that is not idle consumes a token, so a part that it is recorded for is not empty. -/
theorem consumed_ne_nil {n : Nat} {r : Rule} {ts rest : List Token} {ms : List Move}
    {ks : List Note} (h : Reads n r ts ms ks rest) (hr : r.idle = false) :
    Move.consumed ms ≠ [] := by
  induction h with
  | seq _ _ ih₁ ih₂ =>
      rw [Move.consumed_append]
      simp only [Rule.idle, Bool.and_eq_false_iff] at hr
      rcases hr with hr | hr
      · exact List.append_ne_nil_of_left_ne_nil (ih₁ hr) _
      · exact List.append_ne_nil_of_right_ne_nil _ (ih₂ hr)
  | expect | dropped | take => exact List.cons_ne_nil _ _
  -- What is supplied consumes nothing, but a rule that wants a closing parenthesis counts as idle.
  | supplied => simp [Rule.idle] at hr
  | yes _ _ ih | foreseen _ _ ih =>
      simp only [Rule.idle, Bool.or_eq_false_iff] at hr
      exact ih hr.1
  | no _ _ ih | unforeseen _ _ ih =>
      simp only [Rule.idle, Bool.or_eq_false_iff] at hr
      exact ih hr.2
  | value _ ih => exact ih rfl
  | record _ ih | together _ ih => exact ih hr
  | _ => simp [Rule.idle] at hr

/-- A rule that is not idle leaves fewer tokens, which bounds the rounds of a repetition. -/
theorem length_lt {n : Nat} {r : Rule} {ts rest : List Token} {ms : List Move}
    {ks : List Note} (h : Reads n r ts ms ks rest) (hr : r.idle = false) :
    rest.length < ts.length := by
  have hpos := List.length_pos_iff.2 (h.consumed_ne_nil hr)
  rw [← h.consumed_append, List.length_append]
  omega

/-- A repetition ends where its test fails, since it goes on as long as it does not. -/
theorem passes_rest {n : Nat} {test : TokenKind → Bool} {body : Rule} {ts rest : List Token}
    {ms : List Move} {ks : List Note} (h : Reads n (.repeatWhile test body) ts ms ks rest) :
    State.passes [test] rest = false := by
  generalize hr : Rule.repeatWhile test body = r at h
  induction h with
  | stop htest =>
      cases hr
      exact htest
  | again _ _ _ _ ih => exact ih hr
  | _ => cases hr

end Reads

/-! ### What the relation allows is what reading does -/

/-- More rounds change nothing once the test fails, so the exact number of rounds allowed does not
matter. -/
theorem repeatWhile_mono {test : TokenKind → Bool} {step : State → Outcome} {k m : Nat}
    {s t : State} (h : repeatWhile test step k s = .ok t)
    (ht : State.passes [test] t.after = false) (hkm : k ≤ m) :
    repeatWhile test step m s = .ok t := by
  induction k generalizing m s with
  | zero =>
      cases h
      cases m with
      -- Without rounds the repetition is over, and so it is with more of them.
      | zero => rfl
      | succ m => rw [repeatWhile, ht]; rfl
  | succ k ih =>
      obtain ⟨m, rfl⟩ : ∃ m', m = m' + 1 := ⟨m - 1, by omega⟩
      rw [repeatWhile] at h ⊢
      split at h
      · next hp =>
        rw [if_pos hp]
        -- The round is the same one, and the others have one round less in both.
        obtain ⟨u, hu, hut⟩ := Outcome.andThen_eq_ok.1 h
        rw [hu]
        exact ih hut (by omega)
      · next hp => rw [if_neg hp, h]

/-- The bytes read are those of the tokens consumed, if there are any. -/
theorem State.rangeFrom_follow {s : State} {ms : List Move} (ks : List Note) {rest : List Token}
    (hms : Move.consumed ms ≠ []) (hs : Move.consumed ms ++ rest = s.after) :
    s.rangeFrom (s.follow ms ks rest) = Move.range ms := by
  have hlast : ((Move.consumed ms).reverse ++ s.before).head?
      = (Move.consumed ms).getLast? := by
    rw [List.head?_append, Option.or_of_isSome (by simpa using hms), List.head?_reverse]
  have hnext : s.next.start = ((Move.consumed ms).head?.map Token.start).getD 0 := by
    obtain ⟨t, us, htu⟩ := List.exists_cons_of_ne_nil hms
    rw [State.next, ← hs, htu]
    rfl
  simp only [State.rangeFrom, State.follow, hlast, hnext, Move.range]

/-- A stretch of tokens is passed one by one, so passing it leaves a trace of passes and nothing
else. -/
theorem State.takeMany_eq_follow (k : Nat) (s : State) :
    State.takeMany k s = s.follow ((s.after.take k).map .pass) [] (s.after.drop k) := by
  induction k generalizing s with
  | zero => exact (State.follow_nil s).symm
  | succ k ih =>
      rw [State.takeMany, ih]
      cases hs : s.after with
      | nil => simp [State.take, hs, State.follow]
      | cons t ts => simp [State.take, hs, State.follow]

/-- Whatever the relation allows, reading does. The induction is on the relation, which follows the
rule and the rounds of a repetition. -/
theorem run_of_reads {n : Nat} {r : Rule} {ts rest : List Token} {ms : List Move}
    {ks : List Note} (h : Reads n r ts ms ks rest) (hr : r.steady = true) (s : State)
    (hs : s.after = ts) (h0 : s.attempts = 0) :
    r.run (readValue n) s = .ok (s.follow ms ks rest) := by
  induction h generalizing s with
  | empty => rw [← hs, State.follow_nil, Rule.run]
  | seq _ _ ih₁ ih₂ =>
      simp only [Rule.steady, Bool.and_eq_true] at hr
      rw [Rule.run, ih₁ hr.1 s hs h0, Outcome.ok_andThen,
        ih₂ hr.2 (s.follow _ _ _) (State.after_follow ..) h0, State.follow_follow]
  | expect hk => simp [Rule.run, State.expect, hs, hk, State.take, State.follow]
  | dropped hk hu =>
      simp [Rule.run, State.expect, hs, hk, hu, h0, State.takeMany, State.take, State.repair,
        State.follow, Move.consumed, Move.repairs]
  | supplied =>
      simp [Rule.run, State.expect, hs, h0, State.repair, State.follow, Move.consumed,
        Move.repairs, State.next, Token.atEnd, Token.span, Token.stop, Text.size]
  | take => simp [Rule.run, State.take, hs, State.follow]
  | yes hp _ ih =>
      simp only [Rule.steady, Bool.and_eq_true] at hr
      rw [Rule.run, hs, if_pos hp, ih hr.1 s hs h0]
  | no hp _ ih =>
      simp only [Rule.steady, Bool.and_eq_true] at hr
      rw [Rule.run, hs, if_neg (by simp [hp]), ih hr.2 s hs h0]
  | foreseen hp _ ih =>
      simp only [Rule.steady, Bool.and_eq_true] at hr
      rw [Rule.run_foresee _ hr.1.1, hs, if_pos hp, ih hr.1.2 s hs h0]
  | unforeseen hp _ ih =>
      simp only [Rule.steady, Bool.and_eq_true] at hr
      rw [Rule.run_foresee _ hr.1.1, hs, if_neg (by simp [hp]), ih hr.2 s hs h0]
  | @stop n test body ts hp =>
      rw [Rule.run, ← hs, State.follow_nil]
      cases hlen : s.after.length with
      | zero => rfl
      | succ k => rw [repeatWhile, hs, if_neg (by simp [hp])]
  | @again n test body ts mid rest ms₁ ms₂ ks₁ ks₂ hp hbody hrest ih₁ ih₂ =>
      have hsteady := hr
      simp only [Rule.steady, Bool.and_eq_true, Bool.not_eq_true'] at hr
      -- The body passes a token, so the others begin with fewer tokens.
      have hlt := hbody.length_lt hr.1
      have hfirst := ih₁ hr.2 s hs h0
      have hothers := ih₂ hsteady (s.follow ms₁ ks₁ mid) rfl h0
      rw [State.follow_follow] at hothers
      -- The rounds left for the others are at least as many as the tokens they start with.
      obtain ⟨k, hk⟩ : ∃ k, s.after.length = k + 1 := ⟨s.after.length - 1, by rw [hs]; omega⟩
      rw [Rule.run, hk, repeatWhile, hs, if_pos hp, hfirst, Outcome.ok_andThen]
      refine repeatWhile_mono hothers hrest.passes_rest ?_
      rw [hs] at hk
      rw [State.after_follow]
      omega
  | value _ ih => exact ih rfl s hs h0
  | skip =>
      subst hs
      exact congrArg Outcome.ok (State.takeMany_eq_follow _ s)
  | record hbody ih =>
      simp only [Rule.steady, Bool.and_eq_true, Bool.not_eq_true'] at hr
      rw [Rule.run, ih hr.2 s hs h0, Outcome.ok_andThen,
        State.rangeFrom_follow _ (hbody.consumed_ne_nil hr.1)
          (by rw [hs]; exact hbody.consumed_append)]
      simp [State.record, h0, State.follow, Note.apply]
  | together _ ih => rw [Rule.run, ih hr s hs h0]
  | declare => simp [Rule.run, State.declare, h0, ← hs, State.follow, Note.apply]
  | defaults => simp [Rule.run, State.noteDefaults, h0, ← hs, State.follow, Note.apply]
  | finish =>
      have hend := s.follow_nil
      rw [hs] at hend
      rw [Rule.run, State.atEnd, hs, hend]
      rfl

/-! ### What reading does is what the relation allows -/

/-- What `reads_of_run` says of one rule at one place, as a name for the induction. -/
def Readable (n : Nat) (r : Rule) (s t : State) : Prop :=
  ∃ ms ks rest, Reads n r s.after ms ks rest ∧ t = s.follow ms ks rest

/-- A rule that leaves the place as it is. -/
theorem readable_self {n : Nat} {r : Rule} {s : State} (h : Reads n r s.after [] [] s.after) :
    Readable n r s s :=
  ⟨[], [], s.after, h, s.follow_nil.symm⟩

/-- Two traces of which the second begins where the first ends are one. -/
theorem Readable.trans {n : Nat} {r₁ r₂ r : Rule} {s t u : State} (h₁ : Readable n r₁ s t)
    (h₂ : Readable n r₂ t u)
    (hr : ∀ {ms₁ ms₂ : List Move} {ks₁ ks₂ : List Note} {mid rest : List Token},
      Reads n r₁ s.after ms₁ ks₁ mid → Reads n r₂ mid ms₂ ks₂ rest →
        Reads n r s.after (ms₁ ++ ms₂) (ks₁ ++ ks₂) rest) : Readable n r s u := by
  obtain ⟨ms₁, ks₁, mid, hr₁, rfl⟩ := h₁
  obtain ⟨ms₂, ks₂, rest, hr₂, rfl⟩ := h₂
  exact ⟨ms₁ ++ ms₂, ks₁ ++ ks₂, rest, hr hr₁ hr₂, State.follow_follow ..⟩

/-- The same trace read by another rule leads to the same place, also with other levels. -/
theorem Readable.imp {n m : Nat} {r r' : Rule} {s t : State} (h : Readable n r s t)
    (hr : ∀ {ms : List Move} {ks : List Note} {rest : List Token},
      Reads n r s.after ms ks rest → Reads m r' s.after ms ks rest) : Readable m r' s t := by
  obtain ⟨ms, ks, rest, hread, rfl⟩ := h
  exact ⟨ms, ks, rest, hr hread, rfl⟩

/-- Reading leaves as many attempts under way as before, since a trace says nothing of attempts. -/
theorem Readable.attempts_eq {n : Nat} {r : Rule} {s t : State} (h : Readable n r s t) :
    t.attempts = s.attempts := by
  obtain ⟨ms, ks, rest, -, rfl⟩ := h
  rfl

/-- Passing a wanted token, with repairs: there is one way for each of the three, the token itself,
a stray one in front, and the end. -/
theorem readable_of_expect {n : Nat} {kind : TokenKind} {s t : State}
    (h : s.expect kind = .ok t) : Readable n (.expect kind) s t := by
  -- There are three ways on: the token is there, it is supplied, or a stray one is dropped.
  rw [State.expect] at h
  split at h
  · next hs =>
    split at h
    · next hk =>
      cases h
      obtain ⟨-, rfl⟩ := hk
      refine ⟨[.supply], [], [], by rw [hs]; exact .supplied, ?_⟩
      simp [State.repair, State.follow, State.next, hs, Token.atEnd, Token.span, Token.stop,
        Text.size, Move.consumed, Move.repairs]
    · cases h
  · next u us hs =>
    split at h
    · next hk =>
      cases h
      refine ⟨[.pass u], [], us, by rw [hs]; exact .expect hk, ?_⟩
      simp [State.take, hs, State.follow]
    · next hk =>
      split at h
      · next hv =>
        cases h
        cases us with
        | nil => simp at hv
        | cons v vs =>
            have hv' : v.kind.sameClass kind = true := by simpa using hv.2
            refine ⟨[.drop u kind, .pass v], [], vs, ?_, ?_⟩
            · rw [hs]
              exact .dropped (by simpa using hk) hv'
            · simp [State.takeMany, State.take, State.repair, hs, State.follow, Move.consumed,
                Move.repairs]
      · cases h

/-- A repetition, if its body is read as the relation says. The rounds left are at least as
many as the tokens ahead. -/
theorem readable_of_repeatWhile {n : Nat} {test : TokenKind → Bool} {body : Rule}
    (hidle : body.idle = false)
    (hbody : ∀ s t : State, s.attempts = 0 → State.passes [test] s.after = true →
      body.run (readValue n) s = .ok t → Readable n body s t) (rounds : Nat) {s t : State}
    (hlen : s.after.length ≤ rounds) (h0 : s.attempts = 0)
    (h : repeatWhile test (body.run (readValue n)) rounds s = .ok t) :
    Readable n (.repeatWhile test body) s t := by
  induction rounds generalizing s with
  | zero =>
      have hs : s.after = [] := List.length_eq_zero_iff.1 (Nat.le_zero.1 hlen)
      cases h
      refine readable_self (.stop ?_)
      rw [hs]
      rfl
  | succ rounds ih =>
      rw [repeatWhile] at h
      split at h
      · next hp =>
        obtain ⟨u, hu, hut⟩ := Outcome.andThen_eq_ok.1 h
        have hfirst := hbody s u h0 hp hu
        -- The body has passed a token, so the rounds left still suffice.
        have hshort : u.after.length ≤ rounds := by
          obtain ⟨ms, ks, rest, hread, rfl⟩ := hfirst
          have := hread.length_lt hidle
          rw [State.after_follow]
          omega
        exact hfirst.trans (ih hshort (hfirst.attempts_eq.trans h0) hut) (.again hp)
      · next hp =>
        cases h
        exact readable_self (.stop (by simpa using hp))

/-- A tested token is ahead, so behind passed tests that many tokens can be taken. -/
theorem State.length_le_of_passes {tests : List (TokenKind → Bool)} {ts : List Token}
    (h : State.passes tests ts = true) : tests.length ≤ ts.length := by
  induction tests generalizing ts with
  | nil => exact Nat.zero_le _
  | cons test tests ih =>
      cases ts with
      | nil => cases h
      | cons t ts =>
          simp only [State.passes, Bool.and_eq_true] at h
          exact Nat.succ_le_succ (ih h.2)

/-- The tokens that are still ahead after a rule, of those tested. -/
theorem Readable.untaken_le {n tested : Nat} {r : Rule} {s t : State} (h : Readable n r s t)
    (hs : tested ≤ s.after.length) : Rule.untaken tested r ≤ t.after.length := by
  obtain ⟨ms, ks, rest, hread, rfl⟩ := h
  rw [State.after_follow]
  generalize s.after = ts at hread hs
  cases hread with
  | empty => exact hs
  | take => exact Nat.sub_le_of_le_add hs
  | _ => exact Nat.zero_le _

/-- Whatever reading a rule does the relation allows, if that holds of values. -/
theorem readable_of_run {n : Nat}
    (hvalue : ∀ (power : Nat) (s t : State), s.attempts = 0 → readValue n power s = .ok t →
      Readable n (.value power) s t)
    (r : Rule) (hr : r.steady = true) (tested : Nat) (hg : r.guarded tested = true)
    {s t : State} (hs : tested ≤ s.after.length) (h0 : s.attempts = 0)
    (h : r.run (readValue n) s = .ok t) : Readable n r s t := by
  induction r generalizing tested s t with
  | empty =>
      cases h
      exact readable_self .empty
  | seq first second ih₁ ih₂ =>
      simp only [Rule.steady, Rule.guarded, Bool.and_eq_true] at hr hg
      obtain ⟨mid, hmid, ht⟩ := Outcome.andThen_eq_ok.1 h
      have hfirst := ih₁ hr.1 tested hg.1 hs h0 hmid
      have hsecond := ih₂ hr.2 _ hg.2 (hfirst.untaken_le hs) (hfirst.attempts_eq.trans h0) ht
      exact hfirst.trans hsecond .seq
  | expect kind => exact readable_of_expect h
  | take =>
      cases h
      cases hts : s.after with
      | nil =>
          -- Without a token ahead nothing could have been tested.
          have hpos : 0 < tested := by simpa [Rule.guarded] using hg
          rw [hts, List.length_nil] at hs
          omega
      | cons u us =>
          refine ⟨[.pass u], [], us, by rw [hts]; exact .take, ?_⟩
          simp [State.take, hts, State.follow]
  | fail wanted => cases h
  | branch tests yes no ihy ihn =>
      simp only [Rule.steady, Rule.guarded, Bool.and_eq_true] at hr hg
      rw [Rule.run] at h
      split at h
      · next hp =>
        -- The tests that were passed count as tokens tested from here on.
        have hlen := Nat.max_le.2 ⟨hs, State.length_le_of_passes hp⟩
        exact (ihy hr.1 _ hg.1 hlen h0 h).imp (.yes hp)
      · next hp => exact (ihn hr.2 _ hg.2 hs h0 h).imp (.no (by simpa using hp))
  | foresee attempt yes no _ ihy ihn =>
      simp only [Rule.steady, Rule.guarded, Bool.and_eq_true] at hr hg
      rw [Rule.run_foresee n hr.1.1] at h
      split at h
      · next hp => exact (ihy hr.1.2 _ hg.1 hs h0 h).imp (.foreseen hp)
      · next hp => exact (ihn hr.2 _ hg.2 hs h0 h).imp (.unforeseen (by simpa using hp))
  | repeatWhile test body ih =>
      simp only [Rule.steady, Rule.guarded, Bool.and_eq_true, Bool.not_eq_true'] at hr hg
      have hbody : ∀ s t : State, s.attempts = 0 → State.passes [test] s.after = true →
          body.run (readValue n) s = .ok t → Readable n body s t := by
        intro s t h0 hp ht
        exact ih hr.2 1 hg (State.length_le_of_passes hp) h0 ht
      exact readable_of_repeatWhile hr.1 hbody _ (Nat.le_refl _) h0 h
  | value power => exact hvalue power s t h0 h
  | skip =>
      cases h
      exact ⟨_, _, _, .skip, State.takeMany_eq_follow _ s⟩
  | record part body ih =>
      simp only [Rule.steady, Bool.and_eq_true, Bool.not_eq_true'] at hr
      obtain ⟨u, hu, hut⟩ := Outcome.andThen_eq_ok.1 h
      cases hut
      obtain ⟨ms, ks, rest, hread, rfl⟩ := ih hr.2 _ hg hs h0 hu
      refine ⟨ms, ks ++ [.part part ms], rest, .record hread, ?_⟩
      -- A recorded rule consumes a token, so its range begins and ends with tokens.
      rw [State.rangeFrom_follow ks (hread.consumed_ne_nil hr.1) hread.consumed_append]
      simp [State.record, h0, State.follow, Note.apply]
  | together body ih =>
      rw [Rule.run] at h
      split at h
      · next hu =>
        cases h
        exact (ih hr _ hg hs h0 hu).imp .together
      · cases h
  | declare type =>
      cases h
      refine ⟨[], [.type type], s.after, .declare, ?_⟩
      simp [State.declare, h0, State.follow, Note.apply]
  | defaults =>
      cases h
      refine ⟨[], [.defaults], s.after, .defaults, ?_⟩
      simp [State.noteDefaults, h0, State.follow, Note.apply]
  | finish =>
      rw [Rule.run] at h
      split at h
      · next hend =>
        cases h
        have hs : s.after = [] := List.isEmpty_iff.1 hend
        exact readable_self (by rw [hs]; exact .finish)
      · cases h

/-- Values are read as the relation says, however many levels of nesting are left. -/
theorem readable_of_readValue (n power : Nat) {s t : State} (h0 : s.attempts = 0)
    (h : readValue n power s = .ok t) : Readable n (.value power) s t := by
  induction n generalizing power s t with
  | zero => cases h
  | succ n ih =>
      -- A value inside this one is read with a level less.
      have hbody := readable_of_run (fun power _ _ => ih power) (Grammar.value power) rfl 0 rfl
        (Nat.zero_le _) h0 h
      exact hbody.imp .value

/-- Whatever reading does, the relation allows. The induction is on the levels and then on the rule;
a repetition needs a third one, on its rounds. -/
theorem reads_of_run {n : Nat} {r : Rule} (hr : r.steady = true) (hg : r.guarded 0 = true)
    {s t : State} (h0 : s.attempts = 0) (h : r.run (readValue n) s = .ok t) :
    ∃ ms ks rest, Reads n r s.after ms ks rest ∧ t = s.follow ms ks rest :=
  readable_of_run (fun power _ _ => readable_of_readValue n power) r hr 0 hg (Nat.zero_le _) h0 h

/-- The rules of all statements are steady. They are data, so this is computed. -/
theorem steady_statement (type : StatementType) : (Grammar.statement type).steady = true := by
  cases type <;> rfl

/-- The rules of all statements test every token before they take it. -/
theorem guarded_statement (type : StatementType) :
    (Grammar.statement type).guarded 0 = true := by
  cases type <;> rfl

/-- Every statement is read as the relation says. The two side conditions of `reads_of_run` are
checked on the grammar here, once for all. -/
theorem reads_statement (type : StatementType) {s t : State} (h0 : s.attempts = 0)
    (h : (Grammar.statement type).read s = .ok t) :
    ∃ ms ks rest, Reads nestingLimit (Grammar.statement type) s.after ms ks rest ∧
      t = s.follow ms ks rest :=
  reads_of_run (steady_statement type) (guarded_statement type) h0 h

end GeneratedKeys
