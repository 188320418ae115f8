import GeneratedKeys.Proofs.Reading.Leads

/-!
# `GeneratedKeys.Proofs.Reading.Nests`: values inside values

`Nests d r ts rest` says that rule `r`, read from the tokens `ts` on, comes to a value that
begins in front of `rest` inside `d` other values. The values that are passed on the way may be
nested to any depth, so the relation knows nothing of a limit: it tells where a value begins
whether or not there are levels left to read it.

Reading with `d` levels stops as too deep exactly if some value is nested so, and it stops at the
first one.

* `Stalls.nests`: where reading stops as too deep, a value begins inside as many others as there
  were levels.
* `cut_of_nests`: if a value begins inside as many others as there are levels, reading stops as too
  deep, at that value or before it.
* `tooDeep_run_iff`: both together.
-/

set_option autoImplicit false

namespace GeneratedKeys

open Move Outcome

/-- Reading rule `r` in `ts` comes to a value that begins in front of `rest`, inside `d` other
values. -/
inductive Nests : Nat → Rule → List Token → List Token → Prop where
  | here {power : Nat} {ts : List Token} : Nests 0 (.value power) ts ts
  | inside {d power : Nat} {ts rest : List Token} :
      Nests d (Grammar.value power) ts rest → Nests (d + 1) (.value power) ts rest
  | first {d : Nat} {first second : Rule} {ts rest : List Token} :
      Nests d first ts rest → Nests d (.seq first second) ts rest
  | second {d n : Nat} {first second : Rule} {ts mid rest : List Token} {ms : List Move}
      {ks : List Note} :
      Reads n first ts ms ks mid → Nests d second mid rest → Nests d (.seq first second) ts rest
  | yes {d : Nat} {tests : List (TokenKind → Bool)} {yes no : Rule} {ts rest : List Token} :
      State.passes tests ts = true → Nests d yes ts rest → Nests d (.branch tests yes no) ts rest
  | no {d : Nat} {tests : List (TokenKind → Bool)} {yes no : Rule} {ts rest : List Token} :
      State.passes tests ts = false → Nests d no ts rest → Nests d (.branch tests yes no) ts rest
  | foreseen {d : Nat} {attempt yes no : Rule} {ts rest : List Token} :
      (attempt.strict ts).isSome = true → Nests d yes ts rest →
        Nests d (.foresee attempt yes no) ts rest
  | unforeseen {d : Nat} {attempt yes no : Rule} {ts rest : List Token} :
      (attempt.strict ts).isSome = false → Nests d no ts rest →
        Nests d (.foresee attempt yes no) ts rest
  | round {d : Nat} {test : TokenKind → Bool} {body : Rule} {ts rest : List Token} :
      State.passes [test] ts = true → Nests d body ts rest →
        Nests d (.repeatWhile test body) ts rest
  | again {d n : Nat} {test : TokenKind → Bool} {body : Rule} {ts mid rest : List Token}
      {ms : List Move} {ks : List Note} :
      State.passes [test] ts = true → Reads n body ts ms ks mid →
        Nests d (.repeatWhile test body) mid rest → Nests d (.repeatWhile test body) ts rest
  | record {d : Nat} {part : Part} {body : Rule} {ts rest : List Token} :
      Nests d body ts rest → Nests d (.record part body) ts rest
  | together {d : Nat} {body : Rule} {ts rest : List Token} :
      Nests d body ts rest → Nests d (.together body) ts rest

/-- What is left of the tokens where the value begins is a last part of them, so the deep place lies
within the reading. -/
theorem Nests.suffix {d : Nat} {r : Rule} {ts rest : List Token} (h : Nests d r ts rest) :
    rest <:+ ts := by
  induction h with
  | here => exact List.suffix_refl _
  | second hread _ ih | again _ hread _ ih => exact ih.trans ⟨_, hread.consumed_append⟩
  | inside _ ih | first _ ih | record _ ih | together _ ih => exact ih
  | yes _ _ ih | no _ _ ih | foreseen _ _ ih | unforeseen _ _ ih | round _ _ ih => exact ih

/-- Where reading stops as too deep, a value begins inside as many others as there were levels. -/
theorem Stalls.nests {n : Nat} {r : Rule} {ts rest : List Token} {ms : List Move}
    {ks : List Note} (h : Stalls n r ts ms ks rest .tooDeep) : Nests n r ts rest := by
  -- The reason is kept as an equation, so that the cases that stall for another reason fall away.
  generalize hreason : Reason.tooDeep = reason at h
  induction h with
  | first _ ih => exact .first (ih hreason)
  | second hread _ ih => exact .second hread (ih hreason)
  | yes hp _ ih => exact .yes hp (ih hreason)
  | no hp _ ih => exact .no hp (ih hreason)
  | foreseen hp _ ih => exact .foreseen hp (ih hreason)
  | unforeseen hp _ ih => exact .unforeseen hp (ih hreason)
  | round hp _ ih => exact .round hp (ih hreason)
  | again hp hread _ ih => exact .again hp hread (ih hreason)
  | value _ ih => exact .inside (ih hreason)
  -- With no level left the value begins right here.
  | tooDeep => exact .here
  | record _ ih => exact .record (ih hreason)
  | together _ ih => exact .together (ih hreason)
  | missing | other | fail | finish => cases hreason

/-! ### Reading is cut off at a nested value -/

/-- Reading is cut off as too deep, at the latest in front of `rest`. It may be cut off earlier, by
another value that is as deep. -/
def Outcome.Cut (o : Outcome) (rest : List Token) : Prop :=
  TooDeep o ∧ rest.length ≤ o.state.after.length

/-- Behind a reading that is cut off nothing is read, so the whole is cut off at the same place. -/
theorem Outcome.Cut.andThen {o : Outcome} {rest : List Token} (h : o.Cut rest)
    (next : State → Outcome) : (o.andThen next).Cut rest := by
  obtain ⟨⟨place, u, rfl⟩, hrest⟩ := h
  exact ⟨tooDeep_stop place u, hrest⟩

/-- Tokens further on are fewer, so being cut off in front of `mid` says the same of every place
behind it. -/
theorem Outcome.Cut.of_suffix {o : Outcome} {mid rest : List Token} (h : o.Cut mid)
    (hrest : rest <:+ mid) : o.Cut rest :=
  ⟨h.1, Nat.le_trans hrest.length_le h.2⟩

/-- A repetition that stops does so with more rounds as well, as it never comes to the end of its
rounds. -/
theorem repeatWhile_stop_mono {test : TokenKind → Bool} {step : State → Outcome} {k m : Nat}
    {s t : State} {e : ParseError} (h : repeatWhile test step k s = .stop e t) (hkm : k ≤ m) :
    repeatWhile test step m s = .stop e t := by
  induction k generalizing m s with
  | zero => cases h
  | succ k ih =>
      obtain ⟨m, rfl⟩ : ∃ m', m = m' + 1 := ⟨m - 1, by omega⟩
      rw [repeatWhile] at h ⊢
      split at h
      · next hp =>
        rw [if_pos hp]
        cases hstep : step s with
        | stop e' u =>
            rw [hstep] at h
            exact h
        | ok u =>
            rw [hstep, ok_andThen] at h
            -- The round was read to its end, so a later round is the one that stops.
            exact ih h (Nat.le_of_succ_le_succ hkm)
      · cases h

/-- Of two places in the same tokens, the one that fewer tokens are passed at has more ahead. -/
theorem length_after_le {s t : State} (htokens : s.tokens = t.tokens)
    (hposition : s.position ≤ t.position) : t.after.length ≤ s.after.length := by
  have hlength := congrArg List.length htokens
  simp only [State.tokens, List.length_append, List.length_reverse] at hlength
  unfold State.position at hposition
  omega

/-- What is read with some number of levels is read with another, unless it is cut off. -/
theorem run_of_reads_or_cut {n : Nat} {r : Rule} {ts mid : List Token} {ms : List Move}
    {ks : List Note} (h : Reads n r ts ms ks mid) (d : Nat) (hr : r.steady = true) {s : State}
    (hs : s.after = ts) (h0 : s.attempts = 0) :
    r.run (readValue d) s = .ok (s.follow ms ks mid) ∨ (r.run (readValue d) s).Cut mid := by
  have hrun := run_of_reads h hr s hs h0
  rcases Nat.le_total n d with hle | hle
  · rcases run_cutOff hle hr s with hsame | ⟨⟨place, u, hdeep⟩, -⟩
    · exact .inl (hsame.symm.trans hrun)
    · cases hrun.symm.trans hdeep
  · rcases run_cutOff hle hr s with hsame | ⟨hdeep, hposition⟩
    · exact .inl (hsame.trans hrun)
    · -- Both runs go through the same tokens, and the one cut off does not come as far.
      refine .inr ⟨hdeep, ?_⟩
      have htokens : ∀ k, (r.run (readValue k) s).state.tokens = s.tokens := fun k =>
        stepRelation_tokens.run_relates (stepRelation_tokens.readValue_relates k) r s
      have hlength := length_after_le ((htokens d).trans (htokens n).symm) hposition
      rw [hrun] at hlength
      exact hlength

/-- If a value begins inside as many others as there are levels, reading stops as too deep, at that
value or before it. -/
theorem cut_of_nests {d : Nat} {r : Rule} {ts rest : List Token} (h : Nests d r ts rest)
    (hr : r.steady = true) {s : State} (hs : s.after = ts) (h0 : s.attempts = 0) :
    (r.run (readValue d) s).Cut rest := by
  induction h generalizing s with
  | here => exact ⟨tooDeep_stop s.next.span s, Nat.le_of_eq (congrArg List.length hs.symm)⟩
  | inside _ ih => exact ih rfl hs h0
  | first _ ih =>
      simp only [Rule.steady, Bool.and_eq_true] at hr
      exact (ih hr.1 hs h0).andThen _
  | @second d n first second ts mid rest ms ks hread hnests ih =>
      simp only [Rule.steady, Bool.and_eq_true] at hr
      -- Either the first rule is read, or reading is cut off in it already.
      rcases run_of_reads_or_cut hread d hr.1 hs h0 with hfirst | hcut
      · rw [Rule.run, hfirst, ok_andThen]
        exact ih hr.2 (State.after_follow ..) h0
      · exact (hcut.of_suffix hnests.suffix).andThen _
  | yes hp _ ih =>
      simp only [Rule.steady, Bool.and_eq_true] at hr
      rw [Rule.run, hs, if_pos hp]
      exact ih hr.1 hs h0
  | no hp _ ih =>
      simp only [Rule.steady, Bool.and_eq_true] at hr
      rw [Rule.run, hs, if_neg (by simp [hp])]
      exact ih hr.2 hs h0
  | foreseen hp _ ih =>
      simp only [Rule.steady, Bool.and_eq_true] at hr
      rw [Rule.run_foresee _ hr.1.1, hs, if_pos hp]
      exact ih hr.1.2 hs h0
  | unforeseen hp _ ih =>
      simp only [Rule.steady, Bool.and_eq_true] at hr
      rw [Rule.run_foresee _ hr.1.1, hs, if_neg (by simp [hp])]
      exact ih hr.2 hs h0
  | @round d test body ts rest hp hnests ih =>
      simp only [Rule.steady, Bool.and_eq_true] at hr
      obtain ⟨k, hk⟩ : ∃ k, s.after.length = k + 1 := by
        rw [hs]
        exact ⟨ts.length - 1, by have := State.length_le_of_passes hp; simp at this; omega⟩
      rw [Rule.run, hk, repeatWhile, hs, if_pos hp]
      exact (ih hr.2 hs h0).andThen _
  | @again d n test body ts mid rest ms ks hp hread hnests ih =>
      have hsteady := hr
      simp only [Rule.steady, Bool.and_eq_true, Bool.not_eq_true'] at hr
      have hlt := hread.length_lt hr.1
      obtain ⟨k, hk⟩ : ∃ k, s.after.length = k + 1 := ⟨s.after.length - 1, by rw [hs]; omega⟩
      rw [Rule.run, hk, repeatWhile, hs, if_pos hp]
      rcases run_of_reads_or_cut hread d hr.2 hs h0 with hbody | hcut
      · -- The rounds left are at least as many as those with which the others begin.
        obtain ⟨⟨place, u, hstop⟩, hrest⟩ :=
          ih hsteady (s := s.follow ms ks mid) (State.after_follow ..) h0
        rw [hstop] at hrest
        rw [Rule.run, State.after_follow] at hstop
        rw [hbody, ok_andThen, repeatWhile_stop_mono hstop (by rw [hs] at hk; omega)]
        exact ⟨tooDeep_stop place u, hrest⟩
      · exact (hcut.of_suffix hnests.suffix).andThen _
  | record _ ih =>
      simp only [Rule.steady, Bool.and_eq_true] at hr
      exact (ih hr.2 hs h0).andThen _
  | together _ ih =>
      obtain ⟨⟨place, u, hstop⟩, hrest⟩ := ih hr hs h0
      rw [hstop] at hrest
      rw [Rule.run, hstop]
      exact ⟨tooDeep_stop place _, hrest⟩

/-! ### The first value that is nested too deep -/

/-- The place `rest` is that of the first value inside `d` others. No other one that is as deep has
more tokens ahead. -/
def NestsFirst (d : Nat) (r : Rule) (ts rest : List Token) : Prop :=
  Nests d r ts rest ∧ ∀ rest', Nests d r ts rest' → rest'.length ≤ rest.length

/-- There is one such place: two of them have as many tokens ahead, and both are last parts of the
same tokens. -/
theorem NestsFirst.unique {d : Nat} {r : Rule} {ts rest rest' : List Token}
    (h : NestsFirst d r ts rest) (h' : NestsFirst d r ts rest') : rest = rest' := by
  have hsuffix := List.suffix_of_suffix_length_le h.1.suffix h'.1.suffix (h'.2 rest h.1)
  exact hsuffix.eq_of_length (Nat.le_antisymm (h'.2 rest h.1) (h.2 rest' h'.1))

/-- Reading that stops as too deep does so at the first value inside as many others as there were
levels. -/
theorem nestsFirst_of_run {d : Nat} {r : Rule} (hr : r.steady = true) (hg : r.guarded 0 = true)
    {s u : State} {limit : Nat} {place : Span} (h0 : s.attempts = 0)
    (h : r.run (readValue d) s = .stop (.tooDeep limit place) u) :
    limit = nestingLimit ∧ ∃ rest, NestsFirst d r s.after rest ∧
      place = (nextToken s.size rest).span := by
  obtain ⟨ms, ks, rest, reason, hstalls, rfl, he⟩ := stalls_of_run hr hg h0 h
  cases reason with
  | wanted what => cases he
  | tooDeep =>
      obtain ⟨rfl, rfl⟩ := ParseError.tooDeep.inj he
      refine ⟨rfl, rest, ⟨hstalls.nests, ?_⟩, rfl⟩
      intro rest' hnests
      have hcut := (cut_of_nests hnests hr rfl h0).2
      rwa [h] at hcut

/-- Reading with `d` levels stops as too deep exactly if a value begins inside `d` others. It stops
at the first value of this kind. -/
theorem tooDeep_run_iff {d : Nat} {r : Rule} (hr : r.steady = true) (hg : r.guarded 0 = true)
    {s : State} (h0 : s.attempts = 0) (limit : Nat) (place : Span) :
    (∃ u, r.run (readValue d) s = .stop (.tooDeep limit place) u) ↔
      limit = nestingLimit ∧ ∃ rest, NestsFirst d r s.after rest ∧
        place = (nextToken s.size rest).span := by
  constructor
  · rintro ⟨u, hrun⟩
    exact nestsFirst_of_run hr hg h0 hrun
  · rintro ⟨rfl, rest, hfirst, rfl⟩
    obtain ⟨⟨place, u, hrun⟩, -⟩ := cut_of_nests hfirst.1 hr rfl h0
    obtain ⟨-, rest', hfirst', rfl⟩ := nestsFirst_of_run hr hg h0 hrun
    rw [hfirst.unique hfirst']
    exact ⟨u, hrun⟩

end GeneratedKeys
