import GeneratedKeys.Proofs.Reading.Parsed

/-!
# `GeneratedKeys.Proofs.Reading.Stalls`: reading that stops

`Stalls n r ts ms ks rest reason` says that rule `r`, with `n` levels of nesting left, begins to
read the tokens `ts`, makes the moves `ms`, keeps the notes `ks`, and cannot go on in front of
`rest`. It completes `Reads`: a rule either reads on or stalls, and both tell what is kept.

* `stalls_of_run`: whatever reading does that stops, the relation allows. The error is told by
  the reason and the place.
* `trace_of_parse`: a parse that reports anything reports the parts of what was read, whether
  that is the whole statement or what stands in front of an error.
-/

set_option autoImplicit false

namespace GeneratedKeys

open Move

/-- Why reading cannot go on. There is no other reason than these two once a statement is announced.
-/
inductive Reason where
  /-- Something else is wanted. -/
  | wanted (what : String)
  /-- A value is nested too deep. -/
  | tooDeep
  deriving DecidableEq, Repr

/-- The error that reading stops with, if the place is `s`. The reason and the place determine it.
-/
def Reason.error (s : State) : Reason → ParseError
  | wanted what => s.unexpected what
  | tooDeep => .tooDeep nestingLimit s.next.span

/-- Rule `r`, with `n` levels of nesting left, makes the moves `ms` and keeps the notes `ks` in
`ts`, and it cannot go on in front of `rest`. -/
inductive Stalls :
    Nat → Rule → List Token → List Move → List Note → List Token → Reason → Prop where
  | first {n : Nat} {first second : Rule} {ts rest : List Token} {ms : List Move}
      {ks : List Note} {reason : Reason} :
      Stalls n first ts ms ks rest reason → Stalls n (.seq first second) ts ms ks rest reason
  | second {n : Nat} {first second : Rule} {ts mid rest : List Token} {ms₁ ms₂ : List Move}
      {ks₁ ks₂ : List Note} {reason : Reason} :
      Reads n first ts ms₁ ks₁ mid → Stalls n second mid ms₂ ks₂ rest reason →
        Stalls n (.seq first second) ts (ms₁ ++ ms₂) (ks₁ ++ ks₂) rest reason
  | missing {n : Nat} {kind : TokenKind} :
      kind ≠ .rightParen → Stalls n (.expect kind) [] [] [] [] (.wanted kind.describe)
  | other {n : Nat} {kind : TokenKind} {t : Token} {ts : List Token} :
      t.kind.sameClass kind = false → State.passes [Rule.isA kind] ts = false →
        Stalls n (.expect kind) (t :: ts) [] [] (t :: ts) (.wanted kind.describe)
  | fail {n : Nat} {what : String} {ts : List Token} :
      Stalls n (.fail what) ts [] [] ts (.wanted what)
  | yes {n : Nat} {tests : List (TokenKind → Bool)} {yes no : Rule} {ts rest : List Token}
      {ms : List Move} {ks : List Note} {reason : Reason} :
      State.passes tests ts = true → Stalls n yes ts ms ks rest reason →
        Stalls n (.branch tests yes no) ts ms ks rest reason
  | no {n : Nat} {tests : List (TokenKind → Bool)} {yes no : Rule} {ts rest : List Token}
      {ms : List Move} {ks : List Note} {reason : Reason} :
      State.passes tests ts = false → Stalls n no ts ms ks rest reason →
        Stalls n (.branch tests yes no) ts ms ks rest reason
  | foreseen {n : Nat} {attempt yes no : Rule} {ts rest : List Token} {ms : List Move}
      {ks : List Note} {reason : Reason} :
      (attempt.strict ts).isSome = true → Stalls n yes ts ms ks rest reason →
        Stalls n (.foresee attempt yes no) ts ms ks rest reason
  | unforeseen {n : Nat} {attempt yes no : Rule} {ts rest : List Token} {ms : List Move}
      {ks : List Note} {reason : Reason} :
      (attempt.strict ts).isSome = false → Stalls n no ts ms ks rest reason →
        Stalls n (.foresee attempt yes no) ts ms ks rest reason
  | round {n : Nat} {test : TokenKind → Bool} {body : Rule} {ts rest : List Token}
      {ms : List Move} {ks : List Note} {reason : Reason} :
      State.passes [test] ts = true → Stalls n body ts ms ks rest reason →
        Stalls n (.repeatWhile test body) ts ms ks rest reason
  | again {n : Nat} {test : TokenKind → Bool} {body : Rule} {ts mid rest : List Token}
      {ms₁ ms₂ : List Move} {ks₁ ks₂ : List Note} {reason : Reason} :
      State.passes [test] ts = true → Reads n body ts ms₁ ks₁ mid →
        Stalls n (.repeatWhile test body) mid ms₂ ks₂ rest reason →
          Stalls n (.repeatWhile test body) ts (ms₁ ++ ms₂) (ks₁ ++ ks₂) rest reason
  | value {n power : Nat} {ts rest : List Token} {ms : List Move} {ks : List Note}
      {reason : Reason} :
      Stalls n (Grammar.value power) ts ms ks rest reason →
        Stalls (n + 1) (.value power) ts ms ks rest reason
  | tooDeep {power : Nat} {ts : List Token} : Stalls 0 (.value power) ts [] [] ts .tooDeep
  | record {n : Nat} {part : Part} {body : Rule} {ts rest : List Token} {ms : List Move}
      {ks : List Note} {reason : Reason} :
      Stalls n body ts ms ks rest reason → Stalls n (.record part body) ts ms ks rest reason
  /-- Nothing is kept of parts that are kept all together or not at all. -/
  | together {n : Nat} {body : Rule} {ts rest : List Token} {ms : List Move} {ks : List Note}
      {reason : Reason} :
      Stalls n body ts ms ks rest reason → Stalls n (.together body) ts ms [] rest reason
  | finish {n : Nat} {t : Token} {ts : List Token} :
      Stalls n .finish (t :: ts) [] [] (t :: ts) (.wanted "end of statement")

/-! ### What reading does is what the relation allows -/

/-- What `stalls_of_run` says of one rule at one place, as a name for the induction. -/
def Stalling (n : Nat) (r : Rule) (s : State) (e : ParseError) (t : State) : Prop :=
  ∃ ms ks rest reason, Stalls n r s.after ms ks rest reason ∧ t = s.follow ms ks rest ∧
    e = reason.error t

/-- A rule that stops where it begins has passed nothing and kept nothing. -/
theorem stalling_self {n : Nat} {r : Rule} {s : State} (reason : Reason)
    (h : Stalls n r s.after [] [] s.after reason) : Stalling n r s (reason.error s) s :=
  ⟨[], [], s.after, reason, h, s.follow_nil.symm, rfl⟩

/-- The same trace of another rule, which then stalls for the same reason and with the same error.
-/
theorem Stalling.imp {n m : Nat} {r r' : Rule} {s t : State} {e : ParseError}
    (h : Stalling n r s e t)
    (hr : ∀ {ms : List Move} {ks : List Note} {rest : List Token} {reason : Reason},
      Stalls n r s.after ms ks rest reason → Stalls m r' s.after ms ks rest reason) :
    Stalling m r' s e t := by
  obtain ⟨ms, ks, rest, reason, hstalls, ht, he⟩ := h
  exact ⟨ms, ks, rest, reason, hr hstalls, ht, he⟩

/-- A trace in front of one that stops is the first part of a longer one that does. -/
theorem Stalling.behind {n : Nat} {r₁ r₂ r : Rule} {s t u : State} {e : ParseError}
    (h₁ : Readable n r₁ s t) (h₂ : Stalling n r₂ t e u)
    (hr : ∀ {ms₁ ms₂ : List Move} {ks₁ ks₂ : List Note} {mid rest : List Token} {reason : Reason},
      Reads n r₁ s.after ms₁ ks₁ mid → Stalls n r₂ mid ms₂ ks₂ rest reason →
        Stalls n r s.after (ms₁ ++ ms₂) (ks₁ ++ ks₂) rest reason) : Stalling n r s e u := by
  obtain ⟨ms₁, ks₁, mid, hread, rfl⟩ := h₁
  obtain ⟨ms₂, ks₂, rest, reason, hstalls, rfl, he⟩ := h₂
  exact ⟨ms₁ ++ ms₂, ks₁ ++ ks₂, rest, reason, hr hread hstalls, State.follow_follow .., he⟩

/-- Where asking for a token stops, the rule stalls: the tokens have ended without a wanted one, or
another token is in the way that no wanted one stands behind. -/
theorem stalling_of_expect {n : Nat} {kind : TokenKind} {s t : State} {e : ParseError}
    (h0 : s.attempts = 0) (h : s.expect kind = .stop e t) : Stalling n (.expect kind) s e t := by
  rw [State.expect] at h
  split at h
  · next hs =>
    split at h
    · cases h
    · next hkind =>
      cases h
      -- At the end only a closing parenthesis is supplied.
      refine stalling_self (.wanted kind.describe) ?_
      rw [hs]
      exact .missing fun hclosing => hkind ⟨h0, hclosing⟩
  · next u us hs =>
    split at h
    · cases h
    · next hu =>
      split at h
      · cases h
      · next hnext =>
        cases h
        -- Neither the next token is wanted nor the one behind it.
        refine stalling_self (.wanted kind.describe) ?_
        rw [hs]
        refine .other (by simpa using hu) ?_
        cases us with
        | nil => rfl
        | cons v vs =>
            rw [State.passes_one_cons, ← Bool.not_eq_true]
            intro hv
            exact hnext ⟨h0, hv⟩

/-- A repetition stalls in one of its rounds, behind others that were read to their end. The
induction is on the rounds. -/
theorem stalling_of_repeatWhile {n : Nat} {test : TokenKind → Bool} {body : Rule}
    (hreads : ∀ s t : State, s.attempts = 0 → State.passes [test] s.after = true →
      body.run (readValue n) s = .ok t → Readable n body s t)
    (hstalls : ∀ (s t : State) (e : ParseError), s.attempts = 0 →
      State.passes [test] s.after = true → body.run (readValue n) s = .stop e t →
        Stalling n body s e t) (rounds : Nat) {s t : State} {e : ParseError}
    (h0 : s.attempts = 0)
    (h : repeatWhile test (body.run (readValue n)) rounds s = .stop e t) :
    Stalling n (.repeatWhile test body) s e t := by
  induction rounds generalizing s with
  | zero => cases h
  | succ rounds ih =>
      rw [repeatWhile] at h
      split at h
      · next hp =>
        cases hbody : body.run (readValue n) s with
        | stop e' u =>
            rw [hbody] at h
            cases h
            -- This round is the one that stalls.
            exact (hstalls s t e h0 hp hbody).imp (.round hp)
        | ok u =>
            rw [hbody, Outcome.ok_andThen] at h
            -- This round was read to its end, so a later one stalls.
            have hfirst := hreads s u h0 hp hbody
            exact (ih (hfirst.attempts_eq.trans h0) h).behind hfirst (.again hp)
      · cases h

/-- Whatever reading a rule does that stops the relation allows, if that holds of values. -/
theorem stalling_of_run {n : Nat}
    (hvalue : ∀ (power : Nat) (s t : State) (e : ParseError), s.attempts = 0 →
      readValue n power s = .stop e t → Stalling n (.value power) s e t)
    (r : Rule) (hr : r.steady = true) (tested : Nat) (hg : r.guarded tested = true)
    {s t : State} {e : ParseError} (hs : tested ≤ s.after.length) (h0 : s.attempts = 0)
    (h : r.run (readValue n) s = .stop e t) : Stalling n r s e t := by
  -- What is read to its end in front of the rule that stalls, the relation allows.
  have reads : ∀ (r : Rule), r.steady = true → ∀ tested : Nat, r.guarded tested = true →
      ∀ {s t : State}, tested ≤ s.after.length → s.attempts = 0 →
        r.run (readValue n) s = .ok t → Readable n r s t :=
    fun r hr tested hg => readable_of_run (fun power _ _ => readable_of_readValue n power) r hr
      tested hg
  induction r generalizing tested s t e with
  | seq first second ih₁ ih₂ =>
      simp only [Rule.steady, Rule.guarded, Bool.and_eq_true] at hr hg
      rw [Rule.run] at h
      cases hfirst : first.run (readValue n) s with
      | stop e' u =>
          rw [hfirst] at h
          cases h
          -- The first rule stalls, or else it is read and the second one does.
          exact (ih₁ hr.1 tested hg.1 hs h0 hfirst).imp .first
      | ok u =>
          rw [hfirst, Outcome.ok_andThen] at h
          have hread := reads first hr.1 tested hg.1 hs h0 hfirst
          exact (ih₂ hr.2 _ hg.2 (hread.untaken_le hs) (hread.attempts_eq.trans h0) h).behind
            hread .second
  | expect kind => exact stalling_of_expect h0 h
  | fail what =>
      cases h
      exact stalling_self (.wanted what) .fail
  | branch tests yes no ihy ihn =>
      simp only [Rule.steady, Rule.guarded, Bool.and_eq_true] at hr hg
      rw [Rule.run] at h
      split at h
      · next hp =>
        -- The tests have seen tokens, so these are ahead.
        have hlen := Nat.max_le.2 ⟨hs, State.length_le_of_passes hp⟩
        exact (ihy hr.1 _ hg.1 hlen h0 h).imp (.yes hp)
      · next hp => exact (ihn hr.2 _ hg.2 hs h0 h).imp (.no (by simpa using hp))
  | foresee attempt yes no _ ihy ihn =>
      simp only [Rule.steady, Rule.guarded, Bool.and_eq_true] at hr hg
      rw [Rule.run_foresee n hr.1.1] at h
      split at h
      · next hp => exact (ihy hr.1.2 _ hg.1 hs h0 h).imp (.foreseen hp)
      · next hp => exact (ihn hr.2 _ hg.2 hs h0 h).imp (.unforeseen (by simpa using hp))
  | repeatWhile test body ih =>
      simp only [Rule.steady, Rule.guarded, Bool.and_eq_true, Bool.not_eq_true'] at hr hg
      -- The test of a round has seen the next token, which the body may take.
      refine stalling_of_repeatWhile ?_ ?_ _ h0 h
      · intro s t h0 hp ht
        exact reads body hr.2 1 hg (State.length_le_of_passes hp) h0 ht
      · intro s t e h0 hp ht
        exact ih hr.2 1 hg (State.length_le_of_passes hp) h0 ht
  | value power => exact hvalue power s t e h0 h
  | record part body ih =>
      simp only [Rule.steady, Bool.and_eq_true, Bool.not_eq_true'] at hr
      rw [Rule.run] at h
      cases hbody : body.run (readValue n) s with
      | stop e' u =>
          rw [hbody] at h
          cases h
          exact (ih hr.2 _ hg hs h0 hbody).imp .record
      | ok u =>
          rw [hbody] at h
          cases h
  | together body ih =>
      rw [Rule.run] at h
      split at h
      · cases h
      -- What was kept by the body is put back, so no note is left of it.
      · next e' u hbody =>
        cases h
        obtain ⟨ms, ks, rest, reason, hstalls, rfl, he⟩ := ih hr _ hg hs h0 hbody
        exact ⟨ms, [], rest, reason, .together hstalls, rfl, he⟩
  | finish =>
      rw [Rule.run] at h
      split at h
      · cases h
      · next hend =>
        cases h
        -- The end was wanted, and a token is ahead.
        obtain ⟨u, us, hus⟩ : ∃ u us, s.after = u :: us :=
          List.exists_cons_of_ne_nil fun hnil => hend (List.isEmpty_iff.2 hnil)
        refine stalling_self (.wanted "end of statement") ?_
        rw [hus]
        exact .finish
  | _ => cases h

/-- Values stall as the relation says, however many levels of nesting are left. -/
theorem stalling_of_readValue (n power : Nat) {s t : State} {e : ParseError}
    (h0 : s.attempts = 0) (h : readValue n power s = .stop e t) :
    Stalling n (.value power) s e t := by
  induction n generalizing power s t e with
  | zero =>
      cases h
      exact stalling_self .tooDeep .tooDeep
  | succ n ih =>
      have hbody := stalling_of_run (fun power _ _ _ => ih power) (Grammar.value power) rfl 0 rfl
        (Nat.zero_le _) h0 h
      exact hbody.imp .value

/-- Whatever reading does that stops, the relation allows. The error is then told by the reason and
by the place reached. -/
theorem stalls_of_run {n : Nat} {r : Rule} (hr : r.steady = true) (hg : r.guarded 0 = true)
    {s t : State} {e : ParseError} (h0 : s.attempts = 0)
    (h : r.run (readValue n) s = .stop e t) :
    ∃ ms ks rest reason, Stalls n r s.after ms ks rest reason ∧ t = s.follow ms ks rest ∧
      e = reason.error t :=
  stalling_of_run (fun power _ _ _ => stalling_of_readValue n power) r hr 0 hg (Nat.zero_le _) h0 h

/-- Every statement stalls as the relation says. The side conditions of `stalls_of_run` are checked
on the grammar here. -/
theorem stalls_statement (type : StatementType) {s t : State} {e : ParseError}
    (h0 : s.attempts = 0) (h : (Grammar.statement type).read s = .stop e t) :
    ∃ ms ks rest reason, Stalls nestingLimit (Grammar.statement type) s.after ms ks rest reason ∧
      t = s.follow ms ks rest ∧ e = reason.error t :=
  stalls_of_run (steady_statement type) (guarded_statement type) h0 h

/-! ### What a parse reports -/

/-- Rule `r` keeps the notes `ks` in `ts`, whether it reads to its end or stalls. -/
inductive Retains (n : Nat) (r : Rule) (ts : List Token) (ks : List Note) : Prop where
  | reads {ms : List Move} {rest : List Token} : Reads n r ts ms ks rest → Retains n r ts ks
  | stalls {ms : List Move} {rest : List Token} {reason : Reason} :
      Stalls n r ts ms ks rest reason → Retains n r ts ks

/-- A rule in front of another one stalls, or it is read to its end. -/
theorem Retains.seq_cases {n : Nat} {first second : Rule} {ts : List Token} {ks : List Note}
    (h : Retains n (.seq first second) ts ks) :
    (∃ ms rest reason, Stalls n first ts ms ks rest reason) ∨
      ∃ ms mid ks₁ ks₂, Reads n first ts ms ks₁ mid ∧ Retains n second mid ks₂ ∧
        ks = ks₁ ++ ks₂ := by
  cases h with
  | reads h =>
      cases h with
      | seq h₁ h₂ => exact .inr ⟨_, _, _, _, h₁, .reads h₂, rfl⟩
  | stalls h =>
      cases h with
      | first h₁ => exact .inl ⟨_, _, _, h₁⟩
      | second h₁ h₂ => exact .inr ⟨_, _, _, _, h₁, .stalls h₂, rfl⟩

/-- The last of several rules in order is reached, or one in front of it stalls. -/
theorem Retains.inOrder_cases {n : Nat} {r : Rule} {rs : List Rule} (hrs : rs ≠ [])
    {ts : List Token} {ks : List Note} (h : Retains n (Rule.inOrder (rs ++ [r])) ts ks) :
    (∃ ms rest reason, Stalls n (Rule.inOrder rs) ts ms ks rest reason) ∨
      ∃ ms mid ks₁ ks₂, Reads n (Rule.inOrder rs) ts ms ks₁ mid ∧ Retains n r mid ks₂ ∧
        ks = ks₁ ++ ks₂ := by
  induction rs generalizing ts ks with
  | nil => exact absurd rfl hrs
  | cons first rs ih =>
      cases rs with
      | nil => exact h.seq_cases
      | cons second rs =>
          -- The first rule stalls, or it is read and one of the others may.
          rcases h.seq_cases with ⟨ms, rest, reason, hfirst⟩ |
            ⟨ms, mid, ks₁, ks₂, hfirst, hothers, rfl⟩
          · exact .inl ⟨ms, rest, reason, .first hfirst⟩
          · rcases ih (List.cons_ne_nil _ _) hothers with ⟨ms', rest, reason, hstalls⟩ |
              ⟨ms', mid', ks', ks'', hreads, hlast, rfl⟩
            · exact .inl ⟨_, rest, reason, .second hfirst hstalls⟩
            · exact .inr ⟨_, mid', _, ks'', .seq hfirst hreads, hlast, (List.append_assoc ..).symm⟩

/-- What a repetition keeps, round by round, up to a round that stalls or to its end. -/
theorem Retains.repeatWhile_induction {n : Nat} {test : TokenKind → Bool} {body : Rule}
    {motive : List Token → List Note → Prop} (stop : ∀ ts, motive ts [])
    (round : ∀ ts ms ks rest reason, Stalls n body ts ms ks rest reason → motive ts ks)
    (again : ∀ ts mid ms ks₁ ks₂, State.passes [test] ts = true → Reads n body ts ms ks₁ mid →
      motive mid ks₂ → motive ts (ks₁ ++ ks₂))
    {ts : List Token} {ks : List Note} (h : Retains n (.repeatWhile test body) ts ks) :
    motive ts ks := by
  -- Rounds that are read and rounds that stall are two relations, so there are two inductions.
  generalize hr : Rule.repeatWhile test body = r at h
  cases h with
  | reads h =>
      induction h with
      | stop hp => exact stop _
      | again hp hbody _ _ ih =>
          cases hr
          exact again _ _ _ _ _ hp hbody (ih round again rfl)
      | _ => cases hr
  | stalls h =>
      induction h with
      | round hp hbody _ =>
          cases hr
          exact round _ _ _ _ _ hbody
      | again hp hbody _ ih =>
          cases hr
          exact again _ _ _ _ _ hp hbody (ih round again rfl)
      | _ => cases hr

/-- A parse that reports anything reports the parts of what was read. The rule is that of the
type which the first tokens announce. -/
theorem trace_of_parse {t : Text} {p : ParsedStatement} (h : parse t = .ok p) :
    ∃ type ks, announced (significantTokens t) = .ok type ∧
      Retains nestingLimit (Grammar.statement type) (significantTokens t) ks ∧
      p.statement = partsOf t ks := by
  obtain ⟨type, s, htype, ⟨hrun, rfl⟩ | ⟨message, place, hrun, rfl⟩⟩ := exists_read_of_parse h
  · obtain ⟨ms, ks, rest, hread, rfl⟩ := reads_statement type rfl hrun
    exact ⟨type, ks, htype, .reads hread, rfl⟩
  · obtain ⟨ms, ks, rest, reason, hstalls, rfl, -⟩ := stalls_statement type rfl hrun
    refine ⟨type, ks, htype, .stalls hstalls, ?_⟩
    rw [report_skipToEnd]
    rfl

end GeneratedKeys
