import GeneratedKeys.Proofs.Reading.Kinds
import GeneratedKeys.Proofs.Reading.Tests

/-!
# `GeneratedKeys.Proofs.Reading.Passes`: reading without repairs

`Passes n r ts rest` says that rule `r` reads `ts` up to `rest` as it stands, without
repairs. It follows the rule: one lemma for each constructor says what it passes, and the
lemmas about a rule of the grammar are read off these.

* `passes_iff_run`: passing is what reading does when it makes no repair.
* `passes_levels`: a ground rule passes the same with any number of levels.
* `Passes.of_kinds`: only the kinds of the tokens passed matter.
-/

set_option autoImplicit false

namespace GeneratedKeys

/-- Rule `r` reads `ts` up to `rest` without repairs. What is kept meanwhile is not said, so that
grammars can be compared with it. -/
def Passes (n : Nat) (r : Rule) (ts rest : List Token) : Prop :=
  ∃ ms ks, Reads n r ts ms ks rest ∧ Move.Clean ms

/-- Passing is what reading does when it makes no repair. So what is proved of `Passes` holds of the
function that is run. -/
theorem passes_iff_run {n : Nat} {r : Rule} (hr : r.steady = true) (hg : r.guarded 0 = true)
    {s : State} (h0 : s.attempts = 0) {rest : List Token} :
    Passes n r s.after rest ↔
      ∃ t, r.run (readValue n) s = .ok t ∧ t.after = rest ∧ t.repairs = s.repairs := by
  constructor
  · rintro ⟨ms, ks, hread, hclean⟩
    refine ⟨s.follow ms ks rest, run_of_reads hread hr s rfl h0, rfl, ?_⟩
    show s.repairs ++ Move.repairs s.size ms = s.repairs
    rw [Move.repairs_eq_nil.2 hclean, List.append_nil]
  · rintro ⟨t, hrun, rfl, hrepairs⟩
    obtain ⟨ms, ks, rest, hread, rfl⟩ := reads_of_run hr hg h0 hrun
    refine ⟨ms, ks, hread, ?_⟩
    -- Repairs are only added, so none were made if there are as many as before.
    have hnil : Move.repairs s.size ms = [] := List.append_right_eq_self.1 hrepairs
    exact Move.repairs_eq_nil.1 hnil

namespace Passes

variable {n : Nat} {ts rest : List Token}

/-- The empty rule passes nothing, so in front of it and behind it are the same tokens. -/
theorem empty_iff : Passes n .empty ts rest ↔ ts = rest := by
  constructor
  · rintro ⟨ms, ks, h, -⟩
    cases h
    rfl
  · rintro rfl
    exact ⟨[], [], .empty, Move.clean_nil⟩

/-- Two rules pass what the first passes and then what the second passes. -/
theorem seq_iff {first second : Rule} :
    Passes n (.seq first second) ts rest ↔
      ∃ mid, Passes n first ts mid ∧ Passes n second mid rest := by
  constructor
  · rintro ⟨ms, ks, h, hc⟩
    cases h with
    | seq h₁ h₂ =>
        rw [Move.clean_append] at hc
        exact ⟨_, ⟨_, _, h₁, hc.1⟩, ⟨_, _, h₂, hc.2⟩⟩
  · rintro ⟨mid, ⟨ms₁, ks₁, h₁, hc₁⟩, ⟨ms₂, ks₂, h₂, hc₂⟩⟩
    exact ⟨_, _, .seq h₁ h₂, Move.clean_append.2 ⟨hc₁, hc₂⟩⟩

/-- A wanted token is passed if it comes next. A stray one in front of it would be a repair. -/
theorem expect_iff {kind : TokenKind} :
    Passes n (.expect kind) ts rest ↔ ∃ t, ts = t :: rest ∧ t.kind.sameClass kind = true := by
  constructor
  · rintro ⟨ms, ks, h, hc⟩
    cases h with
    | expect hk => exact ⟨_, rfl, hk⟩
    | dropped => simp [Move.clean_cons] at hc
    | supplied => simp [Move.clean_cons] at hc
  · rintro ⟨t, rfl, hk⟩
    exact ⟨[.pass t], [], .expect hk, Move.clean_map_pass [t]⟩

/-- If its kind has no value, it is the very kind that is wanted. -/
theorem expect_kind_iff {kind : TokenKind} (hk : kind.hasValue = false) :
    Passes n (.expect kind) ts rest ↔ ∃ t, ts = t :: rest ∧ t.kind = kind := by
  simp only [expect_iff, TokenKind.sameClass_iff hk]

/-- A word is passed if it comes next. Passing makes no repair, so it is the very next token. -/
theorem word_iff {k : Keyword} :
    Passes n (Rule.word k) ts rest ↔ ∃ t, ts = t :: rest ∧ t.kind = .keyword k :=
  expect_kind_iff rfl

/-- Any token is passed, but there must be one, as a rule never takes the token of the end. -/
theorem take_iff : Passes n .take ts rest ↔ ∃ t, ts = t :: rest := by
  constructor
  · rintro ⟨ms, ks, h, -⟩
    cases h
    exact ⟨_, rfl⟩
  · rintro ⟨t, rfl⟩
    exact ⟨[.pass t], [], .take, Move.clean_map_pass [t]⟩

/-- The next token is passed, whatever it is. -/
theorem take_cons_iff {t : Token} : Passes n .take (t :: ts) rest ↔ rest = ts := by
  rw [take_iff]
  constructor
  · rintro ⟨u, h⟩
    exact (List.cons.inj h).2.symm
  · rintro rfl
    exact ⟨t, rfl⟩

/-- A rule that fails passes nothing, not even an empty stretch. -/
theorem not_fail {wanted : String} : ¬ Passes n (.fail wanted) ts rest := by
  rintro ⟨ms, ks, h, -⟩
  cases h

/-- Of two rules the one that the tests choose passes what is passed. -/
theorem branch_iff {tests : List (TokenKind → Bool)} {yes no : Rule} :
    Passes n (.branch tests yes no) ts rest ↔
      if State.passes tests ts = true then Passes n yes ts rest else Passes n no ts rest := by
  constructor
  -- How the rule was read tells which way the tests went.
  · rintro ⟨ms, ks, h, hc⟩
    cases h with
    | yes hp h =>
        rw [if_pos hp]
        exact ⟨ms, ks, h, hc⟩
    | no hp h =>
        rw [if_neg (by simp [hp])]
        exact ⟨ms, ks, h, hc⟩
  · intro h
    split at h
    · next hp =>
      obtain ⟨ms, ks, h, hc⟩ := h
      exact ⟨ms, ks, .yes hp h, hc⟩
    · next hp =>
      obtain ⟨ms, ks, h, hc⟩ := h
      exact ⟨ms, ks, .no (by simpa using hp) h, hc⟩

/-- A repetition passes one round and then the repetition again, as long as the test holds, and
nothing otherwise. -/
theorem repeatWhile_iff {test : TokenKind → Bool} {body : Rule} :
    Passes n (.repeatWhile test body) ts rest ↔
      if State.passes [test] ts = true then
        ∃ mid, Passes n body ts mid ∧ Passes n (.repeatWhile test body) mid rest
      else ts = rest := by
  constructor
  · rintro ⟨ms, ks, h, hc⟩
    cases h with
    | stop hp => rw [if_neg (by simp [hp])]
    | again hp h₁ h₂ =>
        -- Rounds without repairs are each without repairs.
        rw [Move.clean_append] at hc
        rw [if_pos hp]
        exact ⟨_, ⟨_, _, h₁, hc.1⟩, ⟨_, _, h₂, hc.2⟩⟩
  · intro h
    split at h
    · next hp =>
      obtain ⟨mid, ⟨ms₁, ks₁, h₁, hc₁⟩, ⟨ms₂, ks₂, h₂, hc₂⟩⟩ := h
      exact ⟨_, _, .again hp h₁ h₂, Move.clean_append.2 ⟨hc₁, hc₂⟩⟩
    · next hp =>
      subst h
      exact ⟨[], [], .stop (by simpa using hp), Move.clean_nil⟩

/-- What a repetition passes, round by round. The motive relates the tokens in front of the loop to
those behind it. -/
theorem repeatWhile_induction {test : TokenKind → Bool} {body : Rule}
    {motive : List Token → List Token → Prop}
    (stop : ∀ ts, State.passes [test] ts = false → motive ts ts)
    (again : ∀ ts mid rest, State.passes [test] ts = true → Passes n body ts mid →
      motive mid rest → motive ts rest)
    (h : Passes n (.repeatWhile test body) ts rest) : motive ts rest := by
  obtain ⟨ms, ks, h, hc⟩ := h
  -- The rule is kept as an equation, since the induction is on how the rounds were read.
  generalize hr : Rule.repeatWhile test body = r at h
  induction h with
  | stop hp =>
      cases hr
      exact stop _ hp
  | again hp hbody _ _ ih =>
      rw [Move.clean_append] at hc
      cases hr
      exact again _ _ _ hp ⟨_, _, hbody, hc.1⟩ (ih again hc.2 rfl)
  | _ => cases hr

/-- An optional rule passes something exactly if the test holds. If it does, the rule has to be
read; it is not tried. -/
theorem optional_iff {test : TokenKind → Bool} {r : Rule} :
    Passes n (Rule.optional test r) ts rest ↔
      if State.passes [test] ts = true then Passes n r ts rest else ts = rest := by
  rw [Rule.optional, branch_iff, empty_iff]

/-- A value is passed as the rules for values say, with one level of nesting less. -/
theorem value_iff {power : Nat} :
    Passes (n + 1) (.value power) ts rest ↔ Passes n (Grammar.value power) ts rest := by
  constructor
  · rintro ⟨ms, ks, h, hc⟩
    cases h with
    | value h => exact ⟨ms, ks, h, hc⟩
  · rintro ⟨ms, ks, h, hc⟩
    exact ⟨ms, ks, .value h, hc⟩

/-- With no level of nesting left no value is passed, not even one of a single token. -/
theorem not_value_zero {power : Nat} : ¬ Passes 0 (.value power) ts rest := by
  rintro ⟨ms, ks, h, -⟩
  cases h

/-- A name is passed if it comes next, quoted or not. -/
theorem name_iff : Passes n Rule.name ts rest ↔ ∃ t, ts = t :: rest ∧ t.kind.isName = true := by
  rw [Rule.name, branch_iff]
  constructor
  · intro h
    split at h
    · next hp =>
      obtain ⟨t, rfl⟩ := take_iff.1 h
      exact ⟨t, rfl, by simpa [State.passes] using hp⟩
    · exact absurd h not_fail
  · rintro ⟨t, rfl, ht⟩
    rw [if_pos (by simpa [State.passes] using ht)]
    exact take_iff.2 ⟨t, rfl⟩

/-- A rule that is not idle leaves fewer tokens, which is what inductions on the number of tokens
need. -/
theorem length_lt {r : Rule} (h : Passes n r ts rest) (hr : r.idle = false) :
    rest.length < ts.length := by
  obtain ⟨ms, ks, h, -⟩ := h
  exact h.length_lt hr

end Passes

/-- Tokens of the same kinds are passed alike. Rules test kinds, and neither texts nor places. -/
theorem Passes.of_kinds {n : Nat} {r : Rule} {w w' rest : List Token}
    (h : Passes n r (w ++ rest) rest) (hkinds : w.map Token.kind = w'.map Token.kind) :
    Passes n r (w' ++ rest) rest := by
  obtain ⟨ms, ks, hread, hclean⟩ := h
  have hsame : List.Forall₂ (fun x y : Token => x.kind = y.kind) w w' := by
    have heq : List.Forall₂ Eq (w.map Token.kind) (w'.map Token.kind) := by
      rw [hkinds, List.forall₂_eq_eq_eq]
    rwa [List.forall₂_map_left_iff, List.forall₂_map_right_iff] at heq
  obtain ⟨ms', ks', rest', hread', hms, -, hrest⟩ := hread.relabel (fun hk => hk.symm)
    (List.rel_append hsame (List.forall₂_same.2 fun _ _ => rfl))
  obtain ⟨passed, rfl, -⟩ := exists_of_forall₂_map_pass (hclean.eq_map_pass ▸ hms)
  -- As many tokens are left, so the ones passed are those in front.
  obtain rfl : rest' = rest :=
    List.append_inj_right' hread'.consumed_append hrest.length_eq.symm
  exact ⟨_, ks', hread', Move.clean_map_pass passed⟩

/-- A ground rule passes the same with any number of levels, as it never asks for a value. -/
theorem passes_levels {n m : Nat} {r : Rule} (hground : r.ground = true) (hr : r.steady = true)
    (hg : r.guarded 0 = true) {ts rest : List Token} (h : Passes n r ts rest) :
    Passes m r ts rest := by
  -- Running a ground rule never asks how values are read.
  have hs : (State.initial ts 0).attempts = 0 := rfl
  rw [show ts = (State.initial ts 0).after from rfl, passes_iff_run hr hg hs] at h ⊢
  rwa [Rule.run_eq_of_ground hground (readValue m) (readValue n)]

end GeneratedKeys
