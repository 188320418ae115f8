import GeneratedKeys.Proofs.Reading.Parsed
import GeneratedKeys.Proofs.Reading.Passes

/-!
# `GeneratedKeys.Proofs.Reading.Yields`: what is kept without repairs

`Yields n r ts ks rest` says that rule `r` reads `ts` up to `rest` without repairs and keeps the
notes `ks`. It is `Passes` with the notes, and it follows the rule in the same way.

* `yields_iff_of_noteless`: a rule that keeps nothing only passes tokens.
* `yields_record_iff`: a rule that is recorded keeps the tokens that it passes.
* `Yields.repeatWhile_induction`: what a repetition keeps, round by round.
-/

set_option autoImplicit false

namespace GeneratedKeys

open Move

/-- Rule `r` reads `ts` up to `rest` without repairs and keeps the notes `ks`. The moves are then
the passes of the tokens between, and need no mention. -/
def Yields (n : Nat) (r : Rule) (ts : List Token) (ks : List Note) (rest : List Token) : Prop :=
  ∃ ms, Reads n r ts ms ks rest ∧ Clean ms

variable {n : Nat} {ts rest : List Token} {ks : List Note}

/-- A rule that keeps nothing yields no notes, and otherwise it passes what it passes. Grammars of
such rules can be compared by `Passes` alone. -/
theorem yields_iff_of_noteless {r : Rule} (hr : r.noteless = true) :
    Yields n r ts ks rest ↔ ks = [] ∧ Passes n r ts rest := by
  constructor
  · rintro ⟨ms, hread, hclean⟩
    exact ⟨hread.notes_eq_nil hr, ms, ks, hread, hclean⟩
  · rintro ⟨rfl, ms, ks, hread, hclean⟩
    obtain rfl := hread.notes_eq_nil hr
    exact ⟨ms, hread, hclean⟩

/-- Two rules yield what the first yields and then what the second yields. -/
theorem yields_seq_iff {first second : Rule} :
    Yields n (.seq first second) ts ks rest ↔
      ∃ mid ks₁ ks₂, Yields n first ts ks₁ mid ∧ Yields n second mid ks₂ rest ∧
        ks = ks₁ ++ ks₂ := by
  constructor
  · rintro ⟨ms, h, hclean⟩
    cases h with
    | seq h₁ h₂ =>
        rw [clean_append] at hclean
        exact ⟨_, _, _, ⟨_, h₁, hclean.1⟩, ⟨_, h₂, hclean.2⟩, rfl⟩
  · rintro ⟨mid, ks₁, ks₂, ⟨ms₁, h₁, hclean₁⟩, ⟨ms₂, h₂, hclean₂⟩, rfl⟩
    exact ⟨_, .seq h₁ h₂, clean_append.2 ⟨hclean₁, hclean₂⟩⟩

/-- A rule that keeps nothing, in front of another one, only moves the place where that one begins.
-/
theorem yields_seq_noteless_iff {first second : Rule} (hr : first.noteless = true) :
    Yields n (.seq first second) ts ks rest ↔
      ∃ mid, Passes n first ts mid ∧ Yields n second mid ks rest := by
  rw [yields_seq_iff]
  constructor
  · rintro ⟨mid, ks₁, ks₂, h₁, h₂, rfl⟩
    obtain ⟨rfl, hpasses⟩ := (yields_iff_of_noteless hr).1 h₁
    exact ⟨mid, hpasses, h₂⟩
  · rintro ⟨mid, h₁, h₂⟩
    exact ⟨mid, [], ks, (yields_iff_of_noteless hr).2 ⟨rfl, h₁⟩, h₂, rfl⟩

/-- A rule that keeps nothing, behind another one, adds no note: the notes are those of the first.
-/
theorem yields_noteless_seq_iff {first second : Rule} (hr : second.noteless = true) :
    Yields n (.seq first second) ts ks rest ↔
      ∃ mid, Yields n first ts ks mid ∧ Passes n second mid rest := by
  rw [yields_seq_iff]
  constructor
  · rintro ⟨mid, ks₁, ks₂, h₁, h₂, rfl⟩
    obtain ⟨rfl, hpasses⟩ := (yields_iff_of_noteless hr).1 h₂
    exact ⟨mid, by rwa [List.append_nil], hpasses⟩
  · rintro ⟨mid, h₁, h₂⟩
    exact ⟨mid, ks, [], h₁, (yields_iff_of_noteless hr).2 ⟨rfl, h₂⟩, (List.append_nil ks).symm⟩

/-- A word in front of a rule is passed and yields nothing. -/
theorem yields_word_seq_iff {k : Keyword} {r : Rule} :
    Yields n (.seq (Rule.word k) r) ts ks rest ↔
      ∃ t us, ts = t :: us ∧ t.kind = .keyword k ∧ Yields n r us ks rest := by
  rw [yields_seq_noteless_iff rfl]
  constructor
  · rintro ⟨mid, hword, h⟩
    obtain ⟨t, rfl, ht⟩ := Passes.word_iff.1 hword
    exact ⟨t, mid, rfl, ht, h⟩
  · rintro ⟨t, us, rfl, ht, h⟩
    exact ⟨us, Passes.word_iff.2 ⟨t, rfl, ht⟩, h⟩

/-- A wanted token in front of a rule is passed and yields nothing. -/
theorem yields_expect_seq_iff {kind : TokenKind} {r : Rule} (hkind : kind.hasValue = false) :
    Yields n (.seq (.expect kind) r) ts ks rest ↔
      ∃ t us, ts = t :: us ∧ t.kind = kind ∧ Yields n r us ks rest := by
  rw [yields_seq_noteless_iff rfl]
  constructor
  · rintro ⟨mid, hexpect, h⟩
    obtain ⟨t, rfl, ht⟩ := (Passes.expect_kind_iff hkind).1 hexpect
    exact ⟨t, mid, rfl, ht, h⟩
  · rintro ⟨t, us, rfl, ht, h⟩
    exact ⟨us, (Passes.expect_kind_iff hkind).2 ⟨t, rfl, ht⟩, h⟩

/-- Any token in front of a rule is passed and yields nothing. -/
theorem yields_take_seq_iff {r : Rule} :
    Yields n (.seq .take r) ts ks rest ↔ ∃ t us, ts = t :: us ∧ Yields n r us ks rest := by
  rw [yields_seq_noteless_iff rfl]
  constructor
  · rintro ⟨mid, htake, h⟩
    obtain ⟨t, rfl⟩ := Passes.take_iff.1 htake
    exact ⟨t, mid, rfl, h⟩
  · rintro ⟨t, us, rfl, h⟩
    exact ⟨us, Passes.take_iff.2 ⟨t, rfl⟩, h⟩

/-- Of two rules the one that the tests choose yields what is yielded. -/
theorem yields_branch_iff {tests : List (TokenKind → Bool)} {yes no : Rule} :
    Yields n (.branch tests yes no) ts ks rest ↔
      if State.passes tests ts = true then Yields n yes ts ks rest else Yields n no ts ks rest := by
  constructor
  -- How the rule was read tells which way the tests went.
  · rintro ⟨ms, h, hclean⟩
    cases h with
    | yes hp h =>
        rw [if_pos hp]
        exact ⟨ms, h, hclean⟩
    | no hp h =>
        rw [if_neg (by simp [hp])]
        exact ⟨ms, h, hclean⟩
  · intro h
    split at h
    · next hp =>
      obtain ⟨ms, h, hclean⟩ := h
      exact ⟨ms, .yes hp h, hclean⟩
    · next hp =>
      obtain ⟨ms, h, hclean⟩ := h
      exact ⟨ms, .no (by simpa using hp) h, hclean⟩

/-- A rule that is there if the next token is of a kind. -/
theorem yields_optional_iff {test : TokenKind → Bool} {r : Rule} :
    Yields n (Rule.optional test r) ts ks rest ↔
      if State.passes [test] ts = true then Yields n r ts ks rest else ks = [] ∧ ts = rest := by
  rw [Rule.optional, yields_branch_iff, yields_iff_of_noteless (r := .empty) rfl, Passes.empty_iff]

/-- Keeping parts together makes no difference to a rule that is read to its end. -/
theorem yields_together_iff {body : Rule} :
    Yields n (.together body) ts ks rest ↔ Yields n body ts ks rest := by
  constructor
  · rintro ⟨ms, h, hclean⟩
    cases h with
    | together h => exact ⟨ms, h, hclean⟩
  · rintro ⟨ms, h, hclean⟩
    exact ⟨ms, .together h, hclean⟩

/-- A rule that is recorded keeps the tokens that it passes, as one part and nothing besides. -/
theorem yields_record_iff {p : Part} {body : Rule} (hbody : body.noteless = true) :
    Yields n (.record p body) ts ks rest ↔
      ∃ w, ts = w ++ rest ∧ Passes n body ts rest ∧ ks = [.ofTokens p w] := by
  constructor
  · rintro ⟨ms, h, hclean⟩
    cases h with
    | record h =>
        -- The body keeps no notes, so the one of this part is all there is.
        obtain rfl := h.notes_eq_nil hbody
        refine ⟨consumed ms, h.consumed_append.symm, ⟨ms, [], h, hclean⟩, ?_⟩
        rw [Note.ofTokens, ← hclean.eq_map_pass]
        rfl
  · rintro ⟨w, rfl, ⟨ms, ks, h, hclean⟩, rfl⟩
    obtain rfl := h.notes_eq_nil hbody
    -- The tokens consumed are those in front of the rest, which pins them down.
    have hw : consumed ms = w := List.append_cancel_right h.consumed_append
    refine ⟨ms, ?_, hclean⟩
    rw [Note.ofTokens, ← hw, ← hclean.eq_map_pass, hw]
    exact .record h

/-- What a repetition keeps, round by round. The notes of the rounds are joined in the order in
which they are made. -/
theorem Yields.repeatWhile_induction {test : TokenKind → Bool} {body : Rule}
    {motive : List Token → List Note → List Token → Prop}
    (stop : ∀ ts, State.passes [test] ts = false → motive ts [] ts)
    (again : ∀ ts mid rest ks₁ ks₂, State.passes [test] ts = true → Yields n body ts ks₁ mid →
      motive mid ks₂ rest → motive ts (ks₁ ++ ks₂) rest)
    (h : Yields n (.repeatWhile test body) ts ks rest) : motive ts ks rest := by
  obtain ⟨ms, h, hclean⟩ := h
  -- The rule is kept as an equation, since the induction is on how the rounds were read.
  generalize hr : Rule.repeatWhile test body = r at h
  induction h with
  | stop hp =>
      cases hr
      exact stop _ hp
  | again hp hbody _ _ ih =>
      rw [clean_append] at hclean
      cases hr
      exact again _ _ _ _ _ hp ⟨_, hbody, hclean.1⟩ (ih again hclean.2 rfl)
  | _ => cases hr

/-- One more round of a repetition puts the notes of the round in front of those of the others. -/
theorem yields_again {test : TokenKind → Bool} {body : Rule} {mid : List Token}
    {ks₁ ks₂ : List Note} (hp : State.passes [test] ts = true) (hbody : Yields n body ts ks₁ mid)
    (hothers : Yields n (.repeatWhile test body) mid ks₂ rest) :
    Yields n (.repeatWhile test body) ts (ks₁ ++ ks₂) rest := by
  obtain ⟨ms₁, h₁, hclean₁⟩ := hbody
  obtain ⟨ms₂, h₂, hclean₂⟩ := hothers
  exact ⟨_, .again hp h₁ h₂, clean_append.2 ⟨hclean₁, hclean₂⟩⟩

/-- A repetition is over where its test fails, and it yields nothing then. -/
theorem yields_stop {test : TokenKind → Bool} {body : Rule} (hp : State.passes [test] ts = false) :
    Yields n (.repeatWhile test body) ts [] ts :=
  ⟨[], .stop hp, clean_nil⟩

/-- A statement without faulty tokens is parsed without problems exactly if it is read without
repairs. Its parts are those of the notes. -/
theorem parse_clean_iff {t : Text} {o : Statement Text} (hfault : Faultless t) :
    parse t = .ok ⟨o, .none⟩ ↔
      ∃ type ks, Yields nestingLimit (Grammar.statement type) (visibleTokens t) ks [] ∧
        o = partsOf t ks := by
  constructor
  · intro h
    obtain ⟨-, type, ms, ks, hread, hclean, ho⟩ := reads_of_clean h rfl
    exact ⟨type, ks, ⟨ms, hread, hclean⟩, ho⟩
  · rintro ⟨type, ks, ⟨ms, hread, hclean⟩, rfl⟩
    exact parse_of_reads hfault hread hclean

end GeneratedKeys
