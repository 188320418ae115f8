import GeneratedKeys.Proofs.Reading.Reads
import GeneratedKeys.Proofs.Reading.Tests

/-!
# `GeneratedKeys.Proofs.Recovery.Mends`: decisions survive edits

A repair changes the tokens that a rule decided on: a stray token was there when an optional
clause was looked for, and it is gone in the repaired statement. A clause that is appended
changes them as well. `Mends n r back front` says that rule `r` decides the same all the
same. If what follows it in the statement and in the edited one is related by `back`, it
reads the edited statement by passing tokens only, and what starts with it is related by
`front`.

The second relation of one rule is the first relation of the rule before it, so the lemmas
compose from the end of a statement to its beginning. Three relations are enough:

* `Started`: both go on with the same token.
* `Headed k`: the edited statement goes on with a token of kind `k`.
* `Behind quiet`: whatever decides on the next token only, and does not accept the `quiet`
  kinds, decides the same on both.
-/

set_option autoImplicit false

namespace GeneratedKeys

/-- A relation of what is ahead in a statement and in the edited statement. The first list
is what is behind, as far as it matters. -/
abbrev View := List Token → List Token → List Token → Prop

namespace View

/-- Both are the same, so every decision behind this place is the same as well. -/
def Same : View := fun _ ts ts' => ts = ts'

/-- Both go on with the same token, which is all that most tests look at. -/
def Started : View := fun _ ts ts' => ∃ t us us', ts = t :: us ∧ ts' = t :: us'

/-- The edited statement goes on with a token of the kind, as wherever that token was wanted. -/
def Headed (kind : TokenKind) : View := fun _ _ ts' =>
  ∃ t us, ts' = t :: us ∧ t.kind.sameClass kind = true

/-- Both go on with the same token. Behind a dot the next token is tested too: it is the same
one, or a clause begins there. -/
def Shared : View := fun _ ts ts' =>
  ∃ t us us', ts = t :: us ∧ ts' = t :: us' ∧
    (t.kind = .dot → us.head? = us'.head? ∨ ∃ u vs, us' = u :: vs ∧ u.kind = .keyword .returning)

/-- Both are the same, or go on with the same token, or the edited statement goes on with a
quiet one. -/
def Behind (quiet : TokenKind → Bool) : View := fun before ts ts' =>
  ts = ts' ∨ Shared before ts ts' ∨ ∃ t us, ts' = t :: us ∧ quiet t.kind = true

/-- Nothing is quiet: a decision sees the same tokens. This is what stands behind a place where no
value ends. -/
def Alike : View := Behind fun _ => false

variable {before ts ts' : List Token} {test quiet quiet' : TokenKind → Bool} {kind : TokenKind}

/-- A test of the next token comes out the same in both. -/
theorem Started.passes_eq (h : Started before ts ts') :
    State.passes [test] ts' = State.passes [test] ts := by
  obtain ⟨t, us, us', rfl, rfl⟩ := h
  rw [State.passes_one_cons, State.passes_one_cons]

/-- A tested first token is no dot, so seeing the same first token is enough for what follows. -/
theorem Started.behind (h : Started before ts ts') (hp : State.passes [test] ts = true)
    (hdot : test .dot = false) : Behind quiet before ts ts' := by
  obtain ⟨t, us, us', rfl, rfl⟩ := h
  refine .inr (.inl ⟨t, us, us', rfl, rfl, fun ht => ?_⟩)
  rw [State.passes_one_cons, ht, hdot] at hp
  cases hp

/-- Both go on with the same two tokens, which is as far as any test looks. -/
theorem behind_of_two {t u : Token} {us us' : List Token} :
    Behind quiet before (t :: u :: us) (t :: u :: us') :=
  .inr (.inl ⟨t, u :: us, u :: us', rfl, rfl, fun _ => .inl rfl⟩)

/-- A token of a kind without a value, known to be quiet, may stand ahead of what is only known to
be behind. -/
theorem Headed.behind (h : Headed kind before ts ts') (hkind : kind.hasValue = false)
    (hquiet : quiet kind = true) : Behind quiet before ts ts' := by
  obtain ⟨t, us, rfl, ht⟩ := h
  rw [TokenKind.sameClass_iff hkind] at ht
  exact .inr (.inr ⟨t, us, rfl, by rw [ht, hquiet]⟩)

/-- What is quiet for one rule may be quiet for another one too. -/
theorem Behind.imp (h : Behind quiet before ts ts')
    (hquiet : ∀ k : TokenKind, quiet k = true → quiet' k = true) : Behind quiet' before ts ts' := by
  rcases h with rfl | h | ⟨t, us, rfl, ht⟩
  · exact .inl rfl
  · exact .inr (.inl h)
  · exact .inr (.inr ⟨t, us, rfl, hquiet _ ht⟩)

/-- What is known to be alike may stand for what is only known to be behind. -/
theorem Alike.behind (h : Alike before ts ts') : Behind quiet before ts ts' :=
  h.imp fun _ hk => by cases hk

/-- In front of a kind that is quiet for one rule and for another. -/
theorem Behind.of_isA (h : Behind (Rule.isA kind) before ts ts') (hkind : kind.hasValue = false)
    (hquiet : quiet kind = true) : Behind quiet before ts ts' := by
  refine h.imp fun k hk => ?_
  rw [(Rule.isA_iff hkind).1 hk, hquiet]

/-- A test that fails in the statement fails in the edited statement. -/
theorem Behind.passes_eq_false (h : Behind quiet before ts ts')
    (hquiet : ∀ k : TokenKind, quiet k = true → test k = false)
    (hp : State.passes [test] ts = false) : State.passes [test] ts' = false := by
  rcases h with rfl | ⟨t, us, us', rfl, rfl, -⟩ | ⟨t, us, rfl, ht⟩
  · exact hp
  · rwa [State.passes_one_cons] at hp ⊢
  · rw [State.passes_one_cons]
    exact hquiet _ ht

/-- So does a test for a dot and a name or word behind it. -/
theorem Behind.passes_dot_eq_false (h : Behind quiet before ts ts') (hquiet : quiet .dot = false)
    (htest : test (.keyword .returning) = false)
    (hp : State.passes [Rule.isA .dot, test] ts = false) :
    State.passes [Rule.isA .dot, test] ts' = false := by
  -- In front of another token than a dot the two tests fail at the first.
  have hno : ∀ {t : Token} {us : List Token}, t.kind ≠ .dot →
      State.passes [Rule.isA .dot, test] (t :: us) = false := by
    intro t us ht
    have hdot : Rule.isA .dot t.kind = false := by
      rwa [Bool.eq_false_iff, Ne, Rule.isA_iff rfl]
    simp [State.passes, hdot]
  rcases h with rfl | ⟨t, us, us', rfl, rfl, hnext⟩ | ⟨t, us, rfl, ht⟩
  · exact hp
  · by_cases ht : t.kind = .dot
    -- Both go on with a dot, so the token behind it decides.
    · rcases hnext ht with hhead | ⟨u, vs, rfl, hu⟩
      · -- The token behind the dot is the same.
        cases us with
        | nil => cases us' <;> simp_all [State.passes]
        | cons u us => cases us' <;> simp_all [State.passes]
      · simp [State.passes, hu, htest]
    · exact hno ht
  -- A dot is not quiet.
  · refine hno fun hdot => ?_
    rw [hdot, hquiet] at ht
    cases ht

end View

open View Move

/-- With `back` after it, the rule reads the edited statement without repairs, and `front`
holds from it on. -/
def Mends (n : Nat) (r : Rule) (back front : View) : Prop :=
  ∀ ⦃before ts rest rest' : List Token⦄ ⦃ms : List Move⦄ ⦃ks : List Note⦄,
    Reads n r ts ms ks rest → back (before ++ consumed ms) rest rest' →
      Reads n r (kept ms ++ rest') (mended ms) (ks.map Note.mended) rest' ∧
        front before ts (kept ms ++ rest')

section

variable {n : Nat} {r first second body yes no : Rule} {test quiet : TokenKind → Bool}
  {kind : TokenKind} {back back' mid front front' : View}

/-- Less may be known of what is ahead of a rule, and more of what is behind it. -/
theorem Mends.imp (h : Mends n r back front)
    (hbehind : ∀ {before ts ts' : List Token}, back' before ts ts' → back before ts ts')
    (hahead : ∀ {before ts ts' : List Token}, front before ts ts' → front' before ts ts') :
    Mends n r back' front' := by
  intro before ts rest rest' ms ks hread hrest
  obtain ⟨hmended, hfirst⟩ := h hread (hbehind hrest)
  exact ⟨hmended, hahead hfirst⟩

/-- What is behind may be known to be more alike: a rule that is mended in front of less is mended
in front of more. -/
theorem Mends.behind (h : Mends n r back front)
    (hbehind : ∀ {before ts ts' : List Token}, back' before ts ts' → back before ts ts') :
    Mends n r back' front :=
  h.imp hbehind id

/-- What is ahead may be used as less alike, by whoever reads the rule in front. -/
theorem Mends.ahead (h : Mends n r back front)
    (hahead : ∀ {before ts ts' : List Token}, front before ts ts' → front' before ts ts') :
    Mends n r back front' :=
  h.imp id hahead

/-- The empty rule leaves what is behind it ahead, so whatever is known of the one is known of the
other. -/
theorem mends_empty : Mends n .empty back back := by
  intro before ts rest rest' ms ks hread hrest
  cases hread
  rw [consumed_nil, List.append_nil] at hrest
  exact ⟨.empty, hrest⟩

/-- One rule after another: what the second one is ahead of is what the first one needs behind it.
-/
theorem mends_seq (h₁ : Mends n first mid front) (h₂ : Mends n second back mid) :
    Mends n (.seq first second) back front := by
  intro before ts rest rest' ms ks hread hrest
  cases hread with
  | @seq _ _ _ _ _ _ ms₁ ms₂ ks₁ ks₂ hfirst hsecond =>
      rw [consumed_append, ← List.append_assoc] at hrest
      -- From the end to the beginning: what the second rule shows in front is behind the first.
      obtain ⟨hmended₂, hmid⟩ := h₂ hsecond hrest
      obtain ⟨hmended₁, hahead⟩ := h₁ hfirst hmid
      rw [kept_append, mended_append, List.map_append, List.append_assoc]
      exact ⟨.seq hmended₁ hmended₂, hahead⟩

/-- A token that is taken is taken in both, and both go on with it. -/
theorem mends_take : Mends n .take back Started := by
  intro before ts rest rest' ms ks hread _
  cases hread with
  | @take _ t => exact ⟨.take, t, rest, rest', rfl, rfl⟩

/-- A wanted token is there in the edited statement, whatever repair it took. -/
theorem mends_expect : Mends n (.expect kind) back (Headed kind) := by
  intro before ts rest rest' ms ks hread _
  cases hread with
  | @expect _ _ t ts hk => exact ⟨.expect hk, t, rest', rfl, hk⟩
  | @dropped _ _ t u ts _ hu => exact ⟨.expect hu, u, rest', rfl, hu⟩
  | supplied => exact ⟨.expect rfl, .closing, rest', rfl, rfl⟩

/-- A wanted token that is quiet for the rule before it. -/
theorem mends_wanted (hkind : kind.hasValue = false) (hquiet : quiet kind = true) :
    Mends n (.expect kind) back (Behind quiet) :=
  mends_expect.ahead fun h => h.behind hkind hquiet

/-- A rule that fails is never read, so there is nothing to show. -/
theorem mends_fail {wanted : String} : Mends n (.fail wanted) back front := by
  intro before ts rest rest' ms ks hread
  cases hread

/-- A decision is the same if either side shows its outcome in the edited statement. -/
theorem mends_branch {tests : List (TokenKind → Bool)} {onYes onNo : View}
    (hyes : Mends n yes back onYes) (hno : Mends n no back onNo)
    (hpass : ∀ {before ts ts' : List Token}, State.passes tests ts = true → onYes before ts ts' →
      State.passes tests ts' = true ∧ front before ts ts')
    (hfail : ∀ {before ts ts' : List Token}, State.passes tests ts = false → onNo before ts ts' →
      State.passes tests ts' = false ∧ front before ts ts') :
    Mends n (.branch tests yes no) back front := by
  intro before ts rest rest' ms ks hread hrest
  cases hread with
  -- The first rule is mended, and what it begins with passes the tests.
  | yes hp hread =>
      obtain ⟨hmended, hfirst⟩ := hyes hread hrest
      obtain ⟨hp', hahead⟩ := hpass hp hfirst
      exact ⟨.yes hp' hmended, hahead⟩
  -- The second rule is mended, and what it begins with fails them.
  | no hp hread =>
      obtain ⟨hmended, hfirst⟩ := hno hread hrest
      obtain ⟨hp', hahead⟩ := hfail hp hfirst
      exact ⟨.no hp' hmended, hahead⟩

/-- A decision between two rules that pass their first token. That token is the same in both
statements, so the decision is, too. -/
theorem mends_choice (hyes : Mends n yes back Started) (hno : Mends n no back Started) :
    Mends n (.branch [test] yes no) back Started := by
  refine mends_branch hyes hno ?_ ?_
  · intro before ts ts' hp hstart
    exact ⟨by rw [hstart.passes_eq, hp], hstart⟩
  · intro before ts ts' hp hstart
    exact ⟨by rw [hstart.passes_eq, hp], hstart⟩

/-- A decision for a rule that passes its first token, in front of something quiet. -/
theorem mends_either (hyes : Mends n yes back Started) (hno : Mends n no back (Behind quiet))
    (hquiet : ∀ k : TokenKind, quiet k = true → test k = false) (hdot : test .dot = false) :
    Mends n (.branch [test] yes no) back (Behind quiet) := by
  refine mends_branch hyes hno ?_ ?_
  · intro before ts ts' hp hstart
    exact ⟨by rw [hstart.passes_eq, hp], hstart.behind hp hdot⟩
  · intro before ts ts' hp hbehind
    exact ⟨hbehind.passes_eq_false hquiet hp, hbehind⟩

/-- A clause that is looked for in front of something quiet. If it is not there, the quiet token
does not look like it. -/
theorem mends_optional (hr : Mends n r (Behind quiet) Started)
    (hquiet : ∀ k : TokenKind, quiet k = true → test k = false) (hdot : test .dot = false) :
    Mends n (Rule.optional test r) (Behind quiet) (Behind quiet) :=
  mends_either hr mends_empty hquiet hdot

/-- A clause that is looked for in front of a rule that passes its first token. -/
theorem mends_optional_started (hr : Mends n r Started Started) :
    Mends n (Rule.optional test r) Started Started :=
  mends_choice hr mends_empty

/-- A name behind a dot, or a word. The test looks at two tokens, so both have to be the same in the
repaired statement. -/
theorem mends_dotted (hno : Mends n no back (Behind quiet)) (hquiet : quiet .dot = false)
    (htest : test (.keyword .returning) = false) :
    Mends n (.branch [Rule.isA .dot, test] (.seq .take .take) no) back (Behind quiet) := by
  intro before ts rest rest' ms ks hread hrest
  cases hread with
  | yes hp hread =>
      cases hread with
      | seq hdot hname =>
          -- The dot and the name behind it are taken as they stand.
          cases hdot
          cases hname
          refine ⟨.yes ?_ (.seq .take .take), behind_of_two⟩
          simpa [State.passes] using hp
  | no hp hread =>
      obtain ⟨hmended, hbehind⟩ := hno hread hrest
      exact ⟨.no (hbehind.passes_dot_eq_false hquiet htest hp) hmended, hbehind⟩

/-- A repetition in front of something quiet ends there in both statements, and each round is read
alike. -/
theorem mends_repeatWhile (hbody : Mends n body (Behind quiet) Started)
    (hquiet : ∀ k : TokenKind, quiet k = true → test k = false) (hdot : test .dot = false) :
    Mends n (.repeatWhile test body) (Behind quiet) (Behind quiet) := by
  intro before ts rest rest' ms ks hread hrest
  -- By induction on the rounds, from the last one on.
  generalize hr : Rule.repeatWhile test body = rule at hread
  induction hread with
  | stop hp =>
      cases hr
      exact ⟨.stop (hrest.passes_eq_false hquiet hp), hrest⟩
  | @again _ _ _ _ _ _ ms₁ ms₂ ks₁ ks₂ hp hfirst _ _ ih =>
      cases hr
      obtain ⟨hothers, hmid⟩ := ih hbody hrest rfl
      have hmid' : Behind quiet (before ++ consumed ms₁) _ (kept ms₂ ++ rest') := hmid
      obtain ⟨hmended, hstart⟩ := hbody hfirst hmid'
      rw [kept_append, mended_append, List.map_append, List.append_assoc]
      exact ⟨.again (hstart.passes_eq.trans hp) hmended hothers, hstart.behind hp hdot⟩
  | _ => cases hr

/-- Items with commas between, in front of something quiet. A comma is tested and never wanted, so
it is there in both. -/
theorem mends_separated (hr : Mends n r (Behind quiet) front) (hquiet : quiet .comma = false) :
    Mends n (Rule.separated r) (Behind quiet) front := by
  refine mends_seq hr (mends_repeatWhile ?_ ?_ rfl)
  · exact mends_seq mends_take hr
  · intro k hk
    rw [Bool.eq_false_iff, Ne, Rule.isA_iff rfl]
    rintro rfl
    rw [hquiet] at hk
    cases hk

/-- Keeping a part changes nothing of how its rule is read. The note keeps the moves with their
repairs made. -/
theorem mends_record {part : Part} (h : Mends n body back front) :
    Mends n (.record part body) back front := by
  intro before ts rest rest' ms ks hread hrest
  cases hread with
  | record hbody =>
      obtain ⟨hmended, hahead⟩ := h hbody hrest
      rw [List.map_append]
      exact ⟨.record hmended, hahead⟩

/-- Neither does keeping parts together, since that matters only where a rule stalls. -/
theorem mends_together (h : Mends n body back front) :
    Mends n (.together body) back front := by
  intro before ts rest rest' ms ks hread hrest
  cases hread with
  | together hbody =>
      obtain ⟨hmended, hahead⟩ := h hbody hrest
      exact ⟨.together hmended, hahead⟩

/-- Noting DEFAULT VALUES passes no token, so there is nothing to repair in it. -/
theorem mends_defaults : Mends n .defaults back back := by
  intro before ts rest rest' ms ks hread hrest
  cases hread
  rw [consumed_nil, List.append_nil] at hrest
  exact ⟨.defaults, hrest⟩

/-- A name is passed as it stands. No token is wanted for it, so no repair is made. -/
theorem mends_name : Mends n Rule.name back Started :=
  mends_choice mends_take mends_fail

end

end GeneratedKeys
