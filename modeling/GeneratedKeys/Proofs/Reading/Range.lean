import GeneratedKeys.Proofs.Reading.Machine

/-!
# `GeneratedKeys.Proofs.Reading.Range`: an index stays in range

One step of a machine leaves the index as it is, or moves it by one token that is not the last one,
or begins an attempt and marks the index, or returns to a mark. So the index stays inside the
vector, no mark is behind it, and every access finds a token. Only a return to a mark moves the
index back.

Nothing here depends on the rules that are read.

* `Reader.Finds.isSome_proceed`: nothing that a frame asks for fails but an access.
* `Machine.shift_of_step`: what one step does to the index and the marks.
* `Machine.InRange.step`, `Machine.InRange.reaches`: the index stays inside the vector.
* `Machine.InRange.isSome_step`: no access fails.
* `Machine.InRange.index_le`: until an attempt ends that is under way, the index does not decrease.
-/

set_option autoImplicit false

namespace GeneratedKeys

namespace Reader

/-! ### Access -/

/-- Every access finds a token, ahead at any distance and behind. No step of the machine fails then.
-/
structure Finds (p : Reader) : Prop where
  isSome_ahead : ∀ n, (p.ahead? n).isSome
  isSome_behind : p.behind?.isSome

namespace Finds

variable {p : Reader} (h : p.Finds)

include h

/-- Tests look at tokens ahead only, so they come to an answer. -/
theorem isSome_passes (tests : List (TokenKind → Bool)) (n : Nat) : (p.passes? n tests).isSome := by
  induction tests generalizing n with
  | nil => rfl
  | cons test tests ih =>
      obtain ⟨t, ht⟩ := Option.isSome_iff_exists.1 (h.isSome_ahead n)
      rw [Reader.passes?, ht, Option.bind_some]
      split
      · exact ih (n + 1)
      · rfl

/-- Refusing the next token looks at it, and it is there, also if it is that of the end. -/
theorem isSome_refuse (wanted : String) (stack : List Frame) : (p.refuse? wanted stack).isSome := by
  rw [Reader.refuse?, Option.isSome_map]
  exact h.isSome_ahead 0

/-- Asking for a token looks at the next two, and they are there. -/
theorem isSome_expect (wanted : TokenKind) (stack : List Frame) :
    (p.expect? wanted stack).isSome := by
  obtain ⟨t, ht⟩ := Option.isSome_iff_exists.1 (h.isSome_ahead 0)
  obtain ⟨u, hu⟩ := Option.isSome_iff_exists.1 (h.isSome_ahead 1)
  rw [Reader.expect?, ht, hu, Option.bind_some, Option.bind_some]
  repeat' split
  all_goals first | rfl | exact h.isSome_refuse _ _

/-- Choosing the statement looks at the first tokens, and they are there. -/
theorem isSome_announce (stack : List Frame) : (p.announce? stack).isSome := by
  obtain ⟨t, ht⟩ := Option.isSome_iff_exists.1 (h.isSome_ahead 0)
  rw [Reader.announce?, ht, Option.bind_some]
  split
  case h_3 => rw [Option.isSome_map]; exact h.isSome_passes _ 1
  all_goals rfl

/-- Beginning to read a rule comes to a machine, for every rule: whatever is looked at is there. -/
theorem isSome_read (stack : List Frame) (r : Rule) : (p.read? stack r).isSome := by
  obtain ⟨t, ht⟩ := Option.isSome_iff_exists.1 (h.isSome_ahead 0)
  cases r with
  | expect kind => exact h.isSome_expect kind stack
  | fail wanted => exact h.isSome_refuse wanted stack
  | branch tests yes no => rw [Reader.read?, Option.isSome_map]; exact h.isSome_passes tests 0
  | repeatWhile test body => rw [Reader.read?, Option.isSome_map]; exact h.isSome_passes [test] 0
  -- The place where a part begins is that of the next token.
  | record part body => rw [Reader.read?, ht]; rfl
  | value power =>
      rw [Reader.read?, ht]
      split <;> rfl
  | finish =>
      rw [Reader.read?, ht, Option.bind_some]
      split
      · rfl
      · exact h.isSome_refuse _ _
  | _ => rfl

/-- Doing what a frame asks for comes to a machine, for every frame. The only thing that could be
missing is a token, and every access finds one. -/
theorem isSome_proceed (stack : List Frame) (f : Frame) : (p.proceed? stack f).isSome := by
  cases f with
  | announce => exact h.isSome_announce stack
  | read r => exact h.isSome_read stack r
  | pass | skip | seek => rw [Reader.proceed?, Option.isSome_map]; exact h.isSome_ahead 0
  | keep part start first => rw [Reader.proceed?, Option.isSome_map]; exact h.isSome_behind
  | _ => rfl

end Finds

end Reader

/-- The index that a frame returns to, if an attempt ends with it. -/
def Frame.mark? : Frame → Option Nat
  | .rewind mark _ _ => some mark
  | _ => none

/-- The indexes that frames return to, the ones on top first. There is one for each attempt under
way. -/
def Frame.marks (stack : List Frame) : List Nat :=
  stack.filterMap Frame.mark?

namespace Machine

/-- The machine has the tokens, the index and the attempts of a reader, and these marks. -/
structure Stays (p : Reader) (marks : List Nat) (m : Machine) : Prop where
  tokens_eq : m.reader.tokens = p.tokens
  index_eq : m.reader.index = p.index
  attempts_eq : m.reader.attempts = p.attempts
  marks_eq : Frame.marks m.stack = marks

/-- What a step does to the index and the marks. Every step is of one of the four sorts, so
invariants of the index are proved by four cases. -/
inductive Shift (m m' : Machine) : Prop where
  | stay : Stays m.reader (Frame.marks m.stack) m' → Shift m m'
  /-- A token is passed that is not the one of the end. -/
  | pass {t : Token} : m.reader.ahead? 0 = some t → t.isEof = false →
      Stays { m.reader with index := m.reader.index + 1 } (Frame.marks m.stack) m' → Shift m m'
  /-- An attempt begins. -/
  | mark : Stays { m.reader with attempts := m.reader.attempts + 1 }
      (m.reader.index :: Frame.marks m.stack) m' → Shift m m'
  /-- An attempt ends. -/
  | rewind {mark : Nat} {yes no : Rule} {stack : List Frame} :
      m.stack = .rewind mark yes no :: stack →
        Stays { m.reader with index := mark, attempts := m.reader.attempts - 1 }
          (Frame.marks stack) m' → Shift m m'

variable {p : Reader} {stack : List Frame} {m m' : Machine}

/-! ### One step -/

/-- Noting something moves no index and makes no mark. Whether it is noted depends on the attempts,
and they stay. -/
theorem stays_note (change : Statement Span → Statement Span) :
    Stays p (Frame.marks stack) ((p.note change).goOn stack) := by
  unfold Reader.note
  split <;> exact ⟨rfl, rfl, rfl, rfl⟩

/-- Refusing a token moves no index and makes no mark. -/
theorem stays_of_refuse {wanted : String} (h : p.refuse? wanted stack = some m) :
    Stays p (Frame.marks stack) m := by
  obtain ⟨t, -, rfl⟩ := Option.map_eq_some_iff.1 h
  exact ⟨rfl, rfl, rfl, rfl⟩

/-- Asking for a token moves no index yet. Passing it is left to a frame. -/
theorem stays_of_expect {wanted : TokenKind} (h : p.expect? wanted stack = some m) :
    Stays p (Frame.marks stack) m := by
  -- The tokens accepted are not passed yet. That is left to the frames put on the stack.
  obtain ⟨t, -, h⟩ := Option.bind_eq_some_iff.1 h
  split at h
  · cases h
    exact ⟨rfl, rfl, rfl, rfl⟩
  · split at h
    · exact stays_of_refuse h
    · split at h
      · split at h
        · cases h
          exact ⟨rfl, rfl, rfl, rfl⟩
        · exact stays_of_refuse h
      · obtain ⟨u, -, h⟩ := Option.bind_eq_some_iff.1 h
        split at h
        · cases h
          exact ⟨rfl, rfl, rfl, rfl⟩
        · exact stays_of_refuse h

/-- Choosing the statement moves no index and makes no mark. -/
theorem stays_of_announce (h : p.announce? stack = some m) : Stays p (Frame.marks stack) m := by
  obtain ⟨t, -, h⟩ := Option.bind_eq_some_iff.1 h
  split at h
  case h_3 =>
    obtain ⟨b, -, rfl⟩ := Option.map_eq_some_iff.1 h
    exact ⟨rfl, rfl, rfl, rfl⟩
  all_goals
    cases h
    exact ⟨rfl, rfl, rfl, rfl⟩

/-- A rule that is begun moves no index. Only an attempt makes a mark. -/
theorem stays_of_read {r : Rule} (h : p.read? stack r = some m) :
    Stays p (Frame.marks stack) m ∨
      Stays { p with attempts := p.attempts + 1 } (p.index :: Frame.marks stack) m := by
  cases r with
  | expect kind => exact .inl (stays_of_expect h)
  | fail wanted => exact .inl (stays_of_refuse h)
  | branch tests yes no | record part body =>
      obtain ⟨x, -, rfl⟩ := Option.map_eq_some_iff.1 h
      exact .inl ⟨rfl, rfl, rfl, rfl⟩
  -- The attempt remembers the index, so that reading can go back to it.
  | foresee attempt yes no =>
      cases h
      exact .inr ⟨rfl, rfl, rfl, rfl⟩
  | repeatWhile test body =>
      obtain ⟨b, -, rfl⟩ := Option.map_eq_some_iff.1 h
      cases b <;> exact .inl ⟨rfl, rfl, rfl, rfl⟩
  | value power =>
      rw [Reader.read?] at h
      split at h
      · obtain ⟨t, -, rfl⟩ := Option.map_eq_some_iff.1 h
        exact .inl ⟨rfl, rfl, rfl, rfl⟩
      · cases h
        exact .inl ⟨rfl, rfl, rfl, rfl⟩
  | declare type | defaults =>
      cases h
      exact .inl (stays_note _)
  | finish =>
      obtain ⟨t, -, h⟩ := Option.bind_eq_some_iff.1 h
      split at h
      · cases h
        exact .inl ⟨rfl, rfl, rfl, rfl⟩
      · exact .inl (stays_of_refuse h)
  | _ =>
      cases h
      exact .inl ⟨rfl, rfl, rfl, rfl⟩

/-- What a frame asks for does one of four things to the index and the marks. There is one case for
each sort of frame. -/
theorem shift_of_proceed {f : Frame} (h : p.proceed? stack f = some m) :
    Shift (p.goOn (f :: stack)) m := by
  cases f with
  | announce => exact .stay (show Stays p (Frame.marks stack) m from stays_of_announce h)
  | read r =>
      rcases stays_of_read h with hstays | hstays
      · exact .stay hstays
      · exact .mark hstays
  | pass =>
      obtain ⟨t, ht, rfl⟩ := Option.map_eq_some_iff.1 h
      split
      · exact .stay ⟨rfl, rfl, rfl, rfl⟩
      -- Only a token that is not the end is passed.
      · next hend => exact .pass ht (by simpa using hend) ⟨rfl, rfl, rfl, rfl⟩
  | skip depth | seek =>
      obtain ⟨t, -, rfl⟩ := Option.map_eq_some_iff.1 h
      split <;> exact .stay ⟨rfl, rfl, rfl, rfl⟩
  | keep part start first =>
      obtain ⟨t, -, rfl⟩ := Option.map_eq_some_iff.1 h
      exact .stay (show Stays p (Frame.marks stack) _ from stays_note _)
  -- The one frame that moves the index back.
  | rewind mark yes no =>
      cases h
      exact .rewind rfl ⟨rfl, rfl, rfl, rfl⟩
  | restore found | recover | close =>
      cases h
      exact .stay ⟨rfl, rfl, rfl, rfl⟩

/-- What an error does is to leave the index, or to end an attempt. -/
theorem shift_of_unwind (e : ParseError) (f : Frame) :
    Shift (p.fail e (f :: stack)) (p.unwind e stack f) := by
  cases f with
  | rewind mark yes no => exact .rewind rfl ⟨rfl, rfl, rfl, rfl⟩
  | recover => cases e <;> exact .stay ⟨rfl, rfl, rfl, rfl⟩
  | _ => exact .stay ⟨rfl, rfl, rfl, rfl⟩

/-- What one step does to the index and the marks. Every other fact about the index is derived from
this one. -/
theorem shift_of_step (h : m.step = some m') : Shift m m' := by
  obtain ⟨p, stack, error?⟩ := m
  cases stack with
  | nil => cases h
  | cons f stack =>
      cases error? with
      | none => exact shift_of_proceed h
      | some e =>
          cases h
          exact shift_of_unwind e f

/-! ### All steps -/

/-- The last token, and no other one, is that of the end. The index can then be clamped to the last
token without losing anything. -/
structure Ended (ts : List Token) : Prop where
  ne_nil : ts ≠ []
  isEof_iff : ∀ (i : Nat) (h : i < ts.length), ts[i].isEof = true ↔ i = ts.length - 1

/-- The machine reads these tokens at one of their indexes. There is one mark for each attempt, and
attempts within others have marks at or behind theirs. -/
structure InRange (ts : List Token) (m : Machine) : Prop where
  tokens_eq : m.reader.tokens = ts
  index_lt : m.reader.index < ts.length
  descending : (m.reader.index :: Frame.marks m.stack).Pairwise (· ≥ ·)
  attempts_eq : m.reader.attempts = (Frame.marks m.stack).length

variable {ts : List Token}

/-- In front of a token that is not that of the end the index is not the last one. -/
theorem InRange.succ_index_lt (h : InRange ts m) (hts : Ended ts) {t : Token}
    (ht : m.reader.ahead? 0 = some t) (hend : t.isEof = false) :
    m.reader.index + 1 < ts.length := by
  have hlast : m.reader.aheadIndex 0 = m.reader.index := by
    have := h.index_lt
    rw [Reader.aheadIndex, h.tokens_eq]
    omega
  rw [Reader.ahead?, hlast, h.tokens_eq, List.getElem?_eq_getElem h.index_lt, Option.some_inj] at ht
  have hne : m.reader.index ≠ ts.length - 1 := by
    intro hlast
    rw [← hts.isEof_iff _ h.index_lt, ht, hend] at hlast
    exact absurd hlast (by decide)
  have := h.index_lt
  omega

/-- The index is at or behind every mark, so the end of an attempt never moves it forward. -/
theorem InRange.mark_le (h : InRange ts m) : ∀ i ∈ Frame.marks m.stack, i ≤ m.reader.index :=
  (List.pairwise_cons.1 h.descending).1

/-- A machine that has what is in range is in range. Most steps are of this sort, so this covers
them at once. -/
theorem Stays.inRange {marks : List Nat} (h : Stays p marks m) (htokens : p.tokens = ts)
    (hindex : p.index < ts.length) (hmarks : (p.index :: marks).Pairwise (· ≥ ·))
    (hattempts : p.attempts = marks.length) : InRange ts m where
  tokens_eq := h.tokens_eq.trans htokens
  index_lt := by rwa [h.index_eq]
  descending := by rwa [h.index_eq, h.marks_eq]
  attempts_eq := by rw [h.attempts_eq, h.marks_eq, hattempts]

/-- One step keeps the index in range. An index that moves on stood at a token that is not the end,
so there is one behind it. -/
theorem InRange.step (h : InRange ts m) (hts : Ended ts) (hstep : m.step = some m') :
    InRange ts m' := by
  obtain ⟨hmarks, hbelow⟩ := List.pairwise_cons.1 h.descending
  cases shift_of_step hstep with
  | stay hs => exact hs.inRange h.tokens_eq h.index_lt h.descending h.attempts_eq
  -- A token that is not the end is not the last one, so the next index is in range.
  | pass ht hend hs =>
      refine hs.inRange h.tokens_eq (h.succ_index_lt hts ht hend) ?_ h.attempts_eq
      exact List.pairwise_cons.2 ⟨fun i hi => Nat.le_succ_of_le (hmarks i hi), hbelow⟩
  -- The new mark is at the index, and all others are at it or in front of it.
  | mark hs =>
      refine hs.inRange h.tokens_eq h.index_lt ?_ (congrArg (· + 1) h.attempts_eq)
      exact List.pairwise_cons.2 ⟨List.forall_mem_cons.2 ⟨Nat.le_refl _, hmarks⟩, h.descending⟩
  | @rewind mark yes no stack hstack hs =>
      have hsplit : Frame.marks m.stack = mark :: Frame.marks stack := congrArg Frame.marks hstack
      -- The index goes back to the topmost mark, which the invariant keeps in front of it.
      have hmark : mark ≤ m.reader.index := hmarks mark (hsplit ▸ List.mem_cons_self ..)
      -- The mark is taken away with the attempt it belongs to.
      have hattempts : m.reader.attempts = (Frame.marks stack).length + 1 :=
        h.attempts_eq.trans (congrArg List.length hsplit)
      exact hs.inRange h.tokens_eq (Nat.lt_of_le_of_lt hmark h.index_lt) (hsplit ▸ hbelow)
        (congrArg (· - 1) hattempts)

/-- So do all steps, by induction on them, from the machine in front of the text on. -/
theorem InRange.reaches (h : InRange ts m) (hts : Ended ts) (hm : m.Reaches m') :
    InRange ts m' := by
  induction hm with
  | refl => exact h
  | tail _ hstep ih => exact ih.step hts hstep

/-! ### No access fails -/

/-- Looking ahead stays within the tokens, however far it goes, because the index is clamped to the
last one. -/
theorem InRange.aheadIndex_lt (h : InRange ts m) (n : Nat) : m.reader.aheadIndex n < ts.length := by
  have := h.index_lt
  rw [Reader.aheadIndex, h.tokens_eq]
  omega

/-- Looking behind stays within the tokens, also in front of the first one, where the index is
clamped. -/
theorem InRange.behindIndex_lt (h : InRange ts m) : m.reader.behindIndex < ts.length :=
  Nat.lt_of_le_of_lt (Nat.sub_le _ 1) h.index_lt


/-- So every access of a machine in range finds a token, which is that of the end if no other one is
there. -/
theorem InRange.finds (h : InRange ts m) : m.reader.Finds where
  isSome_ahead n := by
    have hlt := h.aheadIndex_lt n
    rw [← h.tokens_eq] at hlt
    rw [Reader.ahead?, List.getElem?_eq_getElem hlt]
    rfl
  isSome_behind := by
    have hlt := h.behindIndex_lt
    rw [← h.tokens_eq] at hlt
    rw [Reader.behind?, List.getElem?_eq_getElem hlt]
    rfl

/-- In range no access fails, so there is a step as long as something remains to be done. -/
theorem InRange.isSome_step (h : InRange ts m) (hstack : m.stack ≠ []) : m.step.isSome := by
  have hfinds := h.finds
  obtain ⟨p, stack, error?⟩ := m
  cases stack with
  | nil => exact absurd rfl hstack
  | cons f stack =>
      cases error? with
      | none => exact hfinds.isSome_proceed stack f
      | some e => rfl

/-! ### The index moves on -/

/-- A step that moves the index back returns to the mark of an attempt. -/
theorem index_le_of_step (hstep : m.step = some m') :
    m.reader.index ≤ m'.reader.index ∨
      ∃ mark yes no stack, m.stack = .rewind mark yes no :: stack ∧ m'.reader.index = mark := by
  cases shift_of_step hstep with
  | stay hs | mark hs => exact .inl (Nat.le_of_eq hs.index_eq.symm)
  | pass _ _ hs => exact .inl (Nat.le_trans (Nat.le_succ _) (Nat.le_of_eq hs.index_eq.symm))
  | rewind hstack hs => exact .inr ⟨_, _, _, _, hstack, hs.index_eq⟩

/-- One machine comes to another, and no attempt under way at first ends meanwhile. Attempts that
began meanwhile may end, so the index moves back along it, but not below where it was. -/
def Persists (m : Machine) : Machine → Prop :=
  Relation.ReflTransGen (fun x y => x.step = some y ∧ m.reader.attempts ≤ y.reader.attempts) m

/-- Neither the index nor a mark made since is in front of the index at first. -/
theorem InRange.exists_since (h : InRange ts m) (hts : Ended ts) (hm : m.Persists m') :
    InRange ts m' ∧ ∃ since, Frame.marks m'.stack = since ++ Frame.marks m.stack ∧
      ∀ i ∈ m'.reader.index :: since, m.reader.index ≤ i := by
  induction hm with
  | refl => exact ⟨h, [], rfl, List.forall_mem_singleton.2 (Nat.le_refl _)⟩
  | @tail x y _ hxy ih =>
      obtain ⟨hstep, hattempts⟩ := hxy
      obtain ⟨hx, since, hmarks, hbehind⟩ := ih
      obtain ⟨hindex, hsince⟩ := List.forall_mem_cons.1 hbehind
      have hy := hx.step hts hstep
      refine ⟨hy, ?_⟩
      cases shift_of_step hstep with
      | stay hs => exact ⟨since, hs.marks_eq.trans hmarks, hs.index_eq ▸ hbehind⟩
      | pass _ _ hs =>
          refine ⟨since, hs.marks_eq.trans hmarks, hs.index_eq ▸ ?_⟩
          exact List.forall_mem_cons.2 ⟨Nat.le_succ_of_le hindex, hsince⟩
      | mark hs =>
          refine ⟨x.reader.index :: since, hs.marks_eq.trans (congrArg (List.cons _) hmarks), ?_⟩
          exact List.forall_mem_cons.2 ⟨hs.index_eq ▸ hindex, hbehind⟩
      | @rewind mark yes no stack hstack hs =>
          have hsplit : mark :: Frame.marks stack = since ++ Frame.marks m.stack :=
            (congrArg Frame.marks hstack).symm.trans hmarks
          cases since with
          | nil =>
              -- The attempt that ends is under way at first. Then there are fewer attempts now.
              have hfewer : (Frame.marks stack).length + 1 = m.reader.attempts :=
                (congrArg List.length hsplit).trans h.attempts_eq.symm
              have hnow : y.reader.attempts = (Frame.marks stack).length :=
                hy.attempts_eq.trans (congrArg List.length hs.marks_eq)
              omega
          | cons i since =>
              obtain ⟨rfl, hrest⟩ := List.cons.inj hsplit
              exact ⟨since, hs.marks_eq.trans hrest, hs.index_eq ▸ hsince⟩

/-- Until an attempt ends that is under way, the index does not decrease. Attempts that begin and
end meanwhile return to where they began. -/
theorem InRange.index_le (h : InRange ts m) (hts : Ended ts) (hm : m.Persists m') :
    m.reader.index ≤ m'.reader.index := by
  obtain ⟨-, since, -, hbehind⟩ := h.exists_since hts hm
  exact hbehind _ (List.mem_cons_self ..)

end Machine

end GeneratedKeys
