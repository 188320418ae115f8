import GeneratedKeys.Proofs.Reading.Stalls
import GeneratedKeys.Proofs.Token.Stretch

/-!
# `GeneratedKeys.Proofs.Reading.Leads`: the way that a reading takes

Reading goes through the tokens from the first to the last and never back, whether it reads on or
stops with an error. `Leads ts ms rest` says that the moves `ms` lead from `ts` to `rest`: every
token in between is passed or dropped, and a missing one is supplied at the end only.

* `Reads.leads`, `Stalls.leads`: the moves of a reading lead from its first token to its last place.
* `Leads.repaired_inOrder`: the repairs are made one behind the other, in front of the place where
  the reading ends.
-/

set_option autoImplicit false

namespace GeneratedKeys

open Move

/-- The moves lead from the tokens `ts` to `rest`. Nothing is said of a rule here: only that each
move takes the token that is next, and a token is supplied at the end only. -/
inductive Leads : List Token → List Move → List Token → Prop where
  | nil {ts : List Token} : Leads ts [] ts
  | pass {t : Token} {ts rest : List Token} {ms : List Move} :
      Leads ts ms rest → Leads (t :: ts) (pass t :: ms) rest
  | drop {t : Token} {wanted : TokenKind} {ts rest : List Token} {ms : List Move} :
      Leads ts ms rest → Leads (t :: ts) (drop t wanted :: ms) rest
  | supply {rest : List Token} {ms : List Move} :
      Leads [] ms rest → Leads [] (supply :: ms) rest

namespace Leads

variable {ts mid rest : List Token} {ms ms₁ ms₂ : List Move}

/-- Moves that lead to a place, and others that lead on from there. -/
theorem trans (h₁ : Leads ts ms₁ mid) (h₂ : Leads mid ms₂ rest) : Leads ts (ms₁ ++ ms₂) rest := by
  induction h₁ with
  | nil => exact h₂
  | pass _ ih => exact .pass (ih h₂)
  | drop _ ih => exact .drop (ih h₂)
  | supply _ ih => exact .supply (ih h₂)

/-- The tokens in front of the place reached are the ones consumed. -/
theorem consumed_append (h : Leads ts ms rest) : consumed ms ++ rest = ts := by
  induction h with
  | nil => rfl
  | pass _ ih | drop _ ih => exact congrArg (List.cons _) ih
  | supply _ ih => exact ih

/-- Tokens that are passed one by one lead to those behind them. -/
theorem map_pass (ts rest : List Token) : Leads (ts ++ rest) (ts.map Move.pass) rest := by
  induction ts with
  | nil => exact .nil
  | cons t ts ih => exact .pass ih

end Leads

variable {n : Nat} {r : Rule} {ts rest : List Token} {ms : List Move} {ks : List Note}

/-- The moves of a rule that is read to its end lead from the tokens in front of it to those behind.
-/
theorem Reads.leads (h : Reads n r ts ms ks rest) : Leads ts ms rest := by
  induction h with
  | seq _ _ ih₁ ih₂ | again _ _ _ ih₁ ih₂ => exact ih₁.trans ih₂
  | expect | take => exact .pass .nil
  | dropped => exact .drop (.pass .nil)
  | supplied => exact .supply .nil
  | yes _ _ ih | no _ _ ih | foreseen _ _ ih | unforeseen _ _ ih => exact ih
  | value _ ih | record _ ih | together _ ih => exact ih
  | @skip _ ts =>
      have hleads := Leads.map_pass (ts.take (State.bodyLength 0 ts))
        (ts.drop (State.bodyLength 0 ts))
      rwa [List.take_append_drop] at hleads
  | _ => exact .nil

/-- The moves of a rule that stalls lead to the place where it does. -/
theorem Stalls.leads {reason : Reason} (h : Stalls n r ts ms ks rest reason) :
    Leads ts ms rest := by
  induction h with
  | first _ ih | yes _ _ ih | no _ _ ih | foreseen _ _ ih | unforeseen _ _ ih => exact ih
  | round _ _ ih | value _ ih | record _ ih | together _ ih => exact ih
  | second h₁ _ ih | again _ h₁ _ ih => exact h₁.leads.trans ih
  | _ => exact .nil

/-! ### The places of repairs -/

/-- The next token, or the one that stands for the end of a text of `size` bytes. -/
def nextToken (size : Nat) (ts : List Token) : Token :=
  ts.head?.getD (.atEnd size)

/-- The tokens stand one behind the other in a text of `size` bytes, and the token of the end behind
all of them. -/
def InOrder (size : Nat) (ts : List Token) : Prop :=
  (ts ++ [Token.atEnd size]).Pairwise fun x y => x.stop ≤ y.start

/-- The tokens that the grammar reads stand one behind the other in their text. -/
theorem inOrder_significantTokens (t : Text) : InOrder (Text.size t) (significantTokens t) := by
  refine List.pairwise_append.2 ⟨pairwise_significantTokens t, List.pairwise_singleton .., ?_⟩
  intro x hx y hy
  rw [List.mem_singleton.1 hy]
  have hstop := stop_le_of_mem (List.mem_filter.1 hx).1
  rwa [Nat.zero_add] at hstop

/-- The next token is one of those ahead, or the one that stands for the end. -/
theorem nextToken_mem (size : Nat) (ts : List Token) :
    nextToken size ts ∈ ts ++ [Token.atEnd size] := by
  cases ts with
  | nil => exact List.mem_singleton_self _
  | cons t ts => exact List.mem_cons_self ..

namespace Leads

/-- Every repair is made at a token, and so is the end of the reading. -/
theorem repaired_place {size : Nat} (h : Leads ts ms rest) :
    ∀ s ∈ (repairs size ms).map (fun r => r.diagnostic.span) ++ [(nextToken size rest).span],
      ∃ x ∈ ts ++ [Token.atEnd size], s = x.span := by
  induction h with
  | nil =>
      intro s hs
      exact ⟨_, nextToken_mem .., List.mem_singleton.1 hs⟩
  | pass _ ih =>
      intro s hs
      obtain ⟨x, hx, hspan⟩ := ih s hs
      exact ⟨x, List.mem_cons_of_mem _ hx, hspan⟩
  | @drop t wanted ts _ _ _ ih =>
      intro s hs
      rcases List.mem_cons.1 hs with rfl | hs
      -- The first repair stands at the token that is dropped.
      · exact ⟨t, List.mem_cons_self .., rfl⟩
      · obtain ⟨x, hx, hspan⟩ := ih s hs
        exact ⟨x, List.mem_cons_of_mem _ hx, hspan⟩
  | supply _ ih =>
      intro s hs
      rcases List.mem_cons.1 hs with rfl | hs
      -- What is supplied is supplied at the end.
      · refine ⟨Token.atEnd size, List.mem_singleton_self _, ?_⟩
        simp [Repair.diagnostic, Token.atEnd, Token.span, Token.stop, Text.size]
      · exact ih s hs

/-- The repairs are made one behind the other, and the reading ends behind them all. -/
theorem repaired_inOrder {size : Nat} (h : Leads ts ms rest) (hts : InOrder size ts) :
    ((repairs size ms).map (fun r => r.diagnostic.span) ++ [(nextToken size rest).span]).Pairwise
      fun s s' => s.start ≤ s'.start := by
  induction h with
  | nil => exact List.pairwise_singleton ..
  | pass _ ih => exact ih (List.pairwise_cons.1 hts).2
  | @drop t wanted ts _ _ hleads ih =>
      obtain ⟨hbehind, hothers⟩ := List.pairwise_cons.1 hts
      refine List.pairwise_cons.2 ⟨?_, ih hothers⟩
      -- Whatever comes later is at a token behind the stray one.
      intro s hs
      obtain ⟨x, hx, rfl⟩ := hleads.repaired_place s hs
      exact Nat.le_trans (Nat.le_add_right ..) (hbehind x hx)
  | supply hleads ih =>
      refine List.pairwise_cons.2 ⟨?_, ih hts⟩
      -- At the end nothing but the end is left.
      intro s hs
      obtain ⟨x, hx, rfl⟩ := hleads.repaired_place s hs
      rw [List.mem_singleton.1 hx]
      exact Nat.le_refl _

end Leads

end GeneratedKeys
