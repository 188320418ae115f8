import GeneratedKeys.Proofs.Reading.Depth
import GeneratedKeys.Proofs.Recovery.Statement

/-!
# `GeneratedKeys.Proofs.Keys.Depth`: parentheses in front of an appended clause

What a statement skips ends at a RETURNING, a semicolon or the end, but only outside
parentheses. If a statement leaves no parenthesis open, a clause that is appended to it is
found.

* `mends_skip_appended`: what is skipped ends in front of an appended clause.
* `mends_front_appended`: the front of a statement is read alike in front of one.
-/

set_option autoImplicit false

namespace GeneratedKeys

open Rule Grammar View Move

/-- What is skipped up to some place is skipped up to a clause there, if no parenthesis is
open. -/
theorem bodyLength_appended {depth : Nat} {us rest : List Token} {t : Token} (vs : List Token)
    (h : State.bodyLength depth (us ++ rest) = us.length) (hdepth : depthAfter depth us = 0)
    (ht : t.kind = .keyword .returning) :
    State.bodyLength depth (us ++ t :: vs) = us.length := by
  induction us generalizing depth with
  | nil =>
      rw [depthAfter_nil] at hdepth
      rw [List.nil_append, bodyLength_cons, if_pos ⟨hdepth, .inr ht⟩]
      rfl
  | cons u us ih =>
      rw [List.cons_append, bodyLength_cons, List.length_cons] at h ⊢
      split at h
      · cases h
      · next hgo => rw [if_neg hgo, ih (Nat.succ.inj h) hdepth]

/-- A clause is appended behind tokens that leave no parenthesis open. Only there the word is read
as the beginning of the clause. -/
def View.Appended : View := fun before _ ts' =>
  depthAfter 0 before = 0 ∧ ∃ t us, ts' = t :: us ∧ t.kind = .keyword .returning

section

variable {n : Nat}

/-- What is skipped ends in front of an appended clause, as long as no parenthesis is open there. -/
theorem mends_skip_appended : Mends n .skip Appended (Behind (isWord .returning)) := by
  rintro before ts rest rest' ms ks hread ⟨hdepth, t, us, rfl, ht⟩
  obtain ⟨skipped, rfl, rfl, rfl, hlength⟩ := hread.skipped
  rw [consumed_map_pass] at hdepth
  -- Only what is skipped itself counts, and it leaves no parenthesis open either.
  have hagain := bodyLength_appended us hlength (depthAfter_eq_zero hdepth) ht
  rw [kept_map_pass, (clean_map_pass skipped).mended_eq_self]
  constructor
  · have hskip := @Reads.skip n (skipped ++ t :: us)
    rwa [hagain, List.take_left, List.drop_left] at hskip
  · cases skipped with
    | nil => exact .inr (.inr ⟨t, us, rfl, isWord_iff.2 ht⟩)
    | cons u vs =>
        refine .inr (.inl ⟨u, vs ++ rest, vs ++ t :: us, rfl, rfl, fun _ => ?_⟩)
        cases vs with
        | nil => exact .inr ⟨t, us, rfl, ht⟩
        | cons v vs => exact .inl rfl

/-- The front of a statement is read alike in front of an appended clause, whichever of the four
types it has. -/
theorem mends_front_appended (type : StatementType) :
    Mends n (front type) Appended (fun _ _ _ => True) := by
  refine mends_front type ?_ mends_skip_appended
  rintro before ts ts' ⟨-, t, us, rfl, ht⟩
  exact .inr (.inr ⟨t, us, rfl, isWord_iff.2 ht⟩)

end

end GeneratedKeys
