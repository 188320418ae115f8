/-!
# `GeneratedKeys.Proofs.Text.Rounds`: loops, round by round

A loop is given by what one round of it does: the loop is left with a result, or the next round
starts from another state. Nothing bounds the number of rounds. A loop works through a list, of
characters or of tokens, if each round that does not leave it takes something from the front of what
is ahead.

* `Round.Leaves`: after some number of rounds the loop is left.
* `Computes`: every round leaves the loop or takes something, and the loop is left from every
  state, with the value of a function.
* `computes_of_keeps`: this follows from what single rounds do.
-/

set_option autoImplicit false

namespace GeneratedKeys

/-- The things `ys` are what remains of `xs` after something was taken from the front. As something
was taken, this can go on only so often. -/
def Shrinks {α : Type} (xs ys : List α) : Prop :=
  ∃ x taken, xs = x :: taken ++ ys

/-- What remains is shorter, which is the measure by which a loop ends. -/
theorem Shrinks.length_lt {α : Type} {xs ys : List α} (h : Shrinks xs ys) :
    ys.length < xs.length := by
  obtain ⟨x, taken, rfl⟩ := h
  simp only [List.cons_append, List.length_cons, List.length_append]
  omega

/-- Without its first element a list has shrunk. Most rounds of a loop take exactly one. -/
theorem shrinks_cons {α : Type} (x : α) (xs : List α) : Shrinks (x :: xs) xs := ⟨x, [], rfl⟩

/-- What one round of a loop comes to: it leaves the loop with a result, or goes on from another
state. -/
inductive Round (σ ρ : Type) where
  /-- The loop is left with a result. -/
  | leave (r : ρ)
  /-- The next round starts from a state. -/
  | again (s : σ)

variable {σ ρ α : Type} {round : σ → Round σ ρ}

/-- The loop that starts from a state is left with a result. There is no bound on the rounds here,
so this says that the loop ends. -/
inductive Round.Leaves (round : σ → Round σ ρ) : σ → ρ → Prop where
  | now {s : σ} {r : ρ} : round s = .leave r → Leaves round s r
  | later {s s' : σ} {r : ρ} : round s = .again s' → Leaves round s' r → Leaves round s r

open Round

/-- A loop has one result at most, since each of its states has one round. -/
theorem Round.Leaves.unique {s : σ} {r r' : ρ} (h : Leaves round s r) (h' : Leaves round s r') :
    r = r' := by
  induction h with
  -- A round either leaves the loop or goes on, so both runs do the same thing in each round.
  | now hround =>
      cases h' with
      | now hround' =>
          rw [hround] at hround'
          exact Round.leave.inj hround'
      | later hround' _ =>
          rw [hround] at hround'
          cases hround'
  | later hround _ ih =>
      cases h' with
      | now hround' =>
          rw [hround] at hround'
          cases hround'
      | later hround' hrest =>
          rw [hround] at hround'
          cases hround'
          exact ih hrest

/-- Where `ahead` tells what is ahead of the loop in a state, each round leaves the loop or takes
something from there, and the loop is left with the value of `f`. So the loop ends from every state,
without a bound on its rounds, and `f` is what it computes. -/
structure Computes (round : σ → Round σ ρ) (ahead : σ → List α) (f : σ → ρ) : Prop where
  shrinks : ∀ {s s' : σ}, round s = .again s' → Shrinks (ahead s) (ahead s')
  leaves_iff : ∀ {s : σ} {r : ρ}, Leaves round s r ↔ r = f s

/-- What a round has to do in the state `s` of a loop that computes `f`: where the loop is left, the
result is that of `f`, and where it goes on, something was taken and `f` has not changed. -/
def Round.Keeps (ahead : σ → List α) (f : σ → ρ) (s : σ) : Round σ ρ → Prop
  | .leave r => f s = r
  | .again s' => Shrinks (ahead s) (ahead s') ∧ f s' = f s

/-- What a loop computes is seen from its single rounds: it is enough that each round keeps the
value and takes something from what is ahead. -/
theorem computes_of_keeps {ahead : σ → List α} {f : σ → ρ}
    (h : ∀ s, (round s).Keeps ahead f s) : Computes round ahead f where
  shrinks := by
    intro s s' hround
    have hs := h s
    rw [hround] at hs
    exact hs.1
  leaves_iff := by
    intro s r
    have hleaves : Leaves round s (f s) := by
      -- The induction is on the number of things ahead, which every round reduces.
      induction hn : (ahead s).length using Nat.strongRecOn generalizing s with
      | ind n ih =>
        have hs := h s
        cases hround : round s with
        | leave r =>
            rw [hround] at hs
            exact .now (hround.trans (congrArg Round.leave hs.symm))
        | again s' =>
            rw [hround] at hs
            obtain ⟨hshrinks, hf⟩ := hs
            have hrest := ih _ (by rw [← hn]; exact hshrinks.length_lt) rfl
            rw [hf] at hrest
            exact .later hround hrest
    constructor
    · intro hr
      exact hr.unique hleaves
    · rintro rfl
      exact hleaves

end GeneratedKeys
