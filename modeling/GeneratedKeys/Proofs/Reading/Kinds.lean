import GeneratedKeys.Proofs.Reading.Reads
import Mathlib.Data.List.Forall2

/-!
# `GeneratedKeys.Proofs.Reading.Kinds`: reading looks at kinds only

No rule asks for the text of a token or for its place. If a relation `R` holds only between
tokens of one kind, then a list of tokens that is related to another one token by token is
read like that one, and the traces of both are related token by token.

* `Reads.relabel`: the same reading with other texts and other places.
-/

set_option autoImplicit false

namespace GeneratedKeys

variable {R : Token → Token → Prop}

/-- The same move of related tokens. What is wanted in front of a stray token must be the same kind
on both sides. -/
inductive Move.Alike (R : Token → Token → Prop) : Move → Move → Prop where
  | pass {t t' : Token} : R t t' → Move.Alike R (.pass t) (.pass t')
  | drop {t t' : Token} {wanted : TokenKind} : R t t' →
      Move.Alike R (.drop t wanted) (.drop t' wanted)
  | supply : Move.Alike R .supply .supply

/-- The same note of related moves, so that both are about the same kind of part. -/
inductive Note.Alike (R : Token → Token → Prop) : Note → Note → Prop where
  | part {p : Part} {ms ms' : List Move} : List.Forall₂ (Move.Alike R) ms ms' →
      Note.Alike R (.part p ms) (.part p ms')
  | type {t : StatementType} : Note.Alike R (.type t) (.type t)
  | defaults : Note.Alike R .defaults .defaults

/-- Passed tokens that are related are related moves, one by one. -/
theorem forall₂_map_pass {ts ts' : List Token} (h : List.Forall₂ R ts ts') :
    List.Forall₂ (Move.Alike R) (ts.map .pass) (ts'.map .pass) := by
  induction h with
  | nil => exact .nil
  | cons ht _ ih => exact .cons (.pass ht) ih

/-- What is like passing a list of tokens passes a list of tokens. -/
theorem exists_of_forall₂_map_pass {ts : List Token} {ms : List Move}
    (h : List.Forall₂ (Move.Alike R) (ts.map .pass) ms) :
    ∃ ts', ms = ts'.map .pass ∧ List.Forall₂ R ts ts' := by
  induction ts generalizing ms with
  | nil =>
      cases h
      exact ⟨[], rfl, .nil⟩
  | cons t ts ih =>
      cases h with
      | cons ht hts =>
          cases ht with
          | @pass _ t' hR =>
              obtain ⟨ts', rfl, hts'⟩ := ih hts
              exact ⟨t' :: ts', rfl, .cons hR hts'⟩

section

variable (hR : ∀ {t t' : Token}, R t t' → t'.kind = t.kind)

include hR

/-- Tests look at kinds only, so they hold of related tokens alike. -/
theorem passes_of_forall₂ {tests : List (TokenKind → Bool)} {ts ts' : List Token}
    (h : List.Forall₂ R ts ts') : State.passes tests ts' = State.passes tests ts := by
  induction tests generalizing ts ts' with
  | nil => rfl
  | cons test tests ih =>
      cases h with
      | nil => rfl
      | cons ht hts => rw [State.passes, State.passes, hR ht, ih hts]

/-- Skipping looks at kinds only, so it goes as far in related tokens. -/
theorem bodyLength_of_forall₂ {depth : Nat} {ts ts' : List Token} (h : List.Forall₂ R ts ts') :
    State.bodyLength depth ts' = State.bodyLength depth ts := by
  induction h generalizing depth with
  | nil => rfl
  | cons ht _ ih => simp only [State.bodyLength, hR ht, ih]

/-- Attempts look at kinds only, so on related tokens they succeed together and leave related
tokens. -/
theorem strict_of_forall₂ (r : Rule) {ts ts' : List Token} (h : List.Forall₂ R ts ts') :
    Option.Rel (List.Forall₂ R) (r.strict ts) (r.strict ts') := by
  induction r generalizing ts ts' with
  | empty => exact .some h
  | seq first second ih₁ ih₂ =>
      have hfirst := ih₁ h
      rw [Rule.strict, Rule.strict]
      -- The first attempts succeed or fail together.
      revert hfirst
      generalize first.strict ts = o, first.strict ts' = o'
      rintro (hmid | _)
      · exact ih₂ hmid
      · exact .none
  | expect kind =>
      cases h with
      | nil => exact .none
      | cons ht hts =>
          rw [Rule.strict, Rule.strict, hR ht]
          split
          · exact .some hts
          · exact .none
  | take =>
      cases h with
      | nil => exact .some .nil
      | cons _ hts => exact .some hts
  | branch tests yes no ihy ihn =>
      rw [Rule.strict, Rule.strict, passes_of_forall₂ hR h]
      split
      · exact ihy h
      · exact ihn h
  | _ => exact .none

/-- A plain rule can be read without repairs in both lists of tokens or in neither. -/
theorem isSome_strict_of_forall₂ {r : Rule} {ts ts' : List Token} (h : List.Forall₂ R ts ts') :
    (r.strict ts').isSome = (r.strict ts).isSome := by
  have hrel := strict_of_forall₂ hR r h
  revert hrel
  generalize r.strict ts = o, r.strict ts' = o'
  rintro (_ | _) <;> rfl

/-- A statement with other texts and other places is read the same way, as long as related tokens
have the same kinds. -/
theorem Reads.relabel {n : Nat} {r : Rule} {ts rest : List Token} {ms : List Move}
    {ks : List Note} (h : Reads n r ts ms ks rest) {ts' : List Token}
    (hts : List.Forall₂ R ts ts') :
    ∃ ms' ks' rest', Reads n r ts' ms' ks' rest' ∧ List.Forall₂ (Move.Alike R) ms ms' ∧
      List.Forall₂ (Note.Alike R) ks ks' ∧ List.Forall₂ R rest rest' := by
  induction h generalizing ts' with
  | empty => exact ⟨_, _, _, .empty, .nil, .nil, hts⟩
  | seq _ _ ih₁ ih₂ =>
      obtain ⟨ms₁, ks₁, mid, hread₁, hms₁, hks₁, hmid⟩ := ih₁ hts
      obtain ⟨ms₂, ks₂, rest', hread₂, hms₂, hks₂, hrest⟩ := ih₂ hmid
      exact ⟨_, _, _, .seq hread₁ hread₂, List.rel_append hms₁ hms₂, List.rel_append hks₁ hks₂,
        hrest⟩
  | expect hk =>
      cases hts with
      | cons ht hts => exact ⟨_, _, _, .expect (by rwa [hR ht]), .cons (.pass ht) .nil, .nil, hts⟩
  | dropped hk hu =>
      cases hts with
      | cons ht hts =>
          cases hts with
          | cons hu' hts =>
              exact ⟨_, _, _, .dropped (by rwa [hR ht]) (by rwa [hR hu']),
                .cons (.drop ht) (.cons (.pass hu') .nil), .nil, hts⟩
  | supplied =>
      cases hts
      exact ⟨_, _, _, .supplied, .cons .supply .nil, .nil, .nil⟩
  | take =>
      cases hts with
      | cons ht hts => exact ⟨_, _, _, .take, .cons (.pass ht) .nil, .nil, hts⟩
  | yes hp _ ih =>
      obtain ⟨ms', ks', rest', hread, hrel⟩ := ih hts
      exact ⟨ms', ks', rest', .yes (by rwa [passes_of_forall₂ hR hts]) hread, hrel⟩
  | no hp _ ih =>
      obtain ⟨ms', ks', rest', hread, hrel⟩ := ih hts
      exact ⟨ms', ks', rest', .no (by rwa [passes_of_forall₂ hR hts]) hread, hrel⟩
  | foreseen hp _ ih =>
      obtain ⟨ms', ks', rest', hread, hrel⟩ := ih hts
      exact ⟨ms', ks', rest', .foreseen (by rwa [isSome_strict_of_forall₂ hR hts]) hread, hrel⟩
  | unforeseen hp _ ih =>
      obtain ⟨ms', ks', rest', hread, hrel⟩ := ih hts
      exact ⟨ms', ks', rest', .unforeseen (by rwa [isSome_strict_of_forall₂ hR hts]) hread, hrel⟩
  | stop hp => exact ⟨_, _, _, .stop (by rwa [passes_of_forall₂ hR hts]), .nil, .nil, hts⟩
  | again hp _ _ ih₁ ih₂ =>
      obtain ⟨ms₁, ks₁, mid, hread₁, hms₁, hks₁, hmid⟩ := ih₁ hts
      obtain ⟨ms₂, ks₂, rest', hread₂, hms₂, hks₂, hrest⟩ := ih₂ hmid
      exact ⟨_, _, _, .again (by rwa [passes_of_forall₂ hR hts]) hread₁ hread₂,
        List.rel_append hms₁ hms₂, List.rel_append hks₁ hks₂, hrest⟩
  | value _ ih =>
      obtain ⟨ms', ks', rest', hread, hrel⟩ := ih hts
      exact ⟨ms', ks', rest', .value hread, hrel⟩
  | skip =>
      -- As many tokens are skipped, since that depends on kinds only.
      refine ⟨_, _, _, .skip, ?_, .nil, ?_⟩
      · rw [bodyLength_of_forall₂ hR hts]
        exact forall₂_map_pass (List.forall₂_take _ hts)
      · rw [bodyLength_of_forall₂ hR hts]
        exact List.forall₂_drop _ hts
  | record _ ih =>
      obtain ⟨ms', ks', rest', hread, hms, hks, hrest⟩ := ih hts
      exact ⟨_, _, _, .record hread, hms, List.rel_append hks (.cons (.part hms) .nil), hrest⟩
  | together _ ih =>
      obtain ⟨ms', ks', rest', hread, hrel⟩ := ih hts
      exact ⟨ms', ks', rest', .together hread, hrel⟩
  | declare => exact ⟨_, _, _, .declare, .nil, .cons .type .nil, hts⟩
  | defaults => exact ⟨_, _, _, .defaults, .nil, .cons .defaults .nil, hts⟩
  | finish =>
      cases hts
      exact ⟨_, _, _, .finish, .nil, .nil, .nil⟩

end

end GeneratedKeys
