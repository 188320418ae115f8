import GeneratedKeys.Proofs.Reading.Labels
import GeneratedKeys.Proofs.Reading.Leads

/-!
# `GeneratedKeys.Proofs.Reading.Order`: where the parts of a statement lie

What a reading keeps is kept on its way through the tokens, so the parts lie in the statement one
behind the other, in the order of their notes. `Laid ks ts` says that the parts of the notes `ks`
are stretches of the tokens `ts` that lie so. Which kinds of parts come first is told by a rank for
each label, and whether a rule keeps to the ranks is checked on the rule as data.

* `Retains.laid`: the parts lie one behind the other, however the reading ends.
* `Laid.pairwise_precedes`: so do their bytes.
* `Retains.pairwise_rank`: the notes are sorted by their ranks.
* `Note.precedes_of_rank_lt`: a part of a lower rank lies in front of one of a higher rank.
-/

set_option autoImplicit false

namespace GeneratedKeys

open Move

/-! ### Parts one behind the other -/

/-- The parts of the notes are stretches of the tokens, one behind the other. Gaps between them are
allowed, and every part has a token. -/
inductive Laid : List Note → List Token → Prop where
  | nil {ts : List Token} : Laid [] ts
  /-- The type of a statement has no place. -/
  | type {type : StatementType} {ks : List Note} {ts : List Token} :
      Laid ks ts → Laid (.type type :: ks) ts
  | defaults {ks : List Note} {ts : List Token} : Laid ks ts → Laid (.defaults :: ks) ts
  | part {p : Part} {run : List Move} {ks : List Note} {gap behind : List Token} :
      consumed run ≠ [] → Laid ks behind →
        Laid (.part p run :: ks) (gap ++ (consumed run ++ behind))

namespace Laid

variable {ks ks₁ ks₂ : List Note} {ts ts₁ ts₂ : List Token}

/-- More tokens in front make the first gap longer, and change nothing of how the parts lie. -/
theorem behind (h : Laid ks ts) (front : List Token) : Laid ks (front ++ ts) := by
  induction h with
  | nil => exact .nil
  | type _ ih => exact .type ih
  | defaults _ ih => exact .defaults ih
  | part hrun hks _ =>
      rw [← List.append_assoc]
      exact .part hrun hks

/-- Parts in some tokens and others in the tokens behind those lie one behind the other in all of
them. -/
theorem append (h₁ : Laid ks₁ ts₁) (h₂ : Laid ks₂ ts₂) : Laid (ks₁ ++ ks₂) (ts₁ ++ ts₂) := by
  induction h₁ with
  | nil => exact h₂.behind _
  | type _ ih => exact .type ih
  | defaults _ ih => exact .defaults ih
  | part hrun _ ih =>
      rw [List.append_assoc, List.append_assoc]
      exact .part hrun ih

/-- A part is a stretch of the tokens, and not an empty one. -/
theorem infix_of_mem (h : Laid ks ts) {p : Part} {run : List Move} (hmem : .part p run ∈ ks) :
    consumed run ≠ [] ∧ consumed run <:+: ts := by
  induction h with
  | nil => cases hmem
  | type _ ih | defaults _ ih =>
      rcases List.mem_cons.1 hmem with hk | hmem
      · cases hk
      · exact ih hmem
  | @part _ _ _ gap behind hrun _ ih =>
      rcases List.mem_cons.1 hmem with hk | hmem
      -- It is the first part: a gap in front of it and the others behind.
      · obtain ⟨rfl, rfl⟩ := Note.part.inj hk
        exact ⟨hrun, gap, behind, List.append_assoc ..⟩
      -- It lies behind the first part.
      · obtain ⟨hne, hinfix⟩ := ih hmem
        refine ⟨hne, hinfix.trans ?_⟩
        rw [← List.append_assoc]
        exact (List.suffix_append ..).isInfix

end Laid

/-- The bytes of a part end in front of those of another one. Notes that are no parts precede
everything. -/
def Note.Precedes (k k' : Note) : Prop :=
  ∀ {p p' : Part} {run run' : List Move}, k = .part p run → k' = .part p' run' →
    (range run).stop ≤ (range run').start

/-- Parts that lie one behind the other in tokens that do. Each ends in front of every later one,
not only of the next. -/
theorem Laid.pairwise_precedes {ks : List Note} {ts : List Token} (h : Laid ks ts)
    (hts : ts.Pairwise fun x y => x.stop ≤ y.start) : ks.Pairwise Note.Precedes := by
  induction h with
  | nil => exact .nil
  | type _ ih | defaults _ ih => exact .cons (fun _ _ _ _ _ _ hk => nomatch hk) (ih hts)
  | @part p run ks gap behind hrun hks ih =>
      obtain ⟨-, hrest, -⟩ := List.pairwise_append.1 hts
      obtain ⟨-, hbehind, hbefore⟩ := List.pairwise_append.1 hrest
      refine .cons ?_ (ih hbehind)
      intro k hk _ _ _ run' hpart hpart'
      obtain ⟨-, rfl⟩ := Note.part.inj hpart
      subst hpart'
      -- The first token of the later part is behind all tokens of this one.
      obtain ⟨hne, hinfix⟩ := hks.infix_of_mem hk
      obtain ⟨x, xs, hx⟩ := List.exists_cons_of_ne_nil hne
      obtain ⟨l, -, -, hrange⟩ := exists_range hx
      have hmem : x ∈ behind := hinfix.subset (by rw [hx]; exact List.mem_cons_self ..)
      rw [hrange]
      exact range_stop_le fun y hy => hbefore y hy x hmem

/-- Whether no part is kept inside another one, and every part has a token. The grammar is flat,
which is decided rule by rule. -/
def Rule.flat : Rule → Bool
  | seq first second => first.flat && second.flat
  | branch _ yes no | foresee _ yes no => yes.flat && no.flat
  | repeatWhile _ body | together body => body.flat
  | record _ body => body.labels.isEmpty && !body.idle
  | _ => true

variable {n : Nat} {r : Rule} {ts rest : List Token} {ms : List Move} {ks : List Note}

/-- The parts that a rule keeps lie one behind the other in the tokens that it consumes. Flatness is
needed, since a part inside another one would overlap it. -/
theorem Reads.laid (h : Reads n r ts ms ks rest) (hr : r.flat = true) : Laid ks (consumed ms) := by
  induction h with
  | seq _ _ ih₁ ih₂ =>
      simp only [Rule.flat, Bool.and_eq_true] at hr
      rw [Move.consumed_append]
      exact (ih₁ hr.1).append (ih₂ hr.2)
  | again _ _ _ ih₁ ih₂ =>
      rw [Move.consumed_append]
      exact (ih₁ hr).append (ih₂ hr)
  | yes _ _ ih | foreseen _ _ ih =>
      simp only [Rule.flat, Bool.and_eq_true] at hr
      exact ih hr.1
  | no _ _ ih | unforeseen _ _ ih =>
      simp only [Rule.flat, Bool.and_eq_true] at hr
      exact ih hr.2
  | value _ ih => exact ih rfl
  -- The body keeps no parts of its own, so the part is the whole of what was read.
  | @record _ part _ _ _ ms _ hbody _ =>
      simp only [Rule.flat, Bool.and_eq_true, List.isEmpty_iff, Bool.not_eq_true'] at hr
      rw [(Retains.reads hbody).notes_eq_nil hr.1]
      have hpart : Laid [.part part ms] ([] ++ (consumed ms ++ [])) :=
        .part (hbody.consumed_ne_nil hr.2) .nil
      rwa [List.nil_append, List.append_nil] at hpart
  | together _ ih => exact ih hr
  | declare => exact .type .nil
  | defaults => exact .defaults .nil
  | _ => exact .nil

/-- The parts that a rule has kept when it stalls lie one behind the other, too. -/
theorem Stalls.laid {reason : Reason} (h : Stalls n r ts ms ks rest reason) (hr : r.flat = true) :
    Laid ks (consumed ms) := by
  induction h with
  | first _ ih | yes _ _ ih | foreseen _ _ ih =>
      simp only [Rule.flat, Bool.and_eq_true] at hr
      exact ih hr.1
  | no _ _ ih | unforeseen _ _ ih =>
      simp only [Rule.flat, Bool.and_eq_true] at hr
      exact ih hr.2
  | second h₁ _ ih =>
      simp only [Rule.flat, Bool.and_eq_true] at hr
      rw [Move.consumed_append]
      exact (h₁.laid hr.1).append (ih hr.2)
  | again _ h₁ _ ih =>
      rw [Move.consumed_append]
      exact (h₁.laid hr).append (ih hr)
  | round _ _ ih => exact ih hr
  | value _ ih => exact ih rfl
  -- A part that is not read to its end is not kept.
  | record hbody _ =>
      simp only [Rule.flat, Bool.and_eq_true, List.isEmpty_iff] at hr
      rw [(Retains.stalls hbody).notes_eq_nil hr.1]
      exact .nil
  | _ => exact .nil

/-- The parts that a rule keeps lie one behind the other in its tokens, whether it is read to its
end or stalls. -/
theorem Retains.laid (h : Retains n r ts ks) (hr : r.flat = true) : Laid ks ts := by
  -- Behind the tokens that were consumed no part lies.
  have extend : ∀ {ms : List Move} {rest : List Token}, Leads ts ms rest → Laid ks (consumed ms) →
      Laid ks ts := by
    intro ms rest hleads hlaid
    have hall := hlaid.append (Laid.nil : Laid [] rest)
    rwa [List.append_nil, hleads.consumed_append] at hall
  cases h with
  | reads h => exact extend h.leads (h.laid hr)
  | stalls h => exact extend h.leads (h.laid hr)

/-! ### Parts in the order of their kinds -/

/-- Whether the labels of a rule come in the order of their ranks. A repetition may come back to a
label, so all of its labels need the same rank. -/
def Rule.ranked (rank : Label → Nat) : Rule → Bool
  | seq first second =>
    first.ranked rank && second.ranked rank &&
      first.labels.all fun l => second.labels.all fun l' => rank l ≤ rank l'
  | branch _ yes no | foresee _ yes no => yes.ranked rank && no.ranked rank
  | repeatWhile _ body =>
    body.ranked rank && body.labels.all fun l => body.labels.all fun l' => rank l ≤ rank l'
  | record p body => body.ranked rank && body.labels.all fun l => rank l ≤ rank (.part p)
  | together body => body.ranked rank
  | _ => true

variable {rank : Label → Nat}

/-- Sorted notes in front of others, if all their labels are in order. -/
theorem pairwise_rank_append {ks₁ ks₂ : List Note} {ls₁ ls₂ : List Label}
    (h₁ : ks₁.Pairwise fun k k' => rank k.label ≤ rank k'.label)
    (h₂ : ks₂.Pairwise fun k k' => rank k.label ≤ rank k'.label)
    (hls₁ : ∀ k ∈ ks₁, k.label ∈ ls₁) (hls₂ : ∀ k ∈ ks₂, k.label ∈ ls₂)
    (hls : (ls₁.all fun l => ls₂.all fun l' => rank l ≤ rank l') = true) :
    (ks₁ ++ ks₂).Pairwise fun k k' => rank k.label ≤ rank k'.label := by
  refine List.pairwise_append.2 ⟨h₁, h₂, fun k hk k' hk' => ?_⟩
  have hall := List.all_eq_true.1 hls _ (hls₁ k hk)
  exact of_decide_eq_true (List.all_eq_true.1 hall _ (hls₂ k' hk'))

/-- The notes of a rule that is read to its end are sorted by their ranks. -/
theorem Reads.pairwise_rank (h : Reads n r ts ms ks rest) (hr : r.ranked rank = true) :
    ks.Pairwise fun k k' => rank k.label ≤ rank k'.label := by
  induction h with
  | seq h₁ h₂ ih₁ ih₂ =>
      simp only [Rule.ranked, Bool.and_eq_true] at hr
      -- The labels of the first rule do not rank above those of the second one.
      exact pairwise_rank_append (ih₁ hr.1.1) (ih₂ hr.1.2) h₁.label_mem h₂.label_mem hr.2
  | again _ h₁ h₂ ih₁ ih₂ =>
      -- The rounds of a repetition keep notes of equal rank, since each round can stand behind any
      -- other.
      have hbody := hr
      simp only [Rule.ranked, Bool.and_eq_true] at hbody
      exact pairwise_rank_append (ih₁ hbody.1) (ih₂ hr) h₁.label_mem h₂.label_mem hbody.2
  | yes _ _ ih | foreseen _ _ ih =>
      simp only [Rule.ranked, Bool.and_eq_true] at hr
      exact ih hr.1
  | no _ _ ih | unforeseen _ _ ih =>
      simp only [Rule.ranked, Bool.and_eq_true] at hr
      exact ih hr.2
  | value hvalue =>
      rw [hvalue.notes_eq_nil rfl]
      exact .nil
  | @record _ part _ _ _ ms _ hbody ih =>
      simp only [Rule.ranked, Bool.and_eq_true] at hr
      -- A part is noted behind what its body keeps.
      refine List.pairwise_append.2 ⟨ih hr.1, List.pairwise_singleton .., fun k hk k' hk' => ?_⟩
      rw [List.mem_singleton.1 hk']
      exact of_decide_eq_true (List.all_eq_true.1 hr.2 _ (hbody.label_mem k hk))
  | together _ ih => exact ih hr
  | declare | defaults => exact List.pairwise_singleton ..
  | _ => exact .nil

/-- The notes of a rule that stalls are sorted by their ranks, as those of a first part of it. -/
theorem Stalls.pairwise_rank {reason : Reason} (h : Stalls n r ts ms ks rest reason)
    (hr : r.ranked rank = true) : ks.Pairwise fun k k' => rank k.label ≤ rank k'.label := by
  induction h with
  | first _ ih =>
      simp only [Rule.ranked, Bool.and_eq_true] at hr
      exact ih hr.1.1
  -- The first rule was read to its end, so all its notes come first.
  | second h₁ h₂ ih =>
      simp only [Rule.ranked, Bool.and_eq_true] at hr
      exact pairwise_rank_append (h₁.pairwise_rank hr.1.1) (ih hr.1.2) h₁.label_mem h₂.label_mem
        hr.2
  | yes _ _ ih | foreseen _ _ ih | record _ ih =>
      simp only [Rule.ranked, Bool.and_eq_true] at hr
      exact ih hr.1
  | no _ _ ih | unforeseen _ _ ih =>
      simp only [Rule.ranked, Bool.and_eq_true] at hr
      exact ih hr.2
  | round _ _ ih =>
      simp only [Rule.ranked, Bool.and_eq_true] at hr
      exact ih hr.1
  -- Rounds that were read to their ends come in front of the one that stalls.
  | again _ h₁ h₂ ih =>
      have hbody := hr
      simp only [Rule.ranked, Bool.and_eq_true] at hbody
      exact pairwise_rank_append (h₁.pairwise_rank hbody.1) (ih hr) h₁.label_mem h₂.label_mem
        hbody.2
  | value hvalue _ =>
      rw [(Retains.stalls hvalue).notes_eq_nil rfl]
      exact .nil
  | _ => exact .nil

/-- The notes of a rule are sorted by their ranks, also if it stalls. -/
theorem Retains.pairwise_rank (h : Retains n r ts ks) (hr : r.ranked rank = true) :
    ks.Pairwise fun k k' => rank k.label ≤ rank k'.label := by
  cases h with
  | reads h => exact h.pairwise_rank hr
  | stalls h => exact h.pairwise_rank hr

/-- Of two notes the one of the lower rank comes first. So which part precedes which is known from
their kinds alone. -/
theorem Note.precedes_of_rank_lt (hks : ks.Pairwise Note.Precedes)
    (hrank : ks.Pairwise fun k k' => rank k.label ≤ rank k'.label) {k k' : Note} (hk : k ∈ ks)
    (hk' : k' ∈ ks) (hlt : rank k.label < rank k'.label) : k.Precedes k' := by
  induction ks with
  | nil => cases hk
  | cons first ks ih =>
      obtain ⟨hfirst, hothers⟩ := List.pairwise_cons.1 hks
      obtain ⟨hleast, hsorted⟩ := List.pairwise_cons.1 hrank
      rcases List.mem_cons.1 hk with rfl | hlater
      · rcases List.mem_cons.1 hk' with rfl | hlater'
        -- Both are the first note, so their ranks are equal.
        · exact absurd hlt (Nat.lt_irrefl _)
        · exact hfirst k' hlater'
      · rcases List.mem_cons.1 hk' with rfl | hlater'
        -- The note of the higher rank would stand in front, against the order of ranks.
        · exact absurd (hleast k hlater) (Nat.not_le.2 hlt)
        · exact ih hothers hsorted hlater hlater'

end GeneratedKeys
