import GeneratedKeys.Proofs.Reading.Reads

/-!
# `GeneratedKeys.Proofs.Reading.Kept`: what is kept of a statement

The notes of a reading are its parts, and every part is a stretch of the moves that were
made. Which rules make no repair, and which parts are made of them, is checked on the rules
as data.

* `Reads.clean_of_repairless`: a rule without wanted tokens repairs nothing.
* `Reads.body_of_mem`: a part is what a rule that is recorded as its kind has read.
* `Reads.part_not_mem`: parts of a kind that the rule does not keep.
* `Reads.part_of_mem`: a part is a stretch of the moves, and only a value is kept with
  repairs inside.
* `statement_tidy`: every statement is such a rule.
-/

set_option autoImplicit false

namespace GeneratedKeys

open Move

/-- Whether no token is wanted by the rule, so that none is repaired. Such a rule passes each of its
tokens as it stands. -/
def Rule.repairless : Rule → Bool
  | seq first second => first.repairless && second.repairless
  | expect _ | value _ | foresee _ _ _ => false
  | branch _ yes no => yes.repairless && no.repairless
  | repeatWhile _ body | record _ body | together body => body.repairless
  | _ => true

/-- A rule that wants no token makes no repair, and its notes are those of the repaired statement.
-/
theorem Reads.clean_of_repairless {n : Nat} {r : Rule} {ts rest : List Token} {ms : List Move}
    {ks : List Note} (h : Reads n r ts ms ks rest) (hr : r.repairless = true) :
    Clean ms ∧ ks.map Note.mended = ks := by
  induction h with
  | seq _ _ ih₁ ih₂ =>
      simp only [Rule.repairless, Bool.and_eq_true] at hr
      obtain ⟨hclean₁, hnotes₁⟩ := ih₁ hr.1
      obtain ⟨hclean₂, hnotes₂⟩ := ih₂ hr.2
      exact ⟨clean_append.2 ⟨hclean₁, hclean₂⟩, by rw [List.map_append, hnotes₁, hnotes₂]⟩
  | again _ _ _ ih₁ ih₂ =>
      obtain ⟨hclean₁, hnotes₁⟩ := ih₁ hr
      obtain ⟨hclean₂, hnotes₂⟩ := ih₂ hr
      exact ⟨clean_append.2 ⟨hclean₁, hclean₂⟩, by rw [List.map_append, hnotes₁, hnotes₂]⟩
  | @take _ t => exact ⟨clean_map_pass [t], rfl⟩
  | yes _ _ ih =>
      simp only [Rule.repairless, Bool.and_eq_true] at hr
      exact ih hr.1
  | no _ _ ih =>
      simp only [Rule.repairless, Bool.and_eq_true] at hr
      exact ih hr.2
  | skip => exact ⟨clean_map_pass _, rfl⟩
  | record _ ih =>
      obtain ⟨hclean, hnotes⟩ := ih hr
      -- The moves of the part repair nothing, so they are their own mended form.
      refine ⟨hclean, ?_⟩
      rw [List.map_append, hnotes, List.map_singleton, Note.mended, hclean.mended_eq_self]
  | together _ ih => exact ih hr
  | empty | stop | declare | defaults | finish => exact ⟨clean_nil, rfl⟩
  | _ => simp [Rule.repairless] at hr

/-- Whether nothing is kept by the rule: no part, no type and no note about default values. -/
def Rule.noteless : Rule → Bool
  | seq first second => first.noteless && second.noteless
  | branch _ yes no | foresee _ yes no => yes.noteless && no.noteless
  | repeatWhile _ body | together body => body.noteless
  | record _ _ | declare _ | defaults => false
  | _ => true

/-- A rule that keeps nothing has no notes, whatever it passes or repairs. -/
theorem Reads.notes_eq_nil {n : Nat} {r : Rule} {ts rest : List Token} {ms : List Move}
    {ks : List Note} (h : Reads n r ts ms ks rest) (hr : r.noteless = true) : ks = [] := by
  induction h with
  | seq _ _ ih₁ ih₂ =>
      simp only [Rule.noteless, Bool.and_eq_true] at hr
      rw [ih₁ hr.1, ih₂ hr.2]
      rfl
  | again _ _ _ ih₁ ih₂ =>
      rw [ih₁ hr, ih₂ hr]
      rfl
  | yes _ _ ih | foreseen _ _ ih =>
      simp only [Rule.noteless, Bool.and_eq_true] at hr
      exact ih hr.1
  | no _ _ ih | unforeseen _ _ ih =>
      simp only [Rule.noteless, Bool.and_eq_true] at hr
      exact ih hr.2
  -- The rules for values keep nothing, whatever their power.
  | value _ ih => exact ih rfl
  | together _ ih => exact ih hr
  | record | declare | defaults => simp [Rule.noteless] at hr
  | _ => rfl

/-- What is kept as parts of the kind, as the rules inside. What holds of all parts of the kind is
proved of these rules. -/
def Rule.bodies (p : Part) : Rule → List Rule
  | seq first second => first.bodies p ++ second.bodies p
  | branch _ yes no | foresee _ yes no => yes.bodies p ++ no.bodies p
  | repeatWhile _ body | together body => body.bodies p
  | record part body => if part = p then body :: body.bodies p else body.bodies p
  | _ => []

/-- A part is what one of these rules has read. What every such rule passes therefore holds of every
part of the kind. -/
theorem Reads.body_of_mem {n : Nat} {r : Rule} {ts rest : List Token} {ms : List Move}
    {ks : List Note} (h : Reads n r ts ms ks rest) {p : Part} {run : List Move}
    (hpart : Note.part p run ∈ ks) :
    ∃ body ∈ r.bodies p, ∃ front ks' behind, Reads n body front run ks' behind := by
  induction h with
  | seq _ _ ih₁ ih₂ =>
      rcases List.mem_append.1 hpart with hpart | hpart
      · obtain ⟨body, hbody, hread⟩ := ih₁ hpart
        exact ⟨body, List.mem_append_left _ hbody, hread⟩
      · obtain ⟨body, hbody, hread⟩ := ih₂ hpart
        exact ⟨body, List.mem_append_right _ hbody, hread⟩
  | again _ _ _ ih₁ ih₂ => exact (List.mem_append.1 hpart).elim ih₁ ih₂
  | yes _ _ ih | foreseen _ _ ih =>
      obtain ⟨body, hbody, hread⟩ := ih hpart
      exact ⟨body, List.mem_append_left _ hbody, hread⟩
  | no _ _ ih | unforeseen _ _ ih =>
      obtain ⟨body, hbody, hread⟩ := ih hpart
      exact ⟨body, List.mem_append_right _ hbody, hread⟩
  | value hvalue =>
      -- Inside of a value nothing is kept by itself.
      rw [hvalue.notes_eq_nil rfl] at hpart
      cases hpart
  | @record _ part body _ _ _ _ hbody ih =>
      rw [Rule.bodies]
      rcases List.mem_append.1 hpart with hpart | hpart
      · obtain ⟨inner, hinner, hread⟩ := ih hpart
        refine ⟨inner, ?_, hread⟩
        split
        · exact List.mem_cons_of_mem _ hinner
        · exact hinner
      · obtain ⟨rfl, rfl⟩ := Note.part.inj (List.mem_singleton.1 hpart)
        rw [if_pos rfl]
        exact ⟨body, List.mem_cons_self .., _, _, _, hbody⟩
  | together _ ih => exact ih hpart
  | declare | defaults => simp at hpart
  | _ => cases hpart

/-- Whether the rule keeps parts of the kind, anywhere inside it. -/
def Rule.records (p : Part) : Rule → Bool
  | seq first second => first.records p || second.records p
  | branch _ yes no | foresee _ yes no => yes.records p || no.records p
  | repeatWhile _ body | together body => body.records p
  | record part body => part == p || body.records p
  | _ => false

/-- A rule that keeps no part of the kind has no rule for such a part in it. -/
theorem Rule.bodies_eq_nil {p : Part} {r : Rule} (h : r.records p = false) : r.bodies p = [] := by
  induction r with
  | seq first second ih₁ ih₂ | branch _ first second ih₁ ih₂ =>
      simp only [records, Bool.or_eq_false_iff] at h
      rw [bodies, ih₁ h.1, ih₂ h.2]
      rfl
  | foresee _ yes no _ ih₁ ih₂ =>
      simp only [records, Bool.or_eq_false_iff] at h
      rw [bodies, ih₁ h.1, ih₂ h.2]
      rfl
  | repeatWhile _ _ ih | together _ ih => exact ih h
  | record _ _ ih =>
      simp only [records, Bool.or_eq_false_iff, beq_eq_false_iff_ne] at h
      -- The part that is kept here is of another kind.
      rw [bodies, if_neg h.1, ih h.2]
  | _ => rfl

/-- A rule that keeps no part of the kind has no note of one, so a list of parts can only grow where
its rule is read. -/
theorem Reads.part_not_mem {n : Nat} {r : Rule} {ts rest : List Token} {ms : List Move}
    {ks : List Note} (h : Reads n r ts ms ks rest) {part : Part} (hr : r.records part = false)
    (kept : List Move) : Note.part part kept ∉ ks := by
  intro hpart
  obtain ⟨body, hbody, -⟩ := h.body_of_mem hpart
  rw [Rule.bodies_eq_nil hr] at hbody
  cases hbody

/-- Whether only values are kept with repairs inside. The text of any other part is then the same in
the repaired statement. -/
def Rule.tidy : Rule → Bool
  | seq first second => first.tidy && second.tidy
  | branch _ yes no | foresee _ yes no => yes.tidy && no.tidy
  | repeatWhile _ body | together body => body.tidy
  | record part body => (part == .value || body.repairless) && body.tidy
  | _ => true

/-- A part is a stretch of the moves, and only a value is kept with repairs inside. -/
theorem Reads.part_of_mem {n : Nat} {r : Rule} {ts rest : List Token} {ms : List Move}
    {ks : List Note} (h : Reads n r ts ms ks rest) (hr : r.tidy = true) {part : Part}
    {kept : List Move} (hpart : Note.part part kept ∈ ks) :
    kept <:+: ms ∧ (part ≠ .value → Clean kept) := by
  induction h with
  | seq _ _ ih₁ ih₂ =>
      simp only [Rule.tidy, Bool.and_eq_true] at hr
      rcases List.mem_append.1 hpart with hpart | hpart
      · obtain ⟨hstretch, hclean⟩ := ih₁ hr.1 hpart
        exact ⟨hstretch.trans (List.prefix_append ..).isInfix, hclean⟩
      · obtain ⟨hstretch, hclean⟩ := ih₂ hr.2 hpart
        exact ⟨hstretch.trans (List.suffix_append ..).isInfix, hclean⟩
  | again _ _ _ ih₁ ih₂ =>
      rcases List.mem_append.1 hpart with hpart | hpart
      · obtain ⟨hstretch, hclean⟩ := ih₁ hr hpart
        exact ⟨hstretch.trans (List.prefix_append ..).isInfix, hclean⟩
      · obtain ⟨hstretch, hclean⟩ := ih₂ hr hpart
        exact ⟨hstretch.trans (List.suffix_append ..).isInfix, hclean⟩
  | yes _ _ ih | foreseen _ _ ih =>
      simp only [Rule.tidy, Bool.and_eq_true] at hr
      exact ih hr.1 hpart
  | no _ _ ih | unforeseen _ _ ih =>
      simp only [Rule.tidy, Bool.and_eq_true] at hr
      exact ih hr.2 hpart
  | value hvalue =>
      -- Inside of a value nothing is kept by itself.
      rw [hvalue.notes_eq_nil rfl] at hpart
      cases hpart
  | record hbody ih =>
      simp only [Rule.tidy, Bool.and_eq_true, Bool.or_eq_true, beq_iff_eq] at hr
      rcases List.mem_append.1 hpart with hpart | hpart
      · exact ih hr.2 hpart
      · obtain ⟨rfl, rfl⟩ := Note.part.inj (List.mem_singleton.1 hpart)
        -- A tidy rule keeps only what it reads without wanted tokens, values apart.
        refine ⟨List.infix_refl _, fun hvalue => ?_⟩
        exact (hbody.clean_of_repairless (hr.1.resolve_left hvalue)).1
  | together _ ih => exact ih hr hpart
  | declare | defaults => simp at hpart
  | _ => cases hpart

/-- Notes of a reading without repairs stay as they are, since there is nothing in them to be
mended. -/
theorem Reads.notes_mended {n : Nat} {r : Rule} {ts rest : List Token} {ms : List Move}
    {ks : List Note} (h : Reads n r ts ms ks rest) (hr : r.tidy = true) (hclean : Clean ms) :
    ks.map Note.mended = ks := by
  have hself : ∀ k ∈ ks, k.mended = id k := by
    intro k hk
    cases k with
    | part p run =>
        obtain ⟨hrun, -⟩ := h.part_of_mem hr hk
        exact congrArg (Note.part p) (hclean.of_infix hrun).mended_eq_self
    | type | defaults => rfl
  rw [List.map_congr_left hself, List.map_id]

/-- In every statement a part other than a value is kept without repairs inside. Tables, columns and
what is returned are made of tests, not of wanted tokens. -/
theorem statement_tidy (type : StatementType) : (Grammar.statement type).tidy = true := by
  cases type <;> rfl

end GeneratedKeys
