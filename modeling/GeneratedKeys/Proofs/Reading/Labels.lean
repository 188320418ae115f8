import GeneratedKeys.Proofs.Reading.Stalls

/-!
# `GeneratedKeys.Proofs.Reading.Labels`: which parts a rule keeps

What is known of a statement is known from the notes that were kept on the way. The label of a
note says what it is about, and which labels a rule can keep, and which it always keeps when it
is read to its end, is read off the rule as data.

* `Retains.label_mem`: a rule keeps only notes with its labels, also if it stalls.
* `Reads.exists_label`: a rule that is read to its end keeps what it surely keeps.
* `listed_partsOf`, `table_partsOf`, `defaults_partsOf`, `exists_type_label`: what the notes
  say of the parts.
-/

set_option autoImplicit false

namespace GeneratedKeys

open Move

/-- What a note is about. It is the note without its moves, so it can be told from the rule alone.
-/
inductive Label where
  | part (p : Part)
  | type (t : StatementType)
  | defaults
  deriving DecidableEq, Repr

/-- What the note is about, whatever was read for it. -/
def Note.label : Note → Label
  | part p _ => .part p
  | type t => .type t
  | defaults => .defaults

/-! ### Labels of rules -/

/-- What the notes of a rule can be about, in the order in which the rule makes them. A branch lists
those of both sides. -/
def Rule.labels : Rule → List Label
  | seq first second => first.labels ++ second.labels
  | branch _ yes no | foresee _ yes no => yes.labels ++ no.labels
  | repeatWhile _ body | together body => body.labels
  | record p body => body.labels ++ [.part p]
  | declare type => [.type type]
  | defaults => [.defaults]
  | _ => []

/-- Whether a rule that is read to its end has kept a note with the label. -/
def Rule.surely (l : Label) : Rule → Bool
  | seq first second => first.surely l || second.surely l
  | branch _ yes no | foresee _ yes no => yes.surely l && no.surely l
  | together body => body.surely l
  | record p body => l == .part p || body.surely l
  | declare type => l == .type type
  | defaults => l == .defaults
  | fail _ => true
  | _ => false

/-- The labels of notes that are kept one after the other are among those of both rules. -/
theorem label_mem_append {ks₁ ks₂ : List Note} {ls ls₁ ls₂ : List Label}
    (h₁ : ∀ k ∈ ks₁, k.label ∈ ls₁) (h₂ : ∀ k ∈ ks₂, k.label ∈ ls₂) (hls₁ : ls₁ ⊆ ls)
    (hls₂ : ls₂ ⊆ ls) : ∀ k ∈ ks₁ ++ ks₂, k.label ∈ ls := by
  intro k hk
  rcases List.mem_append.1 hk with hk | hk
  · exact hls₁ (h₁ k hk)
  · exact hls₂ (h₂ k hk)

/-- A rule keeps only notes with its labels. The induction is on the reading, and each constructor
follows the definition of the labels. -/
theorem Reads.label_mem {n : Nat} {r : Rule} {ts rest : List Token} {ms : List Move}
    {ks : List Note} (h : Reads n r ts ms ks rest) : ∀ k ∈ ks, k.label ∈ r.labels := by
  induction h with
  | seq _ _ ih₁ ih₂ =>
      exact label_mem_append ih₁ ih₂ (List.subset_append_left ..) (List.subset_append_right ..)
  | again _ _ _ ih₁ ih₂ =>
      exact label_mem_append ih₁ ih₂ (List.Subset.refl _) (List.Subset.refl _)
  | yes _ _ ih | foreseen _ _ ih =>
      intro k hk
      exact List.mem_append_left _ (ih k hk)
  | no _ _ ih | unforeseen _ _ ih =>
      intro k hk
      exact List.mem_append_right _ (ih k hk)
  | @value _ power _ _ _ _ _ ih =>
      -- Inside of a value nothing is kept by itself.
      have hnone : (Grammar.value power).labels = [] := rfl
      rwa [hnone] at ih
  | record _ ih =>
      refine label_mem_append ih ?_ (List.subset_append_left ..)
        (List.subset_append_right ..)
      intro k hk
      rw [List.mem_singleton.1 hk]
      exact List.mem_singleton_self _
  | together _ ih => exact ih
  | declare | defaults =>
      intro k hk
      rw [List.mem_singleton.1 hk]
      exact List.mem_singleton_self _
  | _ => exact fun k hk => absurd hk List.not_mem_nil

/-- A rule that stalls has kept only notes with its labels. What it read before it stalled is a
first part of what it may keep. -/
theorem Stalls.label_mem {n : Nat} {r : Rule} {ts rest : List Token} {ms : List Move}
    {ks : List Note} {reason : Reason} (h : Stalls n r ts ms ks rest reason) :
    ∀ k ∈ ks, k.label ∈ r.labels := by
  induction h with
  | first _ ih | yes _ _ ih | foreseen _ _ ih | record _ ih =>
      intro k hk
      exact List.mem_append_left _ (ih k hk)
  -- The first rule was read to its end, and its notes come first.
  | second h₁ _ ih =>
      exact label_mem_append h₁.label_mem ih (List.subset_append_left ..)
        (List.subset_append_right ..)
  | again _ h₁ _ ih =>
      exact label_mem_append h₁.label_mem ih (List.Subset.refl _) (List.Subset.refl _)
  | no _ _ ih | unforeseen _ _ ih =>
      intro k hk
      exact List.mem_append_right _ (ih k hk)
  | round _ _ ih => exact ih
  | @value _ power _ _ _ _ _ _ ih =>
      -- A value keeps nothing.
      have hnone : (Grammar.value power).labels = [] := rfl
      rwa [hnone] at ih
  | _ => exact fun k hk => absurd hk List.not_mem_nil

/-- A rule keeps only notes with its labels, also if it stalls. So the labels of a type bound what
is known of any statement of it. -/
theorem Retains.label_mem {n : Nat} {r : Rule} {ts : List Token} {ks : List Note}
    (h : Retains n r ts ks) : ∀ k ∈ ks, k.label ∈ r.labels := by
  cases h with
  | reads h => exact h.label_mem
  | stalls h => exact h.label_mem

/-- A rule without labels keeps nothing, as every note would have one of its labels. -/
theorem Retains.notes_eq_nil {n : Nat} {r : Rule} {ts : List Token} {ks : List Note}
    (h : Retains n r ts ks) (hr : r.labels = []) : ks = [] := by
  have hnone := h.label_mem
  rw [hr] at hnone
  exact List.eq_nil_iff_forall_not_mem.2 fun k hk => List.not_mem_nil (hnone k hk)

/-- A rule that is read to its end keeps what it surely keeps. Of a branch that is what both sides
keep. -/
theorem Reads.exists_label {n : Nat} {r : Rule} {ts rest : List Token} {ms : List Move}
    {ks : List Note} (h : Reads n r ts ms ks rest) {l : Label} (hr : r.surely l = true) :
    ∃ k ∈ ks, k.label = l := by
  induction h with
  | seq _ _ ih₁ ih₂ =>
      simp only [Rule.surely, Bool.or_eq_true] at hr
      -- One of the two rules surely keeps it, and the notes of both are kept.
      rcases hr with hr | hr
      · obtain ⟨k, hk, hl⟩ := ih₁ hr
        exact ⟨k, List.mem_append_left _ hk, hl⟩
      · obtain ⟨k, hk, hl⟩ := ih₂ hr
        exact ⟨k, List.mem_append_right _ hk, hl⟩
  | yes _ _ ih | foreseen _ _ ih =>
      simp only [Rule.surely, Bool.and_eq_true] at hr
      -- Whichever rule is chosen, both surely keep it.
      exact ih hr.1
  | no _ _ ih | unforeseen _ _ ih =>
      simp only [Rule.surely, Bool.and_eq_true] at hr
      exact ih hr.2
  | record _ ih =>
      simp only [Rule.surely, Bool.or_eq_true, beq_iff_eq] at hr
      rcases hr with rfl | hr
      · exact ⟨_, List.mem_append_right _ (List.mem_singleton_self _), rfl⟩
      · obtain ⟨k, hk, hl⟩ := ih hr
        exact ⟨k, List.mem_append_left _ hk, hl⟩
  | together _ ih => exact ih hr
  | declare | defaults =>
      simp only [Rule.surely, beq_iff_eq] at hr
      exact ⟨_, List.mem_singleton_self _, hr.symm⟩
  | _ => cases hr

/-! ### What the notes say of the parts -/

variable {t : Text} {ks : List Note}

/-- Without a note that is about a kind of part no part of the kind is kept. -/
theorem filterMap_kept_eq_nil {α : Type} (f : List Move → α) {p : Part}
    (h : ∀ k ∈ ks, k.label ≠ .part p) : ks.filterMap (Note.kept? f p) = [] := by
  rw [List.filterMap_eq_nil_iff]
  intro k hk
  cases k with
  | part q ms =>
      have hq : q ≠ p := fun hq => h _ hk (congrArg Label.part hq)
      rw [Note.kept?, if_neg hq]
  | type | defaults => rfl

/-- Without a note about parts of the kind there is no text of such a part. -/
theorem filterMap_text_eq_nil {p : Part} (h : ∀ k ∈ ks, k.label ≠ .part p) :
    ks.filterMap (Note.text? t p) = [] := by
  rw [Note.text?_eq]
  exact filterMap_kept_eq_nil _ h

/-- With a note about a part of the kind there is a text of one. -/
theorem filterMap_text_ne_nil {p : Part} (h : ∃ k ∈ ks, k.label = .part p) :
    ks.filterMap (Note.text? t p) ≠ [] := by
  obtain ⟨k, hk, hl⟩ := h
  cases k with
  | part q ms =>
      cases hl
      intro hnil
      have hnone := List.filterMap_eq_nil_iff.1 hnil _ hk
      rw [Note.text?, if_pos rfl] at hnone
      cases hnone
  | type | defaults => cases hl

/-- What a note with the label brings about, and no note undoes, holds in the end. -/
theorem foldl_of_label {l : Label} {P : Statement Text → Prop}
    (keep : ∀ (s : Statement Text) (k : Note), P s → P (k.applyText t s))
    (bring : ∀ (s : Statement Text) (k : Note), k.label = l → P (k.applyText t s))
    (h : ∃ k ∈ ks, k.label = l) (s : Statement Text) : P (ks.foldl (Note.applyText t) s) := by
  -- It holds from the first such note on.
  have kept : ∀ (ks : List Note) (s : Statement Text), P s → P (ks.foldl (Note.applyText t) s) := by
    intro ks
    induction ks with
    | nil => exact fun s hs => hs
    | cons k ks ih => exact fun s hs => ih _ (keep s k hs)
  induction ks generalizing s with
  | nil =>
      obtain ⟨k, hk, -⟩ := h
      cases hk
  | cons k ks ih =>
      rw [List.foldl_cons]
      obtain ⟨k', hk', hl⟩ := h
      rcases List.mem_cons.1 hk' with rfl | hk'
      · exact kept ks _ (bring s k' hl)
      · exact ih ⟨k', hk', hl⟩ _

/-- A table that was kept stays known, though another one may replace it. -/
theorem table_foldl (h : ∃ k ∈ ks, k.label = .part .table) (s : Statement Text) :
    (ks.foldl (Note.applyText t) s).table?.isSome = true := by
  refine foldl_of_label (P := fun s => s.table?.isSome = true) ?keep ?bring h s
  -- No note takes the table away.
  case keep =>
    intro s k hs
    cases k with
    | part p ms => cases p <;> first | exact hs | rfl
    | type | defaults => exact hs
  -- A note of a table makes it known.
  case bring =>
    intro s k hl
    cases k with
    | part p ms =>
        cases hl
        rfl
    | type | defaults => cases hl

/-- A type that was settled stays settled, since a later note could only settle another one. -/
theorem isSome_type_foldl {type : StatementType} (h : ∃ k ∈ ks, k.label = .type type)
    (s : Statement Text) : (ks.foldl (Note.applyText t) s).type?.isSome = true := by
  refine foldl_of_label (P := fun s => s.type?.isSome = true) ?keep ?bring h s
  case keep =>
    intro s k hs
    cases k with
    | part p ms => cases p <;> exact hs
    | type => rfl
    | defaults => exact hs
  case bring =>
    intro s k hl
    cases k with
    | type => rfl
    | part | defaults => cases hl

/-- Default values are inserted exactly if a note says so, or the statement that one starts from
says so already. -/
theorem defaults_foldl (s : Statement Text) :
    (ks.foldl (Note.applyText t) s).defaultValues = true ↔
      s.defaultValues = true ∨ ∃ k ∈ ks, k.label = .defaults := by
  induction ks generalizing s with
  | nil => simp
  | cons k ks ih =>
      rw [List.foldl_cons, ih]
      cases k with
      | part p ms => cases p <;> simp [Note.applyText, Statement.record, Note.label]
      | type => simp [Note.applyText, Statement.ofType, Note.label]
      | defaults => simp [Note.applyText, Statement.withDefaultValues, Note.label]

/-- A type that is known was noted, or it was known before. -/
theorem type_foldl {type : StatementType} {s : Statement Text}
    (h : (ks.foldl (Note.applyText t) s).type? = some type) :
    s.type? = some type ∨ ∃ k ∈ ks, k.label = .type type := by
  induction ks generalizing s with
  | nil => exact .inl h
  | cons k ks ih =>
      rcases ih h with hs | ⟨k', hk', hl⟩
      · cases k with
        | part p ms => cases p <;> exact .inl hs
        | type found =>
            cases hs
            exact .inr ⟨_, List.mem_cons_self .., rfl⟩
        | defaults => exact .inl hs
      · exact .inr ⟨k', List.mem_cons_of_mem _ hk', hl⟩

/-- A statement with a note of its table has a table. A later note could only put another one in its
place. -/
theorem table_partsOf (h : ∃ k ∈ ks, k.label = .part .table) :
    (partsOf t ks).table?.isSome = true := by
  rw [partsOf_eq_foldl]
  exact table_foldl h _

/-- A statement with a note of its type has a type, whatever other notes it has. -/
theorem isSome_type_partsOf {type : StatementType} (h : ∃ k ∈ ks, k.label = .type type) :
    (partsOf t ks).type?.isSome = true := by
  rw [partsOf_eq_foldl]
  exact isSome_type_foldl h _

/-- A statement inserts default values exactly if a note says so. No other note touches this field.
-/
theorem defaults_partsOf :
    (partsOf t ks).defaultValues = true ↔ ∃ k ∈ ks, k.label = .defaults := by
  rw [partsOf_eq_foldl, defaults_foldl]
  exact or_iff_right Bool.false_ne_true

/-- The type of a statement is the one that a note says, so a type that is known was settled at the
end of a rule. -/
theorem exists_type_label {type : StatementType} (h : (partsOf t ks).type? = some type) :
    ∃ k ∈ ks, k.label = .type type := by
  rw [partsOf_eq_foldl] at h
  exact (type_foldl h).resolve_left fun hnone => by cases hnone

end GeneratedKeys
