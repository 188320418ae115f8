import GeneratedKeys.Proofs.Reading.Labels
import GeneratedKeys.Proofs.Statement.Clauses

/-!
# `GeneratedKeys.Proofs.Statement.Shape`: the parts that a statement of a type has

A statement with problems may be known in part only. Still its parts fit together: the type is
settled behind everything that it stands for, and an assignment is kept as a whole or not at all.
So the parts are those of some statement of the type, however the reading ended.

* `parse_shape`: what is known of a statement of a type, and the assignments of an UPDATE, of any
  parse that reports anything.
* `assigned_of_update`: the columns and the values of an UPDATE come in pairs, wherever reading
  it stops.
-/

set_option autoImplicit false

namespace GeneratedKeys

open Rule Grammar Move

/-! ### The statements that are meant -/

/-- The type that the first tokens of a statement announce. One token decides, or two where the
first one is UPDATE. -/
inductive Announces : List Token → StatementType → Prop where
  | insert {t : Token} {ts : List Token} :
      t.kind = .keyword .insert → Announces (t :: ts) .insert
  | delete {t : Token} {ts : List Token} :
      t.kind = .keyword .delete → Announces (t :: ts) .delete
  | update {t : Token} {ts : List Token} :
      t.kind = .keyword .update → (∀ u : Token, ts.head? = some u → u.kind ≠ .keyword .or) →
        Announces (t :: ts) .update
  | updateOrInsert {t u : Token} {ts : List Token} :
      t.kind = .keyword .update → u.kind = .keyword .or →
        Announces (t :: u :: ts) .updateOrInsert

/-- A column and the value that is assigned to it, each by its tokens. -/
structure Assignment where
  column : List Token
  value : List Token

/-- `column = value`, with a stray token in front of the equals sign or none. The value has a token
at least. -/
inductive AssignmentAt : List Token → Assignment → List Token → Prop where
  | plain {ts column value rest : List Token} {eq : Token} :
      Column ts column (eq :: (value ++ rest)) → eq.kind = .eq → value ≠ [] →
        AssignmentAt ts ⟨column, value⟩ rest
  | stray {ts column value rest : List Token} {other eq : Token} :
      Column ts column (other :: eq :: (value ++ rest)) → eq.kind = .eq → value ≠ [] →
        AssignmentAt ts ⟨column, value⟩ rest

/-- Assignments with commas between. A comma may stand behind the last one, as when the statement
breaks off there. -/
inductive Assignments : List Token → List Assignment → List Token → Prop where
  | none {ts : List Token} : Assignments ts [] ts
  | last {ts rest : List Token} {a : Assignment} :
      AssignmentAt ts a rest → Assignments ts [a] rest
  | more {ts mid rest : List Token} {a : Assignment} {as : List Assignment} {comma : Token} :
      AssignmentAt ts a (comma :: mid) → comma.kind = .comma → Assignments mid as rest →
        Assignments ts (a :: as) rest

/-- What is known of a statement of a type that consists of the tokens: which lists may be empty,
and which are. -/
def Statement.HasShape {α : Type} (ts : List Token) (s : Statement α) : StatementType → Prop
  | .insert =>
    (s.defaultValues = true ∧ s.values = []) ∨ (s.defaultValues = false ∧ s.values ≠ []) ∨
      (s.defaultValues = false ∧ s.values = [] ∧ ∃ t ∈ ts, t.kind = .keyword .select)
  | .delete => s.columns = [] ∧ s.values = [] ∧ s.defaultValues = false
  | .update => s.columns ≠ [] ∧ s.defaultValues = false
  | .updateOrInsert => s.values ≠ [] ∧ s.defaultValues = false

/-- The type that is computed from the first tokens is the one that they announce. -/
theorem announces_of_announced {ts : List Token} {type : StatementType}
    (h : announced ts = .ok type) : Announces ts type := by
  cases ts with
  | nil => cases h
  | cons t ts =>
      rw [announced] at h
      split at h
      · next ht =>
        cases h
        exact .insert ht
      · next ht =>
        cases h
        exact .delete ht
      · next ht =>
        split at h
        · next hp =>
          cases h
          obtain ⟨u, us, rfl, hu⟩ := State.passes_one_iff.1 hp
          exact .updateOrInsert ht (isWord_iff.1 hu)
        · next hp =>
          cases h
          -- The test for OR failed, so the second token, if there is one, is another.
          refine .update ht ?_
          intro u hu hor
          obtain ⟨us, rfl⟩ : ∃ us, ts = u :: us := by
            cases ts with
            | nil => cases hu
            | cons v us =>
                cases hu
                exact ⟨us, rfl⟩
          exact hp (passes_isWord hor us)
      · cases h

/-- Both words announce an UPDATE OR INSERT, and nothing else does, so the two types that begin with
UPDATE are told apart. -/
theorem Announces.updateOrInsert_iff {ts : List Token} {type : StatementType}
    (h : Announces ts type) :
    type = .updateOrInsert ↔ ∃ t u us, ts = t :: u :: us ∧ t.kind = .keyword .update ∧
      u.kind = .keyword .or := by
  constructor
  · rintro rfl
    cases h with
    | updateOrInsert ht hu => exact ⟨_, _, _, rfl, ht, hu⟩
  · rintro ⟨t, u, us, rfl, ht, hu⟩
    cases h with
    | insert ht' => cases ht.symm.trans ht'
    | delete ht' => cases ht.symm.trans ht'
    | update _ hor => exact absurd hu (hor u rfl)
    | updateOrInsert => rfl

/-- A statement that begins with UPDATE without OR is announced as an UPDATE. -/
theorem Announces.eq_update {t : Token} {ts : List Token} {type : StatementType}
    (h : Announces (t :: ts) type) (ht : t.kind = .keyword .update)
    (hor : ∀ u : Token, ts.head? = some u → u.kind ≠ .keyword .or) : type = .update := by
  cases h with
  | insert ht' => cases ht.symm.trans ht'
  | delete ht' => cases ht.symm.trans ht'
  | update => rfl
  | updateOrInsert _ hu => exact absurd hu (hor _ rfl)

variable {n : Nat} {ts rest : List Token} {ks : List Note}

/-! ### Assignments -/

/-- The notes that are kept of an assignment, by the moves of its column and of its value. -/
def assignmentNotes (run : List Move × List Move) : List Note :=
  [.part .column run.1, .part .value run.2]

/-- The tokens of an assignment, by the moves of its column and of its value. Stray tokens that were
dropped belong to it. -/
def assignmentOf (run : List Move × List Move) : Assignment :=
  ⟨consumed run.1, consumed run.2⟩

/-- A part that is recorded is noted with the moves that are made. -/
theorem reads_recorded {p : Part} {body : Rule} {ms : List Move} (hbody : body.noteless = true)
    (h : Reads n (.record p body) ts ms ks rest) :
    Reads n body ts ms [] rest ∧ ks = [.part p ms] := by
  cases h with
  | record hread =>
      obtain rfl := hread.notes_eq_nil hbody
      exact ⟨hread, rfl⟩

/-- The column of an assignment, with nothing repaired inside, as no token is wanted in it. -/
theorem column_of_reads {ms : List Move} (h : Reads n column ts ms [] rest) :
    Column ts (consumed ms) rest := by
  have hclean := (h.clean_of_repairless rfl).1
  obtain ⟨w, hw⟩ := column_of_passes ⟨ms, [], h, hclean⟩
  have hsame : consumed ms = w :=
    List.append_cancel_right (h.consumed_append.trans hw.append_eq.symm)
  rwa [hsame]

/-- An assignment that is read keeps its column and its value, in this order and nothing else. -/
theorem reads_assignment {ms : List Move} (h : Reads n assignment ts ms ks rest) :
    ∃ run, AssignmentAt ts (assignmentOf run) rest ∧ ks = assignmentNotes run := by
  cases h with
  | together h =>
    cases h with
    | @seq _ _ _ _ mid _ target others ks₁ ks₂ htarget hothers =>
      -- The column comes first, then the equals sign with or without a stray token, then the value.
      obtain ⟨hcolumn, rfl⟩ := reads_recorded rfl htarget
      have hcolumn := column_of_reads hcolumn
      cases hothers with
      | @seq _ _ _ _ mid' _ _ source ks₃ ks₄ heq hsource =>
        obtain ⟨hvalue, rfl⟩ := reads_recorded rfl hsource
        -- A value has a token, as its rule is not idle.
        have hne : consumed source ≠ [] := hvalue.consumed_ne_nil rfl
        refine ⟨(target, source), ?_, ?_⟩
        · rw [← hvalue.consumed_append] at heq
          cases heq with
          | expect hk => exact .plain hcolumn ((TokenKind.sameClass_iff rfl).1 hk) hne
          | dropped _ hk => exact .stray hcolumn ((TokenKind.sameClass_iff rfl).1 hk) hne
        · cases heq <;> rfl

/-- An assignment that stalls is not kept, neither its column nor its value, as the two are kept
together. -/
theorem notes_of_stalls_assignment {ms : List Move} {reason : Reason}
    (h : Stalls n assignment ts ms ks rest reason) : ks = [] := by
  cases h with
  | together => rfl

/-- The notes are those of assignments that the tokens begin with, in their order and with nothing
between them. -/
def NotesAssignments (ts : List Token) (ks : List Note) : Prop :=
  ∃ (runs : List (List Move × List Move)) (rest : List Token),
    Assignments ts (runs.map assignmentOf) rest ∧ ks = runs.flatMap assignmentNotes

/-- The assignments behind a first one, as far as they were read. The induction is on the
repetition, and carries the assignment in front of it. -/
theorem retains_further (h : Retains n (.repeatWhile (isA .comma) (.seq .take assignment)) ts ks) :
    ∀ {front : List Token} {run : List Move × List Move}, AssignmentAt front (assignmentOf run) ts →
      NotesAssignments front (assignmentNotes run ++ ks) := by
  refine Retains.repeatWhile_induction (motive := fun ts ks =>
    ∀ {front : List Token} {run : List Move × List Move}, AssignmentAt front (assignmentOf run) ts →
      NotesAssignments front (assignmentNotes run ++ ks)) ?stop ?round ?again h
  case stop =>
    intro ts front run hrun
    exact ⟨[run], ts, .last hrun, rfl⟩
  -- A round that stalls has passed the comma, and its assignment is not kept.
  case round =>
    intro ts ms ks rest reason hround front run hrun
    cases hround with
    | first htake => cases htake
    | second htake hstalls =>
        cases htake
        rw [notes_of_stalls_assignment hstalls]
        exact ⟨[run], _, .last hrun, rfl⟩
  -- A round that is read adds its assignment, and the others follow.
  case again =>
    intro ts mid ms ks₁ ks₂ hp hround ih front run hrun
    cases hround with
    | seq htake hassignment =>
        cases htake
        rw [State.passes_one_cons, isA_iff rfl] at hp
        obtain ⟨next, hnext, rfl⟩ := reads_assignment hassignment
        obtain ⟨runs, rest, hruns, hks⟩ := ih hnext
        exact ⟨run :: runs, rest, .more hrun hp hruns, congrArg (assignmentNotes run ++ ·) hks⟩

/-- Every assignment that is kept is kept with its column and its value. -/
theorem retains_assignments (h : Retains n (separated assignment) ts ks) :
    NotesAssignments ts ks := by
  rcases h.seq_cases with ⟨ms, rest, reason, hstalls⟩ | ⟨ms, mid, ks₁, ks₂, hfirst, hothers, rfl⟩
  · rw [notes_of_stalls_assignment hstalls]
    exact ⟨[], ts, .none, rfl⟩
  · obtain ⟨run, hrun, rfl⟩ := reads_assignment hfirst
    exact retains_further hothers hrun

/-! ### The columns and the values of an UPDATE -/

/-- Whether a note with the label is neither a column nor a value. Such notes do not disturb the
pairing of the two. -/
def Label.isAside : Label → Bool
  | .part .column | .part .value => false
  | _ => true

/-- There are neither columns nor values among the notes, so they can stand anywhere between
assignments. -/
def Aside (ks : List Note) : Prop :=
  ∀ k ∈ ks, k.label.isAside = true

/-- A rule that keeps neither columns nor values has none among its notes. -/
theorem Retains.aside {r : Rule} (h : Retains n r ts ks)
    (hr : r.labels.all Label.isAside = true) : Aside ks := by
  intro k hk
  exact List.all_eq_true.1 hr _ (h.label_mem k hk)

/-- Nothing of columns or values is found among such notes, whatever is made of them. -/
theorem Aside.filterMap_eq_nil {α : Type} (h : Aside ks) (f : List Move → α) {p : Part}
    (hp : p = .column ∨ p = .value) : ks.filterMap (Note.kept? f p) = [] := by
  apply filterMap_kept_eq_nil
  intro k hk hl
  have haside := h k hk
  rw [hl] at haside
  rcases hp with rfl | rfl <;> cases haside

/-- Of columns and values those are kept that stand between other notes, which may be in front and
behind. -/
theorem Aside.filterMap_between {α : Type} {kt ka kr : List Note} (hkt : Aside kt)
    (hkr : Aside kr) (f : List Move → α) {p : Part} (hp : p = .column ∨ p = .value) :
    ((kt ++ ka) ++ kr).filterMap (Note.kept? f p) = ka.filterMap (Note.kept? f p) := by
  rw [List.filterMap_append, List.filterMap_append, hkt.filterMap_eq_nil f hp,
    hkr.filterMap_eq_nil f hp, List.append_nil, List.nil_append]

/-- The columns and the values among the notes are those of assignments that lie in the tokens
one behind the other. -/
def Assigned (ts : List Token) (ks : List Note) : Prop :=
  ∃ (front ts' : List Token) (kt ka kr : List Note), ts = front ++ ts' ∧ NotesAssignments ts' ka ∧
    ks = (kt ++ ka) ++ kr ∧ Aside kt ∧ Aside kr

/-- No notes are such notes, as there is none to look at. -/
theorem aside_nil : Aside [] :=
  fun _ hk => absurd hk List.not_mem_nil

/-- Such notes are those of no assignments, so they keep the pairing of columns and values. -/
theorem Aside.assigned (h : Aside ks) (ts : List Token) : Assigned ts ks :=
  ⟨[], ts, ks, [], [], rfl, ⟨[], ts, .none, rfl⟩, by simp, h, aside_nil⟩

/-- Such notes behind such notes are such notes, so they can be collected rule by rule. -/
theorem aside_append {ks₁ ks₂ : List Note} (h₁ : Aside ks₁) (h₂ : Aside ks₂) :
    Aside (ks₁ ++ ks₂) := by
  intro k hk
  rcases List.mem_append.1 hk with hk | hk
  · exact h₁ k hk
  · exact h₂ k hk

/-- A rule that keeps neither columns nor values, in front of assignments. If it stalls, there are
no assignments. -/
theorem assigned_behind {first second : Rule} (h : Retains n (.seq first second) ts ks)
    (hfirst : first.labels.all Label.isAside = true)
    (hsecond : ∀ (mid : List Token) (ks : List Note), Retains n second mid ks → Assigned mid ks) :
    Assigned ts ks := by
  rcases h.seq_cases with ⟨ms, rest, reason, hstalls⟩ | ⟨ms, mid, ks₁, ks₂, hreads, hothers, rfl⟩
  · exact ((Retains.stalls hstalls).aside hfirst).assigned ts
  · obtain ⟨front, ts', kt, ka, kr, rfl, hka, rfl, hkt, hkr⟩ := hsecond mid ks₂ hothers
    refine ⟨consumed ms ++ front, ts', ks₁ ++ kt, ka, kr, ?_, hka, ?_, ?_, hkr⟩
    · rw [List.append_assoc]
      exact hreads.consumed_append.symm
    · simp only [List.append_assoc]
    · exact aside_append ((Retains.reads hreads).aside hfirst) hkt

/-- The columns and the values of an UPDATE are those of its assignments, wherever reading it
stops. -/
theorem assigned_of_update (h : Retains n (statement .update) ts ks) : Assigned ts ks := by
  refine assigned_behind h rfl fun ts ks h => ?_
  refine assigned_behind h rfl fun ts ks h => ?_
  refine assigned_behind h rfl fun ts ks h => ?_
  -- Here the assignments begin, and behind them neither columns nor values are kept.
  rcases h.seq_cases with ⟨ms, rest, reason, hstalls⟩ | ⟨ms, mid, ks₁, ks₂, hreads, hothers, rfl⟩
  · exact ⟨[], ts, [], ks, [], rfl, retains_assignments (.stalls hstalls),
      (List.append_nil ks).symm, aside_nil, aside_nil⟩
  · exact ⟨[], ts, [], ks₁, ks₂, rfl, retains_assignments (.reads hreads), rfl, aside_nil,
      hothers.aside rfl⟩

/-- What assignments are noted as, part by part: their columns in order, and their values in the
same order. -/
theorem filterMap_assignmentNotes {α : Type} (f : List Move → α)
    (runs : List (List Move × List Move)) :
    (runs.flatMap assignmentNotes).filterMap (Note.kept? f .column)
        = runs.map (fun run => f run.1) ∧
      (runs.flatMap assignmentNotes).filterMap (Note.kept? f .value)
        = runs.map (fun run => f run.2) := by
  induction runs with
  | nil => exact ⟨rfl, rfl⟩
  | cons run runs ih =>
      obtain ⟨hcolumns, hvalues⟩ := ih
      simp only [List.flatMap_cons, List.filterMap_append, hcolumns, hvalues, List.map_cons]
      exact ⟨rfl, rfl⟩

/-- Of columns and values those are listed that stand between other notes, in the report as in the
notes. -/
theorem Aside.listed_between {kt ka kr : List Note} (hkt : Aside kt) (hkr : Aside kr) (t : Text)
    {p : Part} (hp : p = .column ∨ p = .value) :
    (partsOf t ((kt ++ ka) ++ kr)).listed p
      = ka.filterMap (Note.kept? (fun run => covered t (consumed run)) p) := by
  have htable : p ≠ .table := by
    rintro rfl
    rcases hp with hp | hp <;> cases hp
  rw [listed_partsOf t htable, Note.text?_eq, hkt.filterMap_between hkr _ hp]
  simp only [slice_range]

/-- The columns and values that are reported are those of the assignments, one of each for every
assignment. -/
theorem Assigned.exists_assignments (h : Assigned ts ks) (t : Text) :
    ∃ (front ts' rest : List Token) (as : List Assignment), ts = front ++ ts' ∧
      Assignments ts' as rest ∧
      (partsOf t ks).columns = as.map (fun a => covered t a.column) ∧
      (partsOf t ks).values = as.map (fun a => covered t a.value) := by
  obtain ⟨front, ts', kt, ka, kr, hts, ⟨runs, rest, hruns, rfl⟩, rfl, hkt, hkr⟩ := h
  obtain ⟨hcolumns, hvalues⟩ := filterMap_assignmentNotes (fun run => covered t (consumed run)) runs
  refine ⟨front, ts', rest, runs.map assignmentOf, hts, hruns, ?_, ?_⟩
  · rw [List.map_map]
    exact (hkt.listed_between hkr t (.inl rfl)).trans hcolumns
  · rw [List.map_map]
    exact (hkt.listed_between hkr t (.inr rfl)).trans hvalues

/-! ### The parts of a type -/

section

variable {t : Text} {p : Part}

/-- A statement without a note about parts of the kind has no such parts. -/
theorem listed_eq_nil (hp : p ≠ .table) (h : ∀ k ∈ ks, k.label ≠ .part p) :
    (partsOf t ks).listed p = [] := by
  rw [listed_partsOf t hp]
  exact filterMap_text_eq_nil h

/-- A statement with a note about a part of the kind has such a part. -/
theorem listed_ne_nil (hp : p ≠ .table) (h : ∃ k ∈ ks, k.label = .part p) :
    (partsOf t ks).listed p ≠ [] := by
  rw [listed_partsOf t hp]
  exact filterMap_text_ne_nil h

/-- A statement without a note of DEFAULT VALUES inserts no default values, as only that note sets
the field. -/
theorem defaults_eq_false (h : ∀ k ∈ ks, k.label ≠ .defaults) :
    (partsOf t ks).defaultValues = false := by
  rw [← Bool.not_eq_true, defaults_partsOf]
  rintro ⟨k, hk, hl⟩
  exact h k hk hl

/-- A rule without the label keeps no note with it, whether it is read to its end or stalls. -/
theorem Retains.label_ne {r : Rule} (h : Retains n r ts ks) {l : Label} (hr : l ∉ r.labels) :
    ∀ k ∈ ks, k.label ≠ l := by
  intro k hk hl
  exact hr (hl ▸ h.label_mem k hk)

/-- If the type is known, everything in front of the ending was read. -/
theorem front_of_type {type found : StatementType} (h : Retains n (statement type) ts ks)
    (htype : (partsOf t ks).type? = some found) :
    found = type ∧ ∃ ms mid ks₁ ks₂, Reads n (front type) ts ms ks₁ mid ∧
      Retains n (ending type) mid ks₂ ∧ ks = ks₁ ++ ks₂ := by
  -- The type is known because a note says it.
  obtain ⟨k, hk, hl⟩ := exists_type_label htype
  have hmem := h.label_mem k hk
  rw [hl] at hmem
  have hfound : found = type := by
    cases type <;> cases found <;> first | rfl | (revert hmem; decide)
  refine ⟨hfound, ?_⟩
  rw [statement_eq] at h
  rcases h.inOrder_cases (by cases type <;> exact List.cons_ne_nil _ _) with
    ⟨ms, rest, reason, hstalls⟩ | ⟨ms, mid, ks₁, ks₂, hfront, hending, rfl⟩
  · -- The type is noted in the ending only, which was not reached.
    have hmem' := hstalls.label_mem k hk
    rw [hl] at hmem'
    exact absurd hmem' (by cases type <;> cases found <;> decide)
  · exact ⟨ms, mid, ks₁, ks₂, hfront, hending, rfl⟩

/-- What a rule surely keeps is among all notes, also if others come behind it. -/
theorem exists_label_append {r : Rule} {ms : List Move} {ks₁ ks₂ : List Note}
    (h : Reads n r ts ms ks₁ rest) {l : Label} (hr : r.surely l = true) :
    ∃ k ∈ ks₁ ++ ks₂, k.label = l := by
  obtain ⟨k, hk, hl⟩ := h.exists_label hr
  exact ⟨k, List.mem_append_left _ hk, hl⟩

/-- What is inserted: default values, other values, or rows that are selected. The notes tell the
three apart. -/
theorem labels_of_inserted {ms : List Move} (h : Reads n inserted ts ms ks rest) :
    ((∃ k ∈ ks, k.label = .defaults) ∧ ∀ k ∈ ks, k.label ≠ .part .value) ∨
      ((∀ k ∈ ks, k.label ≠ .defaults) ∧ ∃ k ∈ ks, k.label = .part .value) ∨
      (ks = [] ∧ ∃ u ∈ ts, u.kind = .keyword .select) := by
  cases h with
  -- Behind VALUES there is a value at least.
  | yes _ hvalues =>
      exact .inr (.inl ⟨(Retains.reads hvalues).label_ne (by decide), hvalues.exists_label rfl⟩)
  | no _ h =>
      cases h with
      | yes hp hselect =>
          -- Behind SELECT everything is skipped.
          obtain ⟨u, us, rfl, hu⟩ := State.passes_one_iff.1 hp
          exact .inr (.inr ⟨hselect.notes_eq_nil rfl, u, List.mem_cons_self ..,
            isWord_iff.1 hu⟩)
      | no _ h =>
          cases h with
          | yes _ hdefaults =>
              exact .inl ⟨hdefaults.exists_label rfl,
                (Retains.reads hdefaults).label_ne (by decide)⟩
          | no _ hfail => cases hfail

/-- A note with a label that those around do not have is one of those between. -/
theorem mem_between {k₁ k₂ k₃ : List Note} {l : Label} (h₁ : ∀ k ∈ k₁, k.label ≠ l)
    (h₃ : ∀ k ∈ k₃, k.label ≠ l) : ∀ k ∈ (k₁ ++ k₂) ++ k₃, k.label = l → k ∈ k₂ := by
  intro k hk hl
  rcases List.mem_append.1 hk with hk | hk
  · rcases List.mem_append.1 hk with hk | hk
    · exact absurd hl (h₁ k hk)
    · exact hk
  · exact absurd hl (h₃ k hk)

/-- What is known of an INSERT that was read up to its ending. -/
theorem hasShape_insert {ms : List Move} {mid : List Token} {ks₁ ks₂ : List Note}
    (hfront : Reads n (front .insert) ts ms ks₁ mid)
    (hending : Retains n (ending .insert) mid ks₂) :
    (partsOf t (ks₁ ++ ks₂)).HasShape ts .insert := by
  have hclauses : Reads n (inOrder ([word .insert, word .into, table,
      optional (isA .leftParen) targetColumns] ++ [inserted])) ts ms ks₁ mid := hfront
  obtain ⟨behind, ms₁, ms₂, k₁, k₂, hbefore, hinserted, rfl, rfl⟩ :=
    (reads_inOrder_concat (List.cons_ne_nil _ _)).1 hclauses
  -- The notes about values and default values are those of what is inserted.
  have hvalue : ∀ k ∈ (k₁ ++ k₂) ++ ks₂, k.label = .part .value → k ∈ k₂ :=
    mem_between ((Retains.reads hbefore).label_ne (by decide)) (hending.label_ne (by decide))
  have hdefault : ∀ k ∈ (k₁ ++ k₂) ++ ks₂, k.label = .defaults → k ∈ k₂ :=
    mem_between ((Retains.reads hbefore).label_ne (by decide)) (hending.label_ne (by decide))
  have hlift : ∀ {l : Label}, (∃ k ∈ k₂, k.label = l) → ∃ k ∈ (k₁ ++ k₂) ++ ks₂, k.label = l := by
    rintro l ⟨k, hk, hl⟩
    exact ⟨k, List.mem_append_left _ (List.mem_append_right _ hk), hl⟩
  rcases labels_of_inserted hinserted with ⟨hdefaults, hvalues⟩ | ⟨hdefaults, hvalues⟩ |
    ⟨rfl, u, hu, hselect⟩
  · refine .inl ⟨defaults_partsOf.2 (hlift hdefaults), ?_⟩
    exact listed_eq_nil (p := .value) Part.noConfusion
      fun k hk hl => hvalues k (hvalue k hk hl) hl
  · refine .inr (.inl ⟨defaults_eq_false fun k hk hl => hdefaults k (hdefault k hk hl) hl, ?_⟩)
    exact listed_ne_nil (p := .value) Part.noConfusion (hlift hvalues)
  · refine .inr (.inr ⟨?_, ?_, u, ?_, hselect⟩)
    · exact defaults_eq_false fun k hk hl => List.not_mem_nil (hdefault k hk hl)
    · exact listed_eq_nil (p := .value) Part.noConfusion
        fun k hk hl => List.not_mem_nil (hvalue k hk hl)
    · rw [← hbefore.consumed_append]
      exact List.mem_append_right _ hu

/-- If the type of a statement is known, so is its table, and the other parts are those of the
type. -/
theorem hasShape_of_type {type found : StatementType} (h : Retains n (statement type) ts ks)
    (htype : (partsOf t ks).type? = some found) :
    found = type ∧ (partsOf t ks).table?.isSome = true ∧ (partsOf t ks).HasShape ts type := by
  obtain ⟨hfound, ms, mid, ks₁, ks₂, hfront, hending, rfl⟩ := front_of_type h htype
  -- The table stands in front of the ending, and the front was read.
  have htable : (front type).surely (.part .table) = true := by cases type <;> rfl
  refine ⟨hfound, table_partsOf (exists_label_append hfront htable), ?_⟩
  cases type with
  | insert => exact hasShape_insert hfront hending
  | delete =>
      exact ⟨listed_eq_nil (p := .column) Part.noConfusion (h.label_ne (by decide)),
        listed_eq_nil (p := .value) Part.noConfusion (h.label_ne (by decide)),
        defaults_eq_false (h.label_ne (by decide))⟩
  | update =>
      exact ⟨listed_ne_nil (p := .column) Part.noConfusion (exists_label_append hfront rfl),
        defaults_eq_false (h.label_ne (by decide))⟩
  | updateOrInsert =>
      exact ⟨listed_ne_nil (p := .value) Part.noConfusion (exists_label_append hfront rfl),
        defaults_eq_false (h.label_ne (by decide))⟩

end

/-! ### Any parse -/

/-- What is known of a statement, whatever problems were met. If the first tokens are an UPDATE
without OR, the columns and the values are those of assignments that stand in the statement one
behind the other, so there are as many of both and they belong together one by one. If the type
is known, it is the one that the first tokens announce, the table is known, and the other parts
are those of the type. -/
theorem parse_shape {t : Text} {p : ParsedStatement} (h : parse t = .ok p) :
    (∀ (x : Token) (xs : List Token), significantTokens t = x :: xs →
      x.kind = .keyword .update → (∀ y : Token, xs.head? = some y → y.kind ≠ .keyword .or) →
        p.statement.columns.length = p.statement.values.length ∧
        ∃ (front ts rest : List Token) (as : List Assignment),
          significantTokens t = front ++ ts ∧ Assignments ts as rest ∧
          p.statement.columns = as.map (fun a => covered t a.column) ∧
          p.statement.values = as.map (fun a => covered t a.value)) ∧
    ∀ type : StatementType, p.statement.type? = some type →
      Announces (significantTokens t) type ∧
      (type = .updateOrInsert ↔ ∃ x y zs, significantTokens t = x :: y :: zs ∧
        x.kind = .keyword .update ∧ y.kind = .keyword .or) ∧
      p.statement.table?.isSome = true ∧
      p.statement.HasShape (significantTokens t) type := by
  obtain ⟨type, ks, hannounced, hretains, hparts⟩ := trace_of_parse h
  have hannounces := announces_of_announced hannounced
  constructor
  · intro x xs hsplit hx hor
    rw [hsplit] at hannounces
    -- The first tokens settle that the rule of an UPDATE was read.
    obtain rfl : type = .update := hannounces.eq_update hx hor
    obtain ⟨front, ts, rest, as, htokens, has, hcolumns, hvalues⟩ :=
      (assigned_of_update hretains).exists_assignments t
    rw [← hparts] at hcolumns hvalues
    refine ⟨?_, front, ts, rest, as, htokens, has, hcolumns, hvalues⟩
    rw [hcolumns, hvalues, List.length_map, List.length_map]
  · intro found hfound
    rw [hparts] at hfound ⊢
    obtain ⟨rfl, htable, hshape⟩ := hasShape_of_type hretains hfound
    exact ⟨hannounces, hannounces.updateOrInsert_iff, htable, hshape⟩

/-- An UPDATE with a stray word in an assignment and with more behind its end. It is still known
to be an UPDATE, with two columns and their values. -/
theorem parse_shape_stray :
    ∃ p, parse "UPDATE T SET A B = 1, C = F(2) RETURNING A; Z".toList = .ok p ∧
      p.isClean = false ∧ p.statement.columns.length = p.statement.values.length ∧
      Announces (significantTokens "UPDATE T SET A B = 1, C = F(2) RETURNING A; Z".toList) .update ∧
      p.statement.columns ≠ [] ∧ p.statement.defaultValues = false := by
  have hparse : parse "UPDATE T SET A B = 1, C = F(2) RETURNING A; Z".toList = .ok
      ⟨⟨some .update, some ['T'], [['A'], ['C']], [['1'], "F(2)".toList], [['A']], false⟩,
        ⟨[⟨.recovered, "Extraneous input identifier B, expected '='", ⟨15, 16⟩⟩,
          ⟨.abandoned, "Unexpected token: expected end of statement, found identifier Z",
            ⟨44, 45⟩⟩], 2⟩⟩ := by rfl
  have hsplit : significantTokens "UPDATE T SET A B = 1, C = F(2) RETURNING A; Z".toList
      = ⟨.keyword .update, "UPDATE".toList, 0⟩ :: ⟨.identifier ['T'], ['T'], 7⟩
        :: (significantTokens "UPDATE T SET A B = 1, C = F(2) RETURNING A; Z".toList).drop 2 := by
    decide +kernel
  obtain ⟨hassigned, htyped⟩ := parse_shape hparse
  obtain ⟨hlength, -⟩ := hassigned _ _ hsplit rfl (by
    intro y hy
    cases hy
    exact TokenKind.noConfusion)
  -- The type is known, because the end of the statement was reached before the name behind it.
  obtain ⟨hannounces, -, -, hshape⟩ := htyped .update rfl
  exact ⟨_, hparse, rfl, hlength, hannounces, hshape⟩

end GeneratedKeys
