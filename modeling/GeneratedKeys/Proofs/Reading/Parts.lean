import GeneratedKeys.Proofs.Reading.Trace
import GeneratedKeys.Proofs.Text.Slice

/-!
# `GeneratedKeys.Proofs.Reading.Parts`: the parts that notes stand for

The notes of a reading say which stretches of the statement are kept. The parts that are
reported are the texts of these stretches, so they are found note by note.

* `partsOf_append`: the parts of more notes.
* `partsOf_congr`: notes that cover the same texts stand for the same parts.
* `listed_partsOf`, `mem_listed_partsOf`: the parts of a kind, in order, and one of them.
* `foldl_parts`: parts of one kind, one after the other.
-/

set_option autoImplicit false

namespace GeneratedKeys

open Move

/-- Keeps the text of what the note stands for, instead of its place. -/
def Note.applyText (t : Text) (s : Statement Text) : Note → Statement Text
  | part p ms => s.record p ((range ms).slice t)
  | type found => s.ofType found
  | defaults => s.withDefaultValues

/-- The parts that notes stand for, as texts of `t`. This is what a report shows of them. -/
def partsOf (t : Text) (ks : List Note) : Statement Text :=
  (ks.foldl Note.apply .unknown).map (·.slice t)

/-- Keeping a part as bytes and then cutting it out of the text is keeping its text. -/
theorem map_apply (t : Text) (s : Statement Span) (k : Note) :
    (k.apply s).map (·.slice t) = k.applyText t (s.map (·.slice t)) := by
  cases k with
  | part p ms => exact Statement.map_record ..
  | type | defaults => rfl

/-- The parts are found note by note. Turning places into texts at the end or at each note comes to
the same, by `map_record`. -/
theorem partsOf_eq_foldl (t : Text) (ks : List Note) :
    partsOf t ks = ks.foldl (Note.applyText t) .unknown := by
  suffices hfold : ∀ s : Statement Span, (ks.foldl Note.apply s).map (·.slice t)
      = ks.foldl (Note.applyText t) (s.map (·.slice t)) from hfold .unknown
  induction ks with
  | nil => exact fun s => rfl
  | cons k ks ih =>
      intro s
      rw [List.foldl_cons, List.foldl_cons, ih, map_apply]

/-- The parts of more notes are found from those of the first ones, so a statement can be put
together rule by rule. -/
theorem partsOf_append (t : Text) (ks ks' : List Note) :
    partsOf t (ks ++ ks') = ks'.foldl (Note.applyText t) (partsOf t ks) := by
  rw [partsOf_eq_foldl, partsOf_eq_foldl, List.foldl_append]

/-- Notes that cover the same texts in both statements stand for the same parts. -/
theorem partsOf_congr {t t' : Text} {ks : List Note}
    (h : ∀ {p : Part} {ms : List Move}, Note.part p ms ∈ ks →
      (range ms).slice t = (range ms).slice t') : partsOf t ks = partsOf t' ks := by
  rw [partsOf_eq_foldl, partsOf_eq_foldl]
  generalize Statement.unknown = s
  induction ks generalizing s with
  | nil => rfl
  | cons k ks ih =>
      have hk : k.applyText t s = k.applyText t' s := by
        cases k with
        | part p ms => rw [Note.applyText, Note.applyText, h (List.mem_cons_self ..)]
        | type | defaults => rfl
      rw [List.foldl_cons, List.foldl_cons, hk, ih fun hpart => h (List.mem_cons_of_mem _ hpart)]

/-! ### Parts by their kind -/

/-- Keeps what the note stands for, a part as what `f` makes of its moves. Places and texts are two
choices of `f`. -/
def Note.applyAs {α : Type} (f : List Move → α) (s : Statement α) : Note → Statement α
  | part p ms => s.record p (f ms)
  | type found => s.ofType found
  | defaults => s.withDefaultValues

/-- What `f` makes of a part of the kind. Notes of other parts give nothing. -/
def Note.kept? {α : Type} (f : List Move → α) (p : Part) : Note → Option α
  | part q ms => if q = p then some (f ms) else none
  | _ => none

/-- The text that a note keeps as a part of the kind, if it keeps one of it. -/
def Note.text? (t : Text) (p : Part) : Note → Option Text
  | part q ms => if q = p then some ((range ms).slice t) else none
  | _ => none

/-- The parts of a kind, in order. A table is listed as well, as a list of one at most. -/
def Statement.listed {α : Type} (p : Part) (s : Statement α) : List α :=
  match p with
  | .table => s.table?.toList
  | .column => s.columns
  | .value => s.values
  | .returning => s.returning

/-- Keeping parts as ranges is one way to keep what notes stand for. -/
theorem Note.apply_eq : Note.apply = Note.applyAs range := by
  funext s k
  cases k <;> rfl

/-- Keeping parts as texts is another way to do so. -/
theorem Note.applyText_eq (t : Text) :
    Note.applyText t = Note.applyAs fun ms => (range ms).slice t := by
  funext s k
  cases k <;> rfl

/-- The text of a part is what is kept of it in that way. -/
theorem Note.text?_eq (t : Text) (p : Part) :
    Note.text? t p = Note.kept? (fun ms => (range ms).slice t) p := by
  funext k
  cases k <;> rfl

/-- A part of another kind leaves the parts of a kind as they are. -/
theorem Statement.listed_record_of_ne {α : Type} {p q : Part} (hq : q ≠ p) (a : α)
    (s : Statement α) : (s.record q a).listed p = s.listed p := by
  cases q <;> cases p <;> first | rfl | exact absurd rfl hq

/-- A part of the kind is the one that is kept, or one of those before it. -/
theorem Statement.mem_listed_record {α : Type} {p : Part} {a b : α} {s : Statement α}
    (h : b ∈ (s.record p a).listed p) : b ∈ s.listed p ∨ b = a := by
  cases p with
  | table => exact .inr (Option.some.inj (Option.mem_toList.1 h)).symm
  | column | value | returning => exact (List.mem_append.1 h).imp_right List.mem_singleton.1

/-- The parts of a kind of which there may be many are those of the notes, in order. -/
theorem listed_foldl {α : Type} (f : List Move → α) {p : Part} (hp : p ≠ .table)
    (ks : List Note) (s : Statement α) :
    (ks.foldl (Note.applyAs f) s).listed p = s.listed p ++ ks.filterMap (Note.kept? f p) := by
  induction ks generalizing s with
  | nil => exact (List.append_nil _).symm
  | cons k ks ih =>
      rw [List.foldl_cons, ih]
      cases k with
      | part q ms =>
          by_cases hq : q = p
          -- A part of the kind is put behind those that are kept already.
          · subst hq
            rw [List.filterMap_cons, Note.kept?, if_pos rfl]
            cases q with
            | table => exact absurd rfl hp
            | _ => exact List.append_assoc ..
          -- A part of another kind changes nothing here.
          · rw [List.filterMap_cons, Note.kept?, if_neg hq]
            exact congrArg (· ++ _) (s.listed_record_of_ne hq (f ms))
      | type | defaults =>
          rw [List.filterMap_cons]
          cases p <;> rfl

/-- A part of any kind was kept by a note, or it was known before. -/
theorem mem_listed_foldl {α : Type} {f : List Move → α} {p : Part} {ks : List Note}
    {s : Statement α} {a : α} (h : a ∈ (ks.foldl (Note.applyAs f) s).listed p) :
    a ∈ s.listed p ∨ ∃ ms, Note.part p ms ∈ ks ∧ a = f ms := by
  induction ks generalizing s with
  | nil => exact .inl h
  | cons k ks ih =>
      rcases ih h with hs | ⟨ms, hms, ha⟩
      -- It was kept by the first note, or known before it.
      · cases k with
        | part q ms =>
            by_cases hq : q = p
            · subst hq
              exact (Statement.mem_listed_record hs).imp_right fun ha =>
                ⟨ms, List.mem_cons_self .., ha⟩
            · exact .inl (s.listed_record_of_ne hq (f ms) ▸ hs)
        | type | defaults =>
            refine .inl ?_
            cases p <;> exact hs
      · exact .inr ⟨ms, List.mem_cons_of_mem _ hms, ha⟩

/-- Of a statement of which nothing was known before every part was kept by a note. -/
theorem mem_listed_unknown {α : Type} {f : List Move → α} {p : Part} {ks : List Note} {a : α}
    (h : a ∈ (ks.foldl (Note.applyAs f) .unknown).listed p) :
    ∃ ms, Note.part p ms ∈ ks ∧ a = f ms := by
  refine (mem_listed_foldl h).resolve_left ?_
  cases p <;> exact List.not_mem_nil

/-- The parts of a kind of which there may be many are the texts of the notes about them, in order.
-/
theorem listed_partsOf (t : Text) {p : Part} (hp : p ≠ .table) (ks : List Note) :
    (partsOf t ks).listed p = ks.filterMap (Note.text? t p) := by
  rw [partsOf_eq_foldl, Note.applyText_eq, listed_foldl _ hp, Note.text?_eq]
  cases p <;> rfl

/-- The column that is returned by a note, as a text without its alias. -/
def Note.returned? (t : Text) : Note → Option Text
  | part .returning ms => some ((range ms).slice t)
  | _ => none

/-- A column that is returned is a part like any other. -/
theorem returned?_eq (t : Text) : Note.returned? t = Note.text? t .returning := by
  funext k
  cases k with
  | part p ms => cases p <;> rfl
  | type | defaults => rfl

/-- The columns that are returned are those of the notes, in order. -/
theorem returning_partsOf (t : Text) (ks : List Note) :
    (partsOf t ks).returning = ks.filterMap (Note.returned? t) := by
  rw [returned?_eq]
  exact listed_partsOf t (p := .returning) Part.noConfusion ks

/-! ### Parts of one kind -/

/-- Keeps several parts of one kind, one after the other. Of several tables only the last one stays.
-/
def Statement.recordAll {α : Type} (p : Part) (as : List α) (s : Statement α) : Statement α :=
  match p with
  | .table => { s with table? := as.getLast?.or s.table? }
  | .column => { s with columns := s.columns ++ as }
  | .value => { s with values := s.values ++ as }
  | .returning => { s with returning := s.returning ++ as }

/-- Keeping parts one by one is keeping them all. For tables it is the last one that counts, both
ways. -/
theorem foldl_record {α : Type} (p : Part) (as : List α) (s : Statement α) :
    as.foldl (fun s a => s.record p a) s = s.recordAll p as := by
  induction as generalizing s with
  | nil => cases p <;> simp [Statement.recordAll]
  | cons a as ih =>
      rw [List.foldl_cons, ih]
      cases p with
      | table =>
          cases h : as.getLast? <;>
            simp [Statement.recordAll, Statement.record, List.getLast?_cons, h]
      | _ => simp [Statement.recordAll, Statement.record]

/-- Notes of parts of one kind keep the texts that they cover, all at once and in their order. -/
theorem foldl_parts (t : Text) (p : Part) (runs : List (List Move)) (s : Statement Text) :
    (runs.map (Note.part p)).foldl (Note.applyText t) s
      = s.recordAll p (runs.map fun run => (range run).slice t) := by
  rw [← foldl_record, List.foldl_map, List.foldl_map]
  rfl

/-! ### Parts that consist of tokens -/

/-- The note of a part that consists of the tokens, each of them passed as it stands. -/
def Note.ofTokens (p : Part) (w : List Token) : Note :=
  .part p (w.map .pass)

/-- The text from the first of the tokens to the last one, with the blanks and comments between
them. -/
def covered (t : Text) (w : List Token) : Text :=
  Span.slice ⟨(w.head?.map Token.start).getD 0, (w.getLast?.map Token.stop).getD 0⟩ t

/-- What moves range over is the text from the first token consumed to the last one. -/
theorem slice_range (t : Text) (ms : List Move) :
    (range ms).slice t = covered t (consumed ms) := by
  cases hw : consumed ms with
  | nil => simp [range, covered, hw]
  | cons x w =>
      obtain ⟨l, -, hlast, hrange⟩ := exists_range hw
      rw [hw] at hlast
      rw [hrange, covered, hlast]
      show Span.slice ⟨x.start, max x.start l.stop⟩ t = Span.slice ⟨x.start, l.stop⟩ t
      exact Span.slice_max x.start l.stop t

/-- A part of any kind is the text of a note, which reaches from the first token that was read for
it to the last one. -/
theorem mem_listed_partsOf {t : Text} {ks : List Note} {p : Part} {v : Text}
    (h : v ∈ (partsOf t ks).listed p) :
    ∃ run, Note.part p run ∈ ks ∧ v = covered t (consumed run) := by
  rw [partsOf_eq_foldl, Note.applyText_eq] at h
  obtain ⟨run, hrun, rfl⟩ := mem_listed_unknown h
  exact ⟨run, hrun, slice_range t run⟩

/-- The text that passed tokens range over reaches from the first to the last of them. -/
theorem slice_range_map_pass (t : Text) (w : List Token) :
    (range (w.map .pass)).slice t = covered t w := by
  rw [slice_range, consumed_map_pass]

/-- Notes of parts that consist of tokens keep the texts from their first tokens to their last
ones. -/
theorem foldl_ofTokens (t : Text) (p : Part) (ws : List (List Token)) (s : Statement Text) :
    (ws.map (Note.ofTokens p)).foldl (Note.applyText t) s = s.recordAll p (ws.map (covered t)) := by
  have hparts := foldl_parts t p (ws.map fun w => w.map .pass) s
  simp only [List.map_map, Function.comp_def, slice_range_map_pass] at hparts
  exact hparts

end GeneratedKeys
