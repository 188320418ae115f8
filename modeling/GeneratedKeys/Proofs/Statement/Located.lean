import GeneratedKeys.Proofs.Reading.Order
import GeneratedKeys.Proofs.Statement.Shape

/-!
# `GeneratedKeys.Proofs.Statement.Located`: the parts of a statement are pieces of its text

Every part that a parse reports is a piece of the text, from the beginning of a visible token to
the end of one. The pieces do not overlap, and they come in the order in which a statement of the
type is written, whatever problems were met in between.

* `parse_located`: the places of the parts that any parse reports.
* `located_of_infix`: what a stretch of tokens covers is a piece of the text.
* `pairwise_inSourceOrder`: the places are in order if the notes are.
-/

set_option autoImplicit false

namespace GeneratedKeys

open Grammar Move

/-! ### Places -/

/-- The bytes are those of a piece of the text that begins where a visible token begins and ends
where a visible token ends. -/
structure Span.Located (t : Text) (s : Span) : Prop where
  starts : ∃ x ∈ visibleTokens t, x.start = s.start
  stops : ∃ x ∈ visibleTokens t, x.stop = s.stop
  /-- The piece is what the bytes cover. -/
  covers : ∃ a b, t = a ++ (s.slice t ++ b) ∧ s.start = Text.size a ∧
    s.stop = Text.size a + Text.size (s.slice t)
  ne_nil : s.slice t ≠ []

/-- What is assigned or inserted, and to what, in the order in which it is written: an UPDATE has
its assignments one by one, the others have all columns first. -/
def Statement.targets {α : Type} (type : StatementType) (s : Statement α) : List α :=
  match type with
  | .update => (s.columns.zip s.values).flatMap fun (column, value) => [column, value]
  | .insert | .delete | .updateOrInsert => s.columns ++ s.values

/-- All parts of a statement of the type in the order in which they are written. -/
def Statement.inSourceOrder {α : Type} (type : StatementType) (s : Statement α) : List α :=
  s.table?.toList ++ (s.targets type ++ s.returning)

/-- What a stretch of the tokens covers lies between two boundaries, with the tokens in between. -/
theorem exists_boundary_of_infix {t : Text} {run : List Move} (hne : consumed run ≠ [])
    (h : consumed run <:+: significantTokens t) :
    ∃ a b r bs, t = a ++ (b ++ r) ∧ range run = ⟨Text.size a, Text.size a + Text.size b⟩ ∧
      b ≠ [] ∧ Boundary (Text.size a) b r bs ∧ bs.filter Token.isSignificant = consumed run ∧
      (∃ x ∈ consumed run, x.start = Text.size a) ∧
      ∃ l ∈ consumed run, l.stop = Text.size a + Text.size b := by
  obtain ⟨us, vs, hsplit⟩ := h
  obtain ⟨x, ws, hx⟩ := List.exists_cons_of_ne_nil hne
  obtain ⟨l, hl, hlast, hrange⟩ := exists_range hx
  obtain ⟨a, b, r, bs, ht, hstart, hstop, hbound, hbs, hfirst, -⟩ :=
    exists_boundary_of_stretch hsplit.symm (by rw [hx]; rfl) hlast
  -- The stretch has a first token, so the piece is not empty.
  have hb : b ≠ [] := by
    rintro rfl
    rw [hbound.eq_nil_of_nil] at hfirst
    cases hfirst
  refine ⟨a, b, r, bs, ht, ?_, hb, hbound, hbs, ⟨x, ?_, hstart⟩, l, hl, hstop⟩
  · rw [hrange, hstart, hstop, Nat.max_eq_right (Nat.le_add_right ..)]
  · rw [hx]
    exact List.mem_cons_self ..

/-- What a stretch of the tokens covers is a piece of the text: it is not empty, and it begins and
ends with tokens. -/
theorem located_of_infix {t : Text} {run : List Move} (hne : consumed run ≠ [])
    (h : consumed run <:+: significantTokens t) : (range run).Located t := by
  -- The stretch lies at `b` in the text `a ++ b ++ r`, from the token `x` to the token `l`.
  obtain ⟨a, b, r, -, ht, hrange, hb, -, -, ⟨x, hx, hstart⟩, l, hl, hstop⟩ :=
    exists_boundary_of_infix hne h
  have hslice : (range run).slice t = b := by
    rw [hrange, ht]
    exact Span.slice_append a b r
  have hvisible : ∀ y ∈ consumed run, y ∈ visibleTokens t := by
    intro y hy
    obtain ⟨hmem, hvisible, -⟩ := mem_significantTokens (h.subset hy)
    exact List.mem_filter.2 ⟨hmem, hvisible⟩
  refine ⟨⟨x, hvisible x hx, ?_⟩, ⟨l, hvisible l hl, ?_⟩, ⟨a, r, ?_, ?_, ?_⟩, ?_⟩
  · rw [hrange, hstart]
  · rw [hrange, hstop]
  · rw [hslice]
    exact ht
  · rw [hrange]
  · rw [hslice, hrange]
  · rw [hslice]
    exact hb

/-! ### Places in order -/

/-- The places of the parts that notes stand for, from which a report slices their texts. -/
def placesOf (ks : List Note) : Statement Span :=
  ks.foldl Note.apply .unknown

/-- A place is that of a part which was kept, and it is the range of the moves made for it. -/
theorem mem_listed_placesOf {ks : List Note} {p : Part} {s : Span}
    (h : s ∈ (placesOf ks).listed p) : ∃ run, Note.part p run ∈ ks ∧ s = range run := by
  rw [placesOf, Note.apply_eq] at h
  exact mem_listed_unknown h

/-- The places of the parts of a kind are the ranges of the notes about them. -/
theorem listed_placesOf {p : Part} (hp : p ≠ .table) (ks : List Note) :
    (placesOf ks).listed p = ks.filterMap (Note.kept? range p) := by
  rw [placesOf, Note.apply_eq, listed_foldl range hp]
  cases p <;> rfl

/-- The parts of a statement of a type in the order in which they are written. Assignments have
columns and values in turn. -/
def StatementType.rank (type : StatementType) : Label → Nat
  | .part .table => 0
  | .part .column => 1
  | .part .value => if type = .update then 1 else 2
  | .defaults => 2
  | .part .returning => 3
  | .type _ => 4

/-- Every statement keeps its parts in this order. It is checked by evaluating `ranked` on each of
the four rules. -/
theorem ranked_statement (type : StatementType) : (statement type).ranked type.rank = true := by
  cases type <;> rfl

/-- In no statement is a part kept inside another one, and every part has a token. -/
theorem flat_statement (type : StatementType) : (statement type).flat = true := by
  cases type <;> rfl

section

variable {n : Nat} {ts : List Token} {ks : List Note}

/-- The place of a part. The other notes have none, as they stand for no text. -/
def Note.place? : Note → Option Span
  | part _ run => some (range run)
  | type _ | defaults => none

/-- The places of some of the parts are in order, whichever parts are chosen. -/
theorem pairwise_filterMap_places {place : Note → Option Span}
    (hplace : ∀ {k : Note} {s : Span}, place k = some s → ∃ p run, k = .part p run ∧ s = range run)
    (hks : ks.Pairwise Note.Precedes) :
    (ks.filterMap place).Pairwise fun s s' => s.stop ≤ s'.start := by
  refine hks.filterMap _ fun k k' hprecedes s hs s' hs' => ?_
  obtain ⟨p, run, rfl, rfl⟩ := hplace hs
  obtain ⟨p', run', rfl, rfl⟩ := hplace hs'
  exact hprecedes rfl rfl

/-- The places of the parts of one kind are in order, for each of the four kinds. -/
theorem pairwise_listed (hks : ks.Pairwise Note.Precedes) (p : Part) :
    ((placesOf ks).listed p).Pairwise fun s s' => s.stop ≤ s'.start := by
  by_cases hp : p = .table
  · subst hp
    -- There is one table at most.
    show (placesOf ks).table?.toList.Pairwise _
    cases (placesOf ks).table? with
    | none => exact .nil
    | some s => exact List.pairwise_singleton ..
  · rw [listed_placesOf hp]
    refine pairwise_filterMap_places (fun {k s} hs => ?_) hks
    cases k with
    | part q run =>
        obtain ⟨-, hs⟩ := Option.ite_none_right_eq_some.1 hs
        exact ⟨q, run, rfl, (Option.some.inj hs).symm⟩
    | type | defaults => cases hs

/-- The places of parts of a lower rank are in front of those of a higher rank. -/
theorem stop_le_of_rank_lt {rank : Label → Nat} (hks : ks.Pairwise Note.Precedes)
    (hrank : ks.Pairwise fun k k' => rank k.label ≤ rank k'.label) {p q : Part}
    (hlt : rank (.part p) < rank (.part q)) :
    ∀ s ∈ (placesOf ks).listed p, ∀ s' ∈ (placesOf ks).listed q, s.stop ≤ s'.start := by
  intro s hs s' hs'
  obtain ⟨run, hk, rfl⟩ := mem_listed_placesOf hs
  obtain ⟨run', hk', rfl⟩ := mem_listed_placesOf hs'
  exact Note.precedes_of_rank_lt hks hrank hk hk' hlt rfl rfl

/-- The columns and the values of an UPDATE are those of its assignments. -/
theorem placesOf_update (h : Retains n (statement .update) ts ks) :
    ∃ runs : List (List Move × List Move), (runs.flatMap assignmentNotes).Sublist ks ∧
      (placesOf ks).columns = runs.map (fun run => range run.1) ∧
      (placesOf ks).values = runs.map (fun run => range run.2) := by
  obtain ⟨front, ts', kt, ka, kr, -, ⟨runs, rest, -, rfl⟩, rfl, hkt, hkr⟩ := assigned_of_update h
  obtain ⟨hcolumns, hvalues⟩ := filterMap_assignmentNotes range runs
  refine ⟨runs, ?_, ?_, ?_⟩
  · exact (List.sublist_append_right kt _).trans (List.sublist_append_left _ kr)
  · refine (listed_placesOf (p := .column) Part.noConfusion _).trans ?_
    rw [hkt.filterMap_between hkr range (.inl rfl), hcolumns]
  · refine (listed_placesOf (p := .value) Part.noConfusion _).trans ?_
    rw [hkt.filterMap_between hkr range (.inr rfl), hvalues]

/-- The targets of an UPDATE are the places of its assignments, column and value in turn. -/
theorem targets_placesOf_update (h : Retains n (statement .update) ts ks)
    (hks : ks.Pairwise Note.Precedes) :
    ((placesOf ks).targets .update).Pairwise fun s s' => s.stop ≤ s'.start := by
  obtain ⟨runs, hsub, hcolumns, hvalues⟩ := placesOf_update h
  have htargets : (placesOf ks).targets .update
      = (runs.flatMap assignmentNotes).filterMap Note.place? := by
    rw [Statement.targets, hcolumns, hvalues, List.zip_map', List.flatMap_map,
      List.filterMap_flatMap]
    rfl
  rw [htargets]
  refine pairwise_filterMap_places (fun {k s} hs => ?_) (hks.sublist hsub)
  cases k with
  | part p run => exact ⟨p, run, rfl, (Option.some.inj hs).symm⟩
  | type | defaults => cases hs

/-- The targets are columns and values, whichever type the statement has. -/
theorem mem_listed_of_targets {type : StatementType} {s : Statement Span} {a : Span}
    (h : a ∈ s.targets type) : a ∈ s.listed .column ∨ a ∈ s.listed .value := by
  cases type with
  | update =>
      obtain ⟨⟨column, value⟩, hpair, ha⟩ := List.mem_flatMap.1 h
      obtain ⟨hcolumn, hvalue⟩ := List.of_mem_zip hpair
      rcases List.mem_cons.1 ha with rfl | ha
      · exact .inl hcolumn
      · exact .inr (List.mem_singleton.1 ha ▸ hvalue)
  | insert | delete | updateOrInsert => exact List.mem_append.1 h

/-- The targets of a statement are in order. In an UPDATE columns and values alternate, and
otherwise all columns come first. -/
theorem pairwise_targets {type : StatementType} (h : Retains n (statement type) ts ks)
    (hks : ks.Pairwise Note.Precedes)
    (hrank : ks.Pairwise fun k k' => type.rank k.label ≤ type.rank k'.label) :
    ((placesOf ks).targets type).Pairwise fun s s' => s.stop ≤ s'.start := by
  have columnsFirst : type.rank (.part .column) < type.rank (.part .value) →
      ((placesOf ks).columns ++ (placesOf ks).values).Pairwise fun s s' => s.stop ≤ s'.start :=
    fun hlt => List.pairwise_append.2 ⟨pairwise_listed hks .column, pairwise_listed hks .value,
      stop_le_of_rank_lt hks hrank hlt⟩
  cases type with
  | update => exact targets_placesOf_update h hks
  | insert | delete | updateOrInsert => exact columnsFirst (by decide)

/-- The places of the parts of a statement are in the order in which it is written. They do not
overlap, also if reading has stopped. -/
theorem pairwise_inSourceOrder {type : StatementType} (h : Retains n (statement type) ts ks)
    (hts : ts.Pairwise fun x y => x.stop ≤ y.start) :
    ((placesOf ks).inSourceOrder type).Pairwise fun s s' => s.stop ≤ s'.start := by
  have hks := (h.laid (flat_statement type)).pairwise_precedes hts
  have hrank := h.pairwise_rank (ranked_statement type)
  -- The table is in front of everything else, and what is returned behind everything else.
  have htable : ∀ p : Part, p ≠ .table → type.rank (.part .table) < type.rank (.part p) := by
    intro p hp
    cases p <;> cases type <;> first | exact absurd rfl hp | decide
  have hreturning : ∀ p : Part, p ≠ .returning →
      type.rank (.part p) < type.rank (.part .returning) := by
    intro p hp
    cases p <;> cases type <;> first | exact absurd rfl hp | decide
  refine List.pairwise_append.2 ⟨pairwise_listed hks .table, List.pairwise_append.2
    ⟨pairwise_targets h hks hrank, pairwise_listed hks .returning, ?_⟩, ?_⟩
  · intro s hs s' hs'
    rcases mem_listed_of_targets hs with hs | hs
    · exact stop_le_of_rank_lt hks hrank (hreturning .column Part.noConfusion) s hs s' hs'
    · exact stop_le_of_rank_lt hks hrank (hreturning .value Part.noConfusion) s hs s' hs'
  · intro s hs s' hs'
    rcases List.mem_append.1 hs' with hs' | hs'
    · rcases mem_listed_of_targets hs' with hs' | hs'
      · exact stop_le_of_rank_lt hks hrank (htable .column Part.noConfusion) s hs s' hs'
      · exact stop_le_of_rank_lt hks hrank (htable .value Part.noConfusion) s hs s' hs'
    · exact stop_le_of_rank_lt hks hrank (htable .returning Part.noConfusion) s hs s' hs'

end

/-! ### Any parse -/

/-- The parts that a parse reports are pieces of the text, whatever problems were met. There are
places for them, each of which is not empty, begins where a visible token begins and ends where one
ends. The places do not overlap and they are in the order in which a statement of the announced
type is written: the table first, then the columns and the values, those of an UPDATE in turn, and
the columns that are returned last. If the type is known it is the announced one. -/
theorem parse_located {t : Text} {p : ParsedStatement} (h : parse t = .ok p) :
    ∃ (type : StatementType) (places : Statement Span),
      Announces (significantTokens t) type ∧
      (∀ found, p.statement.type? = some found → found = type) ∧
      p.statement = places.map (·.slice t) ∧
      (∀ part : Part, ∀ s ∈ places.listed part, s.Located t) ∧
      (type = .update → places.columns.length = places.values.length) ∧
      (places.inSourceOrder type).Pairwise fun s s' => s.stop ≤ s'.start := by
  obtain ⟨type, ks, hannounced, hretains, hparts⟩ := trace_of_parse h
  have hlaid := hretains.laid (flat_statement type)
  refine ⟨type, placesOf ks, announces_of_announced hannounced, ?known, hparts, ?located, ?paired,
    pairwise_inSourceOrder hretains (pairwise_significantTokens t)⟩
  -- The type is noted in the ending of the rule, and it is the type of the rule.
  case known =>
    intro found hfound
    rw [hparts] at hfound
    exact (front_of_type hretains hfound).1
  case located =>
    intro part s hs
    obtain ⟨run, hk, rfl⟩ := mem_listed_placesOf hs
    obtain ⟨hne, hinfix⟩ := hlaid.infix_of_mem hk
    exact located_of_infix hne hinfix
  -- The columns and the values of an UPDATE come from the same list of assignments.
  case paired =>
    rintro rfl
    obtain ⟨runs, -, hcolumns, hvalues⟩ := placesOf_update hretains
    rw [hcolumns, hvalues, List.length_map, List.length_map]

/-- An UPDATE with a stray word in front of an equals sign, a comment in a value and a name behind
its end. Its parts are pieces of the text in order all the same. -/
theorem parse_located_stray :
    ∃ p, parse "UPDATE T SET A B = 1 +/**/2, T.C = X RETURNING T.A Y, C; Z".toList = .ok p ∧
      p.isClean = false ∧ p.statement.values = ["1 +/**/2".toList, ['X']] ∧
      ∃ places : Statement Span,
        p.statement = places.map
          (·.slice "UPDATE T SET A B = 1 +/**/2, T.C = X RETURNING T.A Y, C; Z".toList) ∧
        (∀ part : Part, ∀ s ∈ places.listed part,
          s.Located "UPDATE T SET A B = 1 +/**/2, T.C = X RETURNING T.A Y, C; Z".toList) ∧
        places.columns.length = places.values.length ∧
        (places.inSourceOrder .update).Pairwise fun s s' => s.stop ≤ s'.start := by
  have hparse : parse "UPDATE T SET A B = 1 +/**/2, T.C = X RETURNING T.A Y, C; Z".toList = .ok
      ⟨⟨some .update, some ['T'], [['A'], "T.C".toList], ["1 +/**/2".toList, ['X']],
          ["T.A".toList, ['C']], false⟩,
        ⟨[⟨.recovered, "Extraneous input identifier B, expected '='", ⟨15, 16⟩⟩,
          ⟨.abandoned, "Unexpected token: expected end of statement, found identifier Z",
            ⟨57, 58⟩⟩], 2⟩⟩ := by rfl
  obtain ⟨type, places, -, hknown, hmap, hlocated, hpaired, hordered⟩ := parse_located hparse
  -- The statement is known to be an UPDATE, so the places are those of assignments.
  obtain rfl : StatementType.update = type := hknown .update rfl
  exact ⟨_, hparse, rfl, rfl, places, hmap, hlocated, hpaired rfl, hordered⟩

end GeneratedKeys
