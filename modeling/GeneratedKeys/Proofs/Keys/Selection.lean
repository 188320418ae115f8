import GeneratedKeys.Proofs.Keys.Configured

/-!
# `GeneratedKeys.Proofs.Keys.Selection`: ways of asking for columns

Columns are asked for by position, by name, or all at once. The three ways have checks of their
own, but they meet: positions stand for the written names of their columns, and all columns are
the columns at all positions where the server knows no star.

* `mapM_ite`: several steps fail with the first one that does.
* `Builder.forIndexes_eq`: positions are the names at them, or the first one that is none fails.
* `selections_agree`: the three ways for a statement that a clause may be put behind.
-/

set_option autoImplicit false

namespace GeneratedKeys

/-- Steps that fail where `bad` holds fail together with the first of them that does. Which of
several bad positions is reported follows from this. -/
theorem mapM_ite {α β ε : Type} (bad : α → Bool) (failure : α → ε) (result : α → β) (as : List α) :
    (as.mapM fun a => if bad a = true then Except.error (failure a) else .ok (result a))
      = match as.find? bad with
        | some a => .error (failure a)
        | none => .ok (as.map result) := by
  induction as with
  | nil => rfl
  | cons a as ih =>
      rw [List.mapM_cons, ih]
      by_cases h : bad a = true
      · rw [if_pos h, List.find?_cons_of_pos h]
        rfl
      · rw [if_neg h, List.find?_cons_of_neg h]
        cases as.find? bad <;> rfl

namespace Builder

/-! ### Positions -/

/-- Whether no column stands at a position. Position 0 is outside of every table. -/
def isOutside (columns : List Text) (i : Nat) : Bool :=
  !(decide (1 ≤ i) && decide (i ≤ columns.length))

/-- The column at a position, counted from 1. Outside of the table it is the empty name, which is
never asked for. -/
def columnOf (columns : List Text) (i : Nat) : Text :=
  columns.getD (i - 1) []

/-- A position that is not outside is one of 1 up to the number of columns. -/
theorem isOutside_eq_false {columns : List Text} {i : Nat} :
    isOutside columns i = false ↔ 1 ≤ i ∧ i ≤ columns.length := by
  rw [isOutside, Bool.not_eq_false', Bool.and_eq_true, decide_eq_true_eq, decide_eq_true_eq]

/-- No position is outside exactly if there is a column at each. -/
theorem find?_isOutside_eq_none {columns : List Text} {positions : List Nat} :
    positions.find? (isOutside columns) = none ↔
      ∀ i ∈ positions, 1 ≤ i ∧ i ≤ columns.length := by
  rw [List.find?_eq_none]
  simp only [Bool.not_eq_true, isOutside_eq_false]

/-- The first position that is outside has columns in front of it only. -/
theorem exists_first_outside {columns : List Text} {positions : List Nat} {i : Nat}
    (h : positions.find? (isOutside columns) = some i) :
    ∃ before after, positions = before ++ i :: after ∧
      (∀ j ∈ before, 1 ≤ j ∧ j ≤ columns.length) ∧ ¬ (1 ≤ i ∧ i ≤ columns.length) := by
  obtain ⟨hi, before, after, hsplit, hbefore⟩ := List.find?_eq_some_iff_append.1 h
  refine ⟨before, after, hsplit, fun j hj => ?_, fun hin => ?_⟩
  · exact isOutside_eq_false.1 (by simpa using hbefore j hj)
  · rw [isOutside_eq_false.2 hin] at hi
    cases hi

/-- Looking up a position fails exactly if it is outside, and gives the column at it otherwise. -/
theorem columnAt_eq (columns : List Text) (table : Text) (i : Nat) :
    columnAt columns table i
      = if isOutside columns i = true then .error (.invalidPosition i table)
        else .ok (columnOf columns i) := by
  split
  · next houtside =>
    cases i with
    | zero => rfl
    | succ i =>
        -- A position that is outside but not zero lies behind the last column.
        have hnone : columns[i]? = none := by
          rw [List.getElem?_eq_none_iff]
          by_contra hlt
          rw [isOutside_eq_false.2 ⟨by omega, by omega⟩] at houtside
          cases houtside
        rw [columnAt, hnone]
  · next hinside =>
    obtain ⟨hpos, hle⟩ := isOutside_eq_false.1 (Bool.eq_false_iff.2 hinside)
    have hlt : i - 1 < columns.length := by omega
    refine columnAt_eq_ok.2 ⟨hpos, ?_⟩
    rw [columnOf, List.getD_eq_getElem?_getD, List.getElem?_eq_getElem hlt, Option.getD_some]

/-- The columns at all positions are all columns. So asking for every position is asking for the
table as a whole. -/
theorem map_columnOf_range (columns : List Text) :
    (List.range' 1 columns.length).map (columnOf columns) = columns := by
  refine List.ext_getElem (by simp) fun i hi hlt => ?_
  rw [List.getElem_map, List.getElem_range', columnOf, show 1 + 1 * i - 1 = i by omega,
    List.getD_eq_getElem?_getD, List.getElem?_eq_getElem hlt, Option.getD_some]

/-! ### Requests -/

variable {b : Builder} {m : Metadata} {positions : List Nat}

/-- Columns of given names are asked for as they are written, and this never fails for a supported
statement. -/
theorem forNames_eq (hsupported : b.isSupported = true) (hreturning : b.hasReturning = false)
    {names : List Text} (hnames : names ≠ []) : b.forNames names = .ok (b.returning names) := by
  cases names with
  | nil => exact absurd rfl hnames
  | cons name names =>
      rw [forNames, hreturning, hsupported]
      rfl

/-- Positions stand for the names at them. The first one at which there is no column fails. -/
theorem forIndexes_eq (hsupported : b.isSupported = true) (hreturning : b.hasReturning = false)
    (hpositions : positions ≠ []) (hcolumns : b.tableColumns m ≠ []) :
    b.forIndexes positions m = match positions.find? (isOutside (b.tableColumns m)) with
      | some i => .error (.invalidPosition i b.table)
      | none => b.forNames ((positions.map (columnOf (b.tableColumns m))).map
          (QuoteStrategy.ofDialect m.dialect).quote) := by
  obtain ⟨first, others, hcons⟩ := List.exists_cons_of_ne_nil hcolumns
  have hnil : positions.isEmpty = false := by simpa using hpositions
  -- With a clause to come and columns to choose from, the positions are looked up one by one.
  have hindexes : b.forIndexes positions m = (do
      let chosen ← positions.mapM (columnAt (b.tableColumns m) b.table)
      return b.returning (chosen.map (QuoteStrategy.ofDialect m.dialect).quote)) := by
    rw [forIndexes, hreturning, hnil, hsupported, hcons]
    rfl
  rw [hindexes, funext (columnAt_eq (b.tableColumns m) b.table), mapM_ite]
  cases positions.find? (isOutside (b.tableColumns m)) with
  | some i => rfl
  | none =>
      rw [forNames_eq hsupported hreturning (by simpa using hpositions)]
      rfl

/-- Positions that all have a column succeed, and no others do. Order and repetition do not matter
for it. -/
theorem exists_forIndexes_iff (hsupported : b.isSupported = true)
    (hreturning : b.hasReturning = false) (hpositions : positions ≠ [])
    (hcolumns : b.tableColumns m ≠ []) :
    (∃ q, b.forIndexes positions m = .ok q) ↔
      ∀ i ∈ positions, 1 ≤ i ∧ i ≤ (b.tableColumns m).length := by
  rw [← find?_isOutside_eq_none, forIndexes_eq hsupported hreturning hpositions hcolumns]
  cases positions.find? (isOutside (b.tableColumns m)) with
  -- A position is outside: the request fails, and not all positions have a column.
  | some i =>
      constructor
      · rintro ⟨q, h⟩
        cases h
      · intro h
        cases h
  | none =>
      refine iff_of_true ⟨_, forNames_eq hsupported hreturning ?_⟩ rfl
      simpa using hpositions

/-- Where the server knows no star, all columns are those at all positions. -/
theorem forAllColumns_eq (hsupported : b.isSupported = true) (hreturning : b.hasReturning = false)
    (hstar : m.version.returnsAll = false) (hcolumns : b.tableColumns m ≠ []) :
    b.forAllColumns m = b.forIndexes (List.range' 1 (b.tableColumns m).length) m := by
  obtain ⟨first, others, hcons⟩ := List.exists_cons_of_ne_nil hcolumns
  have hall : List.range' 1 (b.tableColumns m).length ≠ [] := by simpa using hcolumns
  -- None of the positions from 1 up to the number of columns is outside.
  have hnone : (List.range' 1 (b.tableColumns m).length).find? (isOutside (b.tableColumns m))
      = none := by
    rw [find?_isOutside_eq_none]
    intro i hi
    have hrange := List.mem_range'_1.1 hi
    omega
  rw [forIndexes_eq hsupported hreturning hall hcolumns, hnone]
  show _ = b.forNames (List.map _ (List.map _ _))
  rw [map_columnOf_range, forNames_eq hsupported hreturning (by simpa using hcolumns),
    forAllColumns, hreturning, hsupported, hstar, hcons]
  rfl

end Builder

/-! ### Statements that a clause may be put behind -/

/-- The statement `sql` was read as `p` without problems. It is of one of the types and returns
nothing, so a clause may be put behind it. -/
structure TakesClause (sql : Text) (types : QueryTypes) (p : ParsedStatement) : Prop where
  parsed : parse sql = .ok p
  clean : p.isClean = true
  supported : ∃ type, p.statement.type? = some type ∧ types.contains (.ofStatement type) = true
  returning : p.statement.hasReturning = false

namespace TakesClause

variable {sql : Text} {types : QueryTypes} {p : ParsedStatement}

/-- The builder has understood the statement, and what it knows is what was read. -/
theorem statement_eq (h : TakesClause sql types p) :
    (Builder.ofStatement sql types).statement? = some p.statement :=
  understood?_of_clean h.parsed h.clean

/-- Its type is supported, which is one of the conditions for a clause to be put behind it. -/
theorem isSupported (h : TakesClause sql types p) :
    (Builder.ofStatement sql types).isSupported = true := by
  obtain ⟨type, htype, hcontains⟩ := h.supported
  rw [Builder.isSupported, h.statement_eq, Option.bind_some, htype]
  exact hcontains

/-- It returns no columns yet, so a clause is its first one. -/
theorem hasReturning (h : TakesClause sql types p) :
    (Builder.ofStatement sql types).hasReturning = false := by
  rw [Builder.hasReturning, h.statement_eq]
  exact h.returning

/-- Its table is known, and the builder knows it as well, as it is written in the statement. -/
theorem exists_table (h : TakesClause sql types p) :
    ∃ table, p.statement.table? = some table ∧ (Builder.ofStatement sql types).table = table := by
  obtain ⟨type, htype, -⟩ := h.supported
  obtain ⟨table, htable⟩ :=
    Option.isSome_iff_exists.1 (isSome_table_of_clean h.parsed h.clean htype)
  exact ⟨table, htable, Builder.table_ofStatement h.parsed h.clean htable types⟩

end TakesClause

/-- The ways of asking for columns of a table that has columns. Positions succeed exactly if there
is a column at each, and they stand for the written names of these columns then, in the order that
is asked for. Otherwise the first position without a column fails, with the table as it is written
in the statement. To a server that knows no star, asking for all columns is asking for all
positions. -/
theorem selections_agree {sql : Text} {types : QueryTypes} {p : ParsedStatement}
    (h : TakesClause sql types p) :
    ∃ table, p.statement.table? = some table ∧ ∀ (m : Metadata) (columns : List Text),
      m.columns (ObjectName.normalize table) = columns → columns ≠ [] →
      (∀ positions : List Nat, positions ≠ [] →
        ((∃ q, (Builder.ofStatement sql types).forIndexes positions m = .ok q) ↔
          ∀ i ∈ positions, 1 ≤ i ∧ i ≤ columns.length) ∧
        ((∀ i ∈ positions, 1 ≤ i ∧ i ≤ columns.length) →
          (Builder.ofStatement sql types).forIndexes positions m
            = (Builder.ofStatement sql types).forNames (positions.map fun i =>
                (QuoteStrategy.ofDialect m.dialect).quote (columns.getD (i - 1) []))) ∧
        ((¬ ∀ i ∈ positions, 1 ≤ i ∧ i ≤ columns.length) →
          ∃ before i after, positions = before ++ i :: after ∧
            (∀ j ∈ before, 1 ≤ j ∧ j ≤ columns.length) ∧ ¬ (1 ≤ i ∧ i ≤ columns.length) ∧
            (Builder.ofStatement sql types).forIndexes positions m
              = .error (.invalidPosition i table))) ∧
      (m.version.major < 4 →
        (Builder.ofStatement sql types).forAllColumns m
          = (Builder.ofStatement sql types).forIndexes (List.range' 1 columns.length) m) := by
  obtain ⟨table, htable, hbuilder⟩ := h.exists_table
  refine ⟨table, htable, fun m columns hlookup hne => ?_⟩
  -- The builder looks the columns up under the key of the table.
  have hcolumns : (Builder.ofStatement sql types).tableColumns m = columns := by
    rw [Builder.tableColumns, hbuilder, hlookup]
  rw [← hcolumns] at hne ⊢
  refine ⟨fun positions hpositions => ⟨?succeeds, fun hinside => ?named, fun hnot => ?fails⟩,
    fun hversion => ?all⟩
  case succeeds =>
    exact Builder.exists_forIndexes_iff h.isSupported h.hasReturning hpositions hne
  case named =>
    have hnone := Builder.find?_isOutside_eq_none.2 hinside
    rw [Builder.forIndexes_eq h.isSupported h.hasReturning hpositions hne, hnone, List.map_map]
    rfl
  -- The first position that is outside is the one that is named by the error.
  case fails =>
    cases hfind : positions.find?
        (Builder.isOutside ((Builder.ofStatement sql types).tableColumns m)) with
    | none => exact absurd (Builder.find?_isOutside_eq_none.1 hfind) hnot
    | some i =>
        obtain ⟨before, after, hsplit, hbefore, hi⟩ := Builder.exists_first_outside hfind
        refine ⟨before, i, after, hsplit, hbefore, hi, ?_⟩
        rw [Builder.forIndexes_eq h.isSupported h.hasReturning hpositions hne, hfind, hbuilder]
  case all =>
    have hstar : m.version.returnsAll = false := by
      rw [ServerVersion.returnsAll, decide_eq_false_iff_not]
      exact UInt32.not_le.2 hversion
    exact Builder.forAllColumns_eq h.isSupported h.hasReturning hstar hne

/-- Positions in another order and one of them twice, and a position that fails in the middle. -/
theorem selections_agree_reordered :
    (Builder.ofStatement "DELETE FROM t;".toList .full).forIndexes [2, 1, 2] oneTable
        = (Builder.ofStatement "DELETE FROM t;".toList .full).forNames
            ["\"a b\"".toList, "\"ID\"".toList, "\"a b\"".toList] ∧
      (Builder.ofStatement "DELETE FROM t;".toList .full).forIndexes [1, 3, 0] oneTable
        = .error (.invalidPosition 3 "t".toList) ∧
      (Builder.ofStatement "DELETE FROM t;".toList .full).forAllColumns oneTable
        = (Builder.ofStatement "DELETE FROM t;".toList .full).forIndexes [1, 2] oneTable := by
  have htakes : TakesClause "DELETE FROM t;".toList .full
      ⟨⟨some .delete, some "t".toList, [], [], [], false⟩, .none⟩ :=
    ⟨rfl, rfl, ⟨.delete, rfl, rfl⟩, rfl⟩
  obtain ⟨table, htable, hagree⟩ := selections_agree htakes
  cases htable
  obtain ⟨hpositions, hall⟩ := hagree oneTable _ rfl (by decide)
  have hlength : (oneTable.columns (ObjectName.normalize "t".toList)).length = 2 := rfl
  rw [hlength] at hpositions hall
  refine ⟨(hpositions [2, 1, 2] (by decide)).2.1 (by decide), ?_, hall (by decide)⟩
  obtain ⟨before, i, after, hsplit, hbefore, hi, hfails⟩ :=
    (hpositions [1, 3, 0] (by decide)).2.2 (by decide)
  -- The first position is a column, and the second one is not.
  match before, hsplit with
  | [], hsplit =>
      cases hsplit
      exact absurd (by decide) hi
  | [_], hsplit =>
      cases hsplit
      exact hfails
  | _ :: j :: _, hsplit =>
      have hj : 3 = j := by
        rw [List.cons_append, List.cons_append] at hsplit
        exact (List.cons.inj (List.cons.inj hsplit).2).1
      have hinside := hbefore j (by simp)
      omega

end GeneratedKeys
