import GeneratedKeys.Command.Run
import GeneratedKeys.Proofs.Keys.Lookup

/-!
# `GeneratedKeys.Proofs.Command.TableColumns`: columns given on the command line

The columns of the statement's table may be given as an option. The program parses the statement
to find the table that they are for, tolerating all problems, and the builder parses it again and
looks up the table only if there are none. Both derive the key in the same way, so the builder
finds what was given wherever it looks.

* `QueryOptions.tableColumns_metadata`: where they are looked up, they are those given.
* `QueryOptions.exists_queryFor_indexes_iff`: the positions that can be asked for.
* `given_columns_are_found`: all of it for every request, and for the one that the options make.
-/

set_option autoImplicit false

namespace GeneratedKeys

/-! ### Columns of the statement's table -/

namespace QueryOptions

variable {o : QueryOptions} {sql : Text}

/-- The connection has the version of the options, with or without the columns of a table. -/
theorem version_metadata (o : QueryOptions) (sql : Text) :
    (o.metadata sql).version = o.version := by
  rw [metadata]
  split
  · rfl
  · split <;> rfl

/-- The columns of the table of a supported statement are those that were given, however the
statement spells the name of its table. -/
theorem tableColumns_metadata (h : o.tableColumns ≠ []) {types : QueryTypes}
    (hsupported : (Builder.ofStatement sql types).isSupported = true) :
    (Builder.ofStatement sql types).tableColumns (o.metadata sql) = o.tableColumns := by
  obtain ⟨p, hp, hclean, htype⟩ := parse_of_isSupported hsupported
  obtain ⟨type, htype⟩ := Option.isSome_iff_exists.1 htype
  obtain ⟨table, htable⟩ := Option.isSome_iff_exists.1 (isSome_table_of_clean hp hclean htype)
  obtain ⟨c, cs, hcs⟩ := List.exists_cons_of_ne_nil h
  have hmetadata : o.metadata sql
      = (Metadata.ofConnection o.version o.dialect).withTable (ObjectName.normalize table)
          o.tableColumns := by
    simp only [metadata, hp, htable, hcs]
  rw [Builder.tableColumns, Builder.table_ofStatement hp hclean htable, hmetadata,
    Metadata.columns_withTable_self]

/-- With columns given, columns are always found, so this one error is never the answer to any
request. -/
theorem queryFor_ne_noColumns (h : o.tableColumns ≠ []) (sql table : Text) (r : Request) :
    o.queryFor sql r ≠ .error (.noColumns table) := by
  rw [queryFor]
  unfold Support.buildQuery
  split
  · next types =>
    intro herror
    obtain ⟨hlooksUp, hnil⟩ := Builder.looksUp_of_noColumns herror
    rw [tableColumns_metadata h hlooksUp.isSupported] at hnil
    exact h hnil
  · intro herror
    split at herror <;> cases herror
  · intro herror
    cases herror

/-- For a statement that a clause is put behind, positions can be asked for exactly if there are
some, and all of them are positions of columns given. -/
theorem exists_queryFor_indexes_iff (h : o.tableColumns ≠ []) {types : QueryTypes}
    {p : ParsedStatement} (henabled : Support.configure o.mode o.version = .enabled types)
    (htakes : TakesClause sql types p) (positions : List Nat) :
    (∃ q, o.queryFor sql (.indexes positions) = .ok q) ↔
      positions ≠ [] ∧ ∀ i ∈ positions, 1 ≤ i ∧ i ≤ o.tableColumns.length := by
  -- The builder sees the columns that were given.
  have hcolumns : (Builder.ofStatement sql types).tableColumns (o.metadata sql)
      = o.tableColumns := tableColumns_metadata h htakes.isSupported
  have hquery : o.queryFor sql (.indexes positions)
      = (Builder.ofStatement sql types).forIndexes positions (o.metadata sql) := by
    rw [queryFor, henabled]
    rfl
  rw [hquery]
  by_cases hpositions : positions = []
  · -- An empty list fails before the statement is looked at.
    subst hpositions
    rw [Builder.forIndexes, htakes.hasReturning]
    refine iff_of_false ?_ fun hnot => hnot.1 rfl
    rintro ⟨q, hq⟩
    cases hq
  -- With columns to choose from, positions succeed exactly if each has one.
  · have hiff := Builder.exists_forIndexes_iff (m := o.metadata sql) htakes.isSupported
      htakes.hasReturning hpositions (by rwa [hcolumns])
    rw [hiff, hcolumns, and_iff_right hpositions]

/-! ### The request of the options -/

/-- Positions are asked for only if there are some, so the error of an empty list of positions never
comes from a command line. -/
theorem request_ne_indexes_nil (o : QueryOptions) : o.request ≠ .indexes [] := by
  intro hrequest
  rw [request] at hrequest
  split at hrequest
  · cases hrequest
  · split at hrequest
    · next hindexes => exact hindexes (Request.indexes.inj hrequest)
    · split at hrequest <;> cases hrequest

/-- Without names, positions are what is asked for, as they count before the request for all
columns. -/
theorem request_eq_indexes (hcolumns : o.columns = []) (hindexes : o.indexes ≠ []) :
    o.request = .indexes o.indexes := by
  rw [request, if_neg (not_not.2 hcolumns), if_pos hindexes]

end QueryOptions

/-- With columns given for the table of the statement, columns are never missing. Where the
builder looks them up it sees those that were given, in order; where it does not, no other tables
would change the answer. So a list of positions succeeds exactly if it is not empty and each
position is one of a column given. The request that the options make never has an empty list of
positions, so for it the positions alone decide. -/
theorem given_columns_are_found (o : QueryOptions) (sql : Text) (h : o.tableColumns ≠ []) :
    (∀ r table, o.queryFor sql r ≠ .error (.noColumns table)) ∧
    (∀ r types, (Builder.ofStatement sql types).LooksUp o.version r →
      (Builder.ofStatement sql types).tableColumns (o.metadata sql) = o.tableColumns) ∧
    (∀ r types (m : Metadata), m.version = o.version →
      ¬ (Builder.ofStatement sql types).LooksUp o.version r →
      (Builder.ofStatement sql types).answer (o.metadata sql) r
        = (Builder.ofStatement sql types).answer m r) ∧
    (∀ types p positions, Support.configure o.mode o.version = .enabled types →
      TakesClause sql types p →
      ((∃ q, o.queryFor sql (.indexes positions) = .ok q) ↔
        positions ≠ [] ∧ ∀ i ∈ positions, 1 ≤ i ∧ i ≤ o.tableColumns.length)) ∧
    o.request ≠ .indexes [] ∧
    ∀ types p, Support.configure o.mode o.version = .enabled types → TakesClause sql types p →
      o.columns = [] → o.indexes ≠ [] →
      ((∃ q, o.query sql = .ok q) ↔ ∀ i ∈ o.indexes, 1 ≤ i ∧ i ≤ o.tableColumns.length) := by
  refine ⟨fun r table => o.queryFor_ne_noColumns h sql table r, ?sees, ?others, ?positions,
    o.request_ne_indexes_nil, ?options⟩
  case sees =>
    exact fun r types hlooksUp => QueryOptions.tableColumns_metadata h hlooksUp.isSupported
  case others =>
    intro r types m hversion hnot
    -- The version of the connection does not depend on the tables it knows.
    have hmetadata := o.version_metadata sql
    exact Builder.answer_congr (hmetadata.trans hversion.symm) (by rwa [hmetadata])
  case positions =>
    intro types p positions henabled htakes
    exact QueryOptions.exists_queryFor_indexes_iff h henabled htakes positions
  case options =>
    intro types p henabled htakes hcolumns hindexes
    rw [QueryOptions.query, QueryOptions.request_eq_indexes hcolumns hindexes,
      QueryOptions.exists_queryFor_indexes_iff h henabled htakes, and_iff_right hindexes]

/-- Two positions in a table of two columns, on a connection with all settings left out. -/
def twoPositions : QueryOptions where
  sql := "INSERT INTO \"T\" (A) VALUES (1)".toList
  columns := []
  indexes := [2, 1]
  allColumns := false
  tableColumns := ["ID".toList, "a b".toList]
  version := ⟨4, 0⟩
  dialect := 3
  mode := .default
  json := false

/-- The table is written between quotes, and the options are those of a command line, which reads
both positions from one list. -/
theorem given_columns_are_found_quoted :
    (∃ q, twoPositions.query twoPositions.sql = .ok q) ∧
      (Builder.ofStatement twoPositions.sql .full).tableColumns
        (twoPositions.metadata twoPositions.sql) = ["ID".toList, "a b".toList] ∧
      Command.ofArguments? ⟨none, none, none⟩ false ["rewrite".toList, "--indexes=2,1".toList,
        "--table-columns".toList, "ID,a b".toList, twoPositions.sql]
          = some (.query twoPositions) ∧
      twoPositions.request ≠ .indexes [] := by
  obtain ⟨-, hsees, -, -, hrequest, hoptions⟩ :=
    given_columns_are_found twoPositions twoPositions.sql (by decide)
  -- The statement is read without problems and returns nothing.
  have htakes : TakesClause twoPositions.sql .full
      ⟨⟨some .insert, some "\"T\"".toList, [['A']], [['1']], [], false⟩, .none⟩ :=
    ⟨rfl, rfl, ⟨.insert, rfl, rfl⟩, rfl⟩
  refine ⟨?_, ?_, by decide +kernel, hrequest⟩
  · exact (hoptions .full _ rfl htakes rfl (by decide)).2 (by decide)
  · exact hsees twoPositions.request .full
      ⟨htakes.hasReturning, by decide, htakes.isSupported⟩

end GeneratedKeys
