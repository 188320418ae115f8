import GeneratedKeys.Keys.Version

/-!
# `GeneratedKeys.Keys.Metadata`: what is known of a server's tables

The columns of a table are listed in their order, so that the first one has position 1.
Tables are known by their stored names.
-/

set_option autoImplicit false

namespace GeneratedKeys

/-- A connection with the columns of its tables. Tables go by their stored names. -/
structure Metadata where
  version : ServerVersion
  dialect : Nat
  /-- The tables with their columns. Of two entries for one name the first counts. -/
  tables : List (Text × List Text)
  deriving DecidableEq, Repr

namespace Metadata

/-- A connection of which no table is known. Only requests that list the columns of a table need
one. -/
def ofConnection (version : ServerVersion) (dialect : Nat) : Metadata :=
  ⟨version, dialect, []⟩

/-- Adds a table, in place of the one of its name. The old entry stays behind it and is not found
any more. -/
def withTable (name : Text) (columns : List Text) (m : Metadata) : Metadata :=
  { m with tables := (name, columns) :: m.tables }

/-- The columns of a table. An unknown table has none, which is not told apart from a table without
columns. -/
def columns (m : Metadata) (table : Text) : List Text :=
  (m.tables.lookup table).getD []

/-- A table that was added is found with its columns, whether or not its name was known before. -/
@[simp] theorem columns_withTable_self (m : Metadata) (name : Text) (cs : List Text) :
    (m.withTable name cs).columns name = cs := by
  simp [columns, withTable]

/-- Adding a table does not change what is found for another name. -/
theorem columns_withTable_of_ne (m : Metadata) {name table : Text} (h : table ≠ name)
    (cs : List Text) : (m.withTable name cs).columns table = m.columns table := by
  have hname : (table == name) = false := by simpa using h
  simp only [columns, withTable, List.lookup_cons, hname]

end Metadata

end GeneratedKeys
