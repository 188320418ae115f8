import GeneratedKeys.Text.Basic

/-!
# `GeneratedKeys.Statement.Basic`: what is known of a statement

A `Statement` collects the parts of one data-changing statement: its type, its table,
its target columns, its values and the columns that it returns. The parts are kept as
values of a type `α`: places in the text while the statement is being read, and texts
afterwards. Nothing is checked here; a statement that was read with problems may know
only some of its parts.

* `map_record`: turning places into texts commutes with recording a part.
-/

set_option autoImplicit false

namespace GeneratedKeys

/-- The types of statement that change data. Every other statement is refused before any of its
parts is read. -/
inductive StatementType where
  | insert
  | delete
  | update
  | updateOrInsert
  deriving DecidableEq, Repr

/-- The name of a type, as the report of a statement spells it. -/
def StatementType.name : StatementType → String
  | insert => "INSERT"
  | delete => "DELETE"
  | update => "UPDATE"
  | updateOrInsert => "UPDATE_OR_INSERT"

/-- The parts of a statement that are kept. The grammar names them where it reads them. -/
inductive Part where
  | table
  | column
  | value
  | returning
  deriving DecidableEq, Repr

/-- What is known of a statement. The parts are places while the statement is read, and texts once
it is reported. -/
structure Statement (α : Type) where
  type? : Option StatementType
  table? : Option α
  /-- The target columns, in order. -/
  columns : List α
  /-- The values, in order. -/
  values : List α
  /-- The columns of the RETURNING clause, in order. -/
  returning : List α
  /-- Whether the statement inserts default values. -/
  defaultValues : Bool
  deriving DecidableEq, Repr

namespace Statement

variable {α β : Type}

/-- Nothing is known yet: no type, no table and no other part. Reading starts from here. -/
def unknown : Statement α := ⟨none, none, [], [], [], false⟩

/-- Keeps a part. A table replaces the one before it, everything else is appended. -/
def record (p : Part) (a : α) (s : Statement α) : Statement α :=
  match p with
  | .table => { s with table? := some a }
  | .column => { s with columns := s.columns ++ [a] }
  | .value => { s with values := s.values ++ [a] }
  | .returning => { s with returning := s.returning ++ [a] }

/-- Settles the type. It is not known from the first word alone, as an INSERT may follow an UPDATE
OR. -/
def ofType (t : StatementType) (s : Statement α) : Statement α :=
  { s with type? := some t }

/-- Notes that default values are inserted. Such a statement lists no values. -/
def withDefaultValues (s : Statement α) : Statement α :=
  { s with defaultValues := true }

/-- Whether the statement has a RETURNING clause. It is told by the columns kept, so a clause that
was abandoned before its first column does not count. -/
def hasReturning (s : Statement α) : Bool :=
  !s.returning.isEmpty

/-- The same statement with its parts kept in another form. The type and the note about default
values are no parts and stay. -/
def map (f : α → β) (s : Statement α) : Statement β :=
  ⟨s.type?, s.table?.map f, s.columns.map f, s.values.map f, s.returning.map f, s.defaultValues⟩

/-- Changing the form of the parts commutes with keeping one more of them, so it does not matter
whether places are turned into texts early or late. -/
theorem map_record (f : α → β) (p : Part) (a : α) (s : Statement α) :
    (s.record p a).map f = (s.map f).record p (f a) := by
  cases p <;> simp [record, map]

/-- The form in which parts are kept does not matter for whether there is a RETURNING clause. -/
@[simp] theorem hasReturning_map (f : α → β) (s : Statement α) :
    (s.map f).hasReturning = s.hasReturning := by
  simp [hasReturning, map]

end Statement

end GeneratedKeys
