import GeneratedKeys.Keys.Metadata
import GeneratedKeys.Keys.ObjectName
import GeneratedKeys.Statement.Parse

/-!
# `GeneratedKeys.Keys.Builder`: statements that return generated keys

A `Builder` holds a statement as given and, if it could be read without a problem, what
is known of it. A request for keys leaves the statement alone in three cases: it was
not understood, its type is not supported, or it returns columns already. Otherwise a
RETURNING clause is appended.
-/

set_option autoImplicit false

namespace GeneratedKeys

/-- A statement to execute, and whether executing it returns keys. The text is either the one given
or that text with a clause behind it. -/
structure Query where
  generatesKeys : Bool
  sql : Text
  deriving DecidableEq, Repr

/-- A statement for which keys may be requested. What is known of it is kept only if it was read
without a problem, so a statement with problems is never changed. -/
structure Builder where
  /-- The statement as given. -/
  sql : Text
  /-- What is known of it, if it was understood. -/
  statement? : Option (Statement Text)
  supported : QueryTypes
  deriving DecidableEq, Repr

/-- What is known of a statement that was read without a problem. For any other statement the answer
is nothing, and it is never changed. -/
def understood? (sql : Text) : Option (Statement Text) :=
  match parse sql with
  | .ok p => if p.isClean ∧ p.statement.type?.isSome then some p.statement else none
  | .error _ => none

/-- The text without one semicolon at its end. Only the last character is looked at: blanks have
been trimmed, but a comment behind the semicolon hides it. -/
def withoutSemicolon (t : Text) : Text :=
  if t.getLast? = some ';' then t.dropLast else t

/-- The statement with a RETURNING clause of the given items. The clause stands on a line of its
own, so a comment at the end of the statement does not swallow it. -/
def withReturning (sql : Text) (items : List Text) : Text :=
  withoutSemicolon (Text.trimEnd sql) ++ "\nRETURNING ".toList ++ [','].intercalate items

namespace Builder

/-- A builder for a statement, given the types for which keys are returned. The statement is read
here, once for all requests. -/
def ofStatement (sql : Text) (supported : QueryTypes) : Builder :=
  ⟨sql, understood? sql, supported⟩

/-- Whether the statement was understood and keys are returned for its type. No clause is put behind
any other statement. -/
def isSupported (b : Builder) : Bool :=
  match b.statement?.bind (·.type?) with
  | some t => b.supported.contains (.ofStatement t)
  | none => false

/-- Whether the statement returns columns already. Such a statement is never given a second clause.
-/
def hasReturning (b : Builder) : Bool :=
  b.statement?.any (·.hasReturning)

/-- The table of the statement, as written. Its columns are looked up by the stored name. -/
def table (b : Builder) : Text :=
  (b.statement?.bind (·.table?)).getD []

/-- The columns of the table of the statement, in the order in which positions count them. An
unknown table has none. -/
def tableColumns (b : Builder) (m : Metadata) : List Text :=
  m.columns (ObjectName.normalize b.table)

/-- The statement as given, character by character, with the word of the caller on whether it
returns keys. -/
def unchanged (b : Builder) (generatesKeys : Bool) : Query :=
  ⟨generatesKeys, b.sql⟩

/-- The statement with a RETURNING clause of the given items, which are already in their written
form. -/
def returning (b : Builder) (items : List Text) : Query :=
  ⟨true, withReturning b.sql items⟩

/-- No keys are requested. The statement is executed as given, and returns keys if it has a clause
of its own. -/
def forNoKeys (b : Builder) : Query :=
  b.unchanged b.hasReturning

/-- All columns are requested. A server that knows the star is sent the star; for an older one the
columns are listed, quoted as its dialect has it, and a table without known columns is an error. -/
def forAllColumns (b : Builder) (m : Metadata) : Except KeysError Query :=
  if b.hasReturning then .ok (b.unchanged true)
  else if !b.isSupported then .ok (b.unchanged false)
  else if m.version.returnsAll then .ok (b.returning [['*']])
  else
    match b.tableColumns m with
    | [] => .error (.noColumns b.table)
    | cs => .ok (b.returning (cs.map (QuoteStrategy.ofDialect m.dialect).quote))

/-- The column at a position, counted from 1. A position outside the table is an error that names
both. -/
def columnAt (columns : List Text) (table : Text) (position : Nat) : Except KeysError Text :=
  match position with
  | 0 => .error (.invalidPosition 0 table)
  | i + 1 =>
    match columns[i]? with
    | some c => .ok c
    | none => .error (.invalidPosition (i + 1) table)

/-- The columns at the given positions are requested. A list without positions is refused even for a
statement that was not understood, while a statement that returns columns already is never refused.
Each position is looked up in the table, and the first one that is no column of it is the error. -/
def forIndexes (b : Builder) (indexes : List Nat) (m : Metadata) : Except KeysError Query :=
  if b.hasReturning then .ok (b.unchanged true)
  else if indexes.isEmpty then .error .noIndexes
  else if !b.isSupported then .ok (b.unchanged false)
  else
    match b.tableColumns m with
    | [] => .error (.noColumns b.table)
    | cs => do
      let chosen ← indexes.mapM (columnAt cs b.table)
      return b.returning (chosen.map (QuoteStrategy.ofDialect m.dialect).quote)

/-- The columns of the given names are requested, in the order given. The names are written as they
are, so the table is not looked up and cannot be the reason of an error. -/
def forNames (b : Builder) (names : List Text) : Except KeysError Query :=
  if b.hasReturning then .ok (b.unchanged true)
  else if names.isEmpty then .error .noNames
  else if !b.isSupported then .ok (b.unchanged false)
  else .ok (b.returning names)

end Builder

end GeneratedKeys
