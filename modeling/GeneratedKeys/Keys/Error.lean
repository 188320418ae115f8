import GeneratedKeys.Text.Basic

/-!
# `GeneratedKeys.Keys.Error`: why generated keys cannot be requested

Each error names its cause. `KeysError.message` holds the wording of all of them.
-/

set_option autoImplicit false

namespace GeneratedKeys

/-- Why generated keys are switched off. A request that is refused for it says so in its message. -/
inductive DisabledReason where
  /-- The connection asks for no generated keys. -/
  | explicitlyDisabled
  /-- The server knows no RETURNING clause. -/
  | noReturningSupport
  deriving DecidableEq, Repr

/-- The wording of a reason, as it closes the message of `KeysError.notAvailable`. -/
def DisabledReason.message : DisabledReason → String
  | explicitlyDisabled => "disabled through connection property"
  | noReturningSupport =>
    "This version of Firebird does not support retrieving generated keys " ++
      "(support was added in Firebird 2.0)"

/-- Why a request for generated keys fails. A statement that supports no keys is no failure; it is
executed as given. -/
inductive KeysError where
  | notAvailable (reason : DisabledReason)
  /-- A request by positions names none. -/
  | noIndexes
  /-- A request by names names none. -/
  | noNames
  /-- The table, as written in the statement, has no column at a position. -/
  | invalidPosition (position : Nat) (table : Text)
  /-- The table, as written in the statement, has no known columns. -/
  | noColumns (table : Text)
  /-- A flag that is neither of the two known ones. -/
  | invalidOption (flag : Int)
  /-- A text that is no server version, as given. -/
  | invalidVersion (text : Text)
  deriving DecidableEq, Repr

/-- The wording of an error. Tables appear in it as the statement writes them, and texts as they
were given. -/
def KeysError.message : KeysError → String
  | notAvailable reason =>
    "Generated keys functionality not available, reason: " ++ reason.message
  | noIndexes => "Generated keys array columnIndexes was empty"
  | noNames => "Generated keys array columnNames was empty"
  | invalidPosition position table =>
    "Column position " ++ toString position ++ " does not exist in table " ++ String.ofList table
  | noColumns table =>
    "No columns were found for table " ++ String.ofList table ++ " to build RETURNING clause"
  | invalidOption flag => "Invalid generated keys option: " ++ toString flag
  | invalidVersion text =>
    "Invalid server version '" ++ String.ofList text ++ "': expected MAJOR.MINOR"

end GeneratedKeys
