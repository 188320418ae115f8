import GeneratedKeys.Keys.Builder
import GeneratedKeys.Keys.Support

/-!
# `GeneratedKeys.Keys.Request`: requests for generated keys

A request asks for no keys, for all columns, or for columns by position or by name.
`Support.buildQuery` answers it for a statement on a connection.
-/

set_option autoImplicit false

namespace GeneratedKeys

/-- A request for generated keys. The order of positions and names is the order of the columns
returned. -/
inductive Request where
  | noKeys
  | allColumns
  | indexes (positions : List Nat)
  | names (columns : List Text)
  deriving DecidableEq, Repr

/-- The request that a flag stands for: 1 asks for keys, 2 for none. Every other number is an error
that shows it. -/
def Request.ofFlag (flag : Int) : Except KeysError Request :=
  if flag = 1 then .ok .allColumns
  else if flag = 2 then .ok .noKeys
  else .error (.invalidOption flag)

/-- The answer of a builder to a request. Only a request for all columns or for positions looks at
the tables of the connection. -/
def Builder.answer (b : Builder) (m : Metadata) : Request → Except KeysError Query
  | .noKeys => .ok b.forNoKeys
  | .allColumns => b.forAllColumns m
  | .indexes positions => b.forIndexes positions m
  | .names columns => b.forNames columns

/-- The statement to execute for a request. Where keys are switched off, a request for some fails,
and where they are ignored, no request has any effect. -/
def Support.buildQuery (s : Support) (sql : Text) (r : Request) (m : Metadata) :
    Except KeysError Query :=
  match s with
  | .enabled types => (Builder.ofStatement sql types).answer m r
  | .disabled reason =>
    match r with
    | .noKeys => .ok ⟨false, sql⟩
    | _ => .error (.notAvailable reason)
  | .ignored => .ok ⟨false, sql⟩

end GeneratedKeys
