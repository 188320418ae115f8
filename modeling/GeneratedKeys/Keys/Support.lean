import GeneratedKeys.Keys.Version

/-!
# `GeneratedKeys.Keys.Support`: what a connection supports

The connection property gives a `Mode`; together with the server version it settles for
which types of statement keys are returned. A list in the property can only narrow what
the server supports. If nothing is left of it, requests for keys are ignored.
-/

set_option autoImplicit false

namespace GeneratedKeys

/-- The value of the connection property, which says for which statements keys may be generated. -/
inductive Mode where
  | default
  | disabled
  | ignored
  /-- Keys are returned for the listed types only. -/
  | only (types : QueryTypes)
  deriving DecidableEq, Repr

/-- The mode that a text means. A text that is none of the three words is a list of
types; what is no type in it is passed over. Letter case and blanks around words do
not matter. -/
def Mode.ofText (t : Text) : Mode :=
  let word := Text.lower (Text.trim t)
  if word = [] ∨ word = "default".toList then .default
  else if word = "disabled".toList then .disabled
  else if word = "ignored".toList then .ignored
  else .only (.ofList ((word.splitOn ',').filterMap fun p => QueryType.ofName? (Text.trim p)))

/-- What a connection supports. It is settled once, from the connection property and the version of
the server, and then answers every request. -/
inductive Support where
  /-- Keys are returned for these types. -/
  | enabled (types : QueryTypes)
  /-- Requests for keys fail. -/
  | disabled (reason : DisabledReason)
  /-- Requests for keys have no effect. -/
  | ignored
  deriving DecidableEq, Repr

namespace Support

/-- What a server supports when all of it is wanted, or only what is in `wanted`. -/
def ofVersion (v : ServerVersion) (wanted : Option QueryTypes) : Support :=
  let supported := v.returningSupport
  if supported.isEmpty then .disabled .noReturningSupport
  else
    match wanted with
    | none => .enabled supported
    | some types =>
      if (supported.inter types).isEmpty then .ignored else .enabled (supported.inter types)

/-- What a connection with a mode supports on a server. The two modes that switch keys off do so on
every server; the others depend on its version. -/
def configure (m : Mode) (v : ServerVersion) : Support :=
  match m with
  | .disabled => .disabled .explicitlyDisabled
  | .ignored => .ignored
  | .default => ofVersion v none
  | .only types => ofVersion v (some types)

/-- The types for which keys are returned. When generated keys are off, for whichever reason, there
is none. -/
def types : Support → QueryTypes
  | enabled types => types
  | disabled _ | ignored => .empty

/-- Whether keys are returned at all. The two other cases differ in how a request for keys is
answered: an error, or the statement as given. -/
def isEnabled : Support → Bool
  | enabled _ => true
  | disabled _ | ignored => false

end Support

end GeneratedKeys
