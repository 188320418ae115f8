import GeneratedKeys.Statement.Basic
import GeneratedKeys.Text.LetterCase

/-!
# `GeneratedKeys.Keys.QueryType`: types of statement that can return keys

A `QueryTypes` is a set of the four types that generated keys can be configured for.

* `ext_iff`: two sets are equal exactly when they have the same members.
-/

set_option autoImplicit false

namespace GeneratedKeys

/-- A type of statement, as the connection property names it. There is one for each type of
statement that can be read. -/
inductive QueryType where
  | insert
  | update
  | delete
  | updateOrInsert
  deriving DecidableEq, Repr

namespace QueryType

/-- Every type once, in the order in which sets list them. That none is missing is `mem_every`. -/
def every : List QueryType :=
  [.insert, .update, .delete, .updateOrInsert]

/-- The name in the connection property, in small letters. -/
def name : QueryType → String
  | insert => "insert"
  | update => "update"
  | delete => "delete"
  | updateOrInsert => "update_or_insert"

/-- The type that a name means, in any letter case. Blanks around the name are for the caller to
trim. -/
def ofName? (t : Text) : Option QueryType :=
  every.find? fun q => Text.sameIgnoringCase q.name.toList t

/-- The type of a statement, by which it is looked up in the set of supported types. -/
def ofStatement : StatementType → QueryType
  | .insert => .insert
  | .update => .update
  | .delete => .delete
  | .updateOrInsert => .updateOrInsert

/-- The list of types misses none, so a check over the list is a check over all types. -/
theorem mem_every (q : QueryType) : q ∈ every := by
  cases q <;> decide

end QueryType

/-- A set of types. With one flag for each type, sets with the same members are equal. -/
structure QueryTypes where
  insert : Bool
  update : Bool
  delete : Bool
  updateOrInsert : Bool
  deriving DecidableEq, Repr

namespace QueryTypes

/-- Membership. Two sets with the same members are equal, by `ext_iff`. -/
def contains (s : QueryTypes) : QueryType → Bool
  | .insert => s.insert
  | .update => s.update
  | .delete => s.delete
  | .updateOrInsert => s.updateOrInsert

/-- The set of the types that satisfy `p`. Every other set is built by it, so `contains_ofPredicate`
decides membership in all of them. -/
def ofPredicate (p : QueryType → Bool) : QueryTypes :=
  ⟨p .insert, p .update, p .delete, p .updateOrInsert⟩

/-- The set of the listed types. Order and repetition in the list do not matter. -/
def ofList (l : List QueryType) : QueryTypes :=
  ofPredicate l.contains

/-- The set of all types, for a server that knows a RETURNING clause in all of them. -/
def full : QueryTypes := ofPredicate fun _ => true

/-- The set of no type, for a server without RETURNING clauses and for a connection that wants none.
-/
def empty : QueryTypes := ofPredicate fun _ => false

/-- The common members, as when a connection wants only some of the types that its server supports.
-/
def inter (s t : QueryTypes) : QueryTypes :=
  ofPredicate fun q => s.contains q && t.contains q

/-- The members in order, each once. The order is that of `every` and not that in which they were
listed. -/
def toList (s : QueryTypes) : List QueryType :=
  QueryType.every.filter s.contains

/-- Whether there is no member. A mode that leaves none is told apart from one that is switched off.
-/
def isEmpty (s : QueryTypes) : Bool :=
  s.toList.isEmpty

/-- The members of `ofPredicate p` are the types that satisfy `p`. Membership in every other set is
decided by this. -/
@[simp] theorem contains_ofPredicate (p : QueryType → Bool) (q : QueryType) :
    (ofPredicate p).contains q = p q := by
  cases q <;> rfl

/-- The members of `ofList l` are the types in the list, however often each is there. -/
@[simp] theorem contains_ofList (l : List QueryType) (q : QueryType) :
    (ofList l).contains q = l.contains q :=
  contains_ofPredicate _ q

/-- Every type is a member of the full set. -/
@[simp] theorem contains_full (q : QueryType) : full.contains q = true :=
  contains_ofPredicate _ q

/-- No type is a member of the empty set. -/
@[simp] theorem contains_empty (q : QueryType) : empty.contains q = false :=
  contains_ofPredicate _ q

/-- The members of an intersection are the common ones, so it never has a type that one of the two
lacks. -/
@[simp] theorem contains_inter (s t : QueryTypes) (q : QueryType) :
    (s.inter t).contains q = (s.contains q && t.contains q) :=
  contains_ofPredicate _ q

/-- Two sets are equal exactly when they have the same members, so a set is determined by what
`contains` says. -/
theorem ext_iff {s t : QueryTypes} : s = t ↔ ∀ q, s.contains q = t.contains q := by
  refine ⟨fun h q => by rw [h], fun h => ?_⟩
  cases s
  cases t
  simpa [contains] using And.intro (h .insert) (And.intro (h .update) (And.intro (h .delete)
    (h .updateOrInsert)))

/-- The listed members are the members: listing a set and asking it for a type agree. -/
@[simp] theorem mem_toList {s : QueryTypes} {q : QueryType} :
    q ∈ s.toList ↔ s.contains q = true := by
  simp [toList, QueryType.mem_every]

/-- A set is empty if it has no member, told type by type and not by how it is stored. -/
theorem isEmpty_iff {s : QueryTypes} : s.isEmpty = true ↔ ∀ q, s.contains q = false := by
  simp [isEmpty, toList, QueryType.mem_every]

end QueryTypes

end GeneratedKeys
