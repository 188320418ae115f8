import GeneratedKeys.Keys.Error
import GeneratedKeys.Keys.QueryType
import GeneratedKeys.Text.Blank
import GeneratedKeys.Text.Number

/-!
# `GeneratedKeys.Keys.Version`: server versions

A version is a major and a minor number of 32 bits each. It is written `MAJOR.MINOR`,
and a bare `MAJOR` means `MAJOR.0`. Versions are compared by major, then by minor
number; later versions return keys for more types of statement.
-/

set_option autoImplicit false

namespace GeneratedKeys

/-- A server version of two numbers. The major one counts first, as `returningSupport` and
`returnsAll` have it. -/
structure ServerVersion where
  major : UInt32
  minor : UInt32
  deriving DecidableEq, Repr

namespace ServerVersion

/-- Comparison by major, then by minor number. -/
instance : Ord ServerVersion where
  compare v w := (compare v.major w.major).then (compare v.minor w.minor)

/-- No version comes before itself or an earlier one. -/
instance : LE ServerVersion where
  le v w := v.major < w.major ∨ (v.major = w.major ∧ v.minor ≤ w.minor)

instance (v w : ServerVersion) : Decidable (v ≤ w) :=
  inferInstanceAs (Decidable (v.major < w.major ∨ (v.major = w.major ∧ v.minor ≤ w.minor)))

/-- The written form, the two numbers with a point between them. It is read back as the same
version. -/
def text (v : ServerVersion) : Text :=
  Text.decimal v.major.toNat ++ '.' :: Text.decimal v.minor.toNat

/-- A part of a version: a number of 32 bits. Leading zeros and a plus sign are accepted, so a
version has more than one written form. -/
def part? (t : Text) : Option UInt32 :=
  (Text.number? (Nat.pow 2 32) t).map UInt32.ofNat

/-- What stands before and behind the first point. Without a point, `0` stands
behind. -/
def halves (t : Text) : Text × Text :=
  match t.dropWhile (· ≠ '.') with
  | [] => (t, ['0'])
  | _ :: minor => (t.takeWhile (· ≠ '.'), minor)

/-- The version that a text means, blanks at its ends aside. What follows a second point belongs to
the minor part, which then is no number. -/
def ofText? (t : Text) : Option ServerVersion :=
  let (major, minor) := halves (Text.trim t)
  match part? major, part? minor with
  | some major, some minor => some ⟨major, minor⟩
  | _, _ => none

/-- The version that a text means, or an error that shows the text as it is. -/
def ofText (t : Text) : Except KeysError ServerVersion :=
  match ofText? t with
  | some v => .ok v
  | none => .error (.invalidVersion t)

/-- Whether a RETURNING clause may ask for all columns by a star, which servers know from version 4
on. -/
def returnsAll (v : ServerVersion) : Bool :=
  4 ≤ v.major

/-- The types of statement that may have a RETURNING clause. Before version 2 there is none, then
that of INSERT, and from 2.1 on all of them. -/
def returningSupport (v : ServerVersion) : QueryTypes :=
  if ⟨2, 1⟩ ≤ v then .full
  else if ⟨2, 0⟩ ≤ v then .ofList [.insert]
  else .empty

end ServerVersion

end GeneratedKeys
