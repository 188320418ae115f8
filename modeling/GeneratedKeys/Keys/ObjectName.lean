import GeneratedKeys.Text.Blank
import GeneratedKeys.Text.Quoted
import GeneratedKeys.Text.UpperCase

/-!
# `GeneratedKeys.Keys.ObjectName`: names of tables and columns

A server stores unquoted names in upper case and quoted names as they are. `normalize`
goes from the name as written in a statement to the stored one, and a `QuoteStrategy`
says how a stored name is written into a statement again.

* `normalize_quote`: a stored name that is written between quotes means itself.
-/

set_option autoImplicit false

namespace GeneratedKeys

namespace ObjectName

/-- What stands between the quotes of a quoted name. A pair of quotes with nothing
between them is no quoted name. -/
def inside? (t : Text) : Option Text :=
  if 2 < t.length ∧ t.head? = some '"' ∧ t.getLast? = some '"' then some (t.drop 1).dropLast
  else none

/-- The stored form of a name as written. A quoted name keeps its letters, and any other is stored
in capitals. -/
def normalize (t : Text) : Text :=
  match inside? (Text.trim t) with
  | some s => Text.collapse '"' s
  | none => Text.upper (Text.trim t)

end ObjectName

/-- How stored names are written into a statement. It follows from the dialect of the connection. -/
inductive QuoteStrategy where
  /-- As they are. -/
  | plain
  /-- Between double quotes, with inner quotes doubled. -/
  | doubleQuotes
  deriving DecidableEq, Repr

namespace QuoteStrategy

/-- Quoted names exist from dialect 3 on. Below it the double quotes would stand for a string. -/
def ofDialect (dialect : Nat) : QuoteStrategy :=
  if 3 ≤ dialect then .doubleQuotes else .plain

/-- The written form of a stored name. Between quotes every stored name can be written, also one
with blanks, small letters or quotes. -/
def quote : QuoteStrategy → Text → Text
  | plain, name => name
  | doubleQuotes, name => Text.quote '"' name

/-- A text with a written name behind it. Nothing is put between them, so a separator is the
caller's. -/
def append (s : QuoteStrategy) (name : Text) (t : Text) : Text :=
  t ++ s.quote name

end QuoteStrategy

namespace ObjectName

/-- A name between quotes has no blank at its ends, so nothing is trimmed from it. -/
theorem trim_quote (name : Text) : Text.trim (Text.quote '"' name) = Text.quote '"' name := by
  have start : Text.trimStart (Text.quote '"' name) = Text.quote '"' name := by
    rw [Text.quote, Text.trimStart, List.cons_append, List.dropWhile_cons_of_neg (by decide)]
  rw [Text.trim, start, Text.quote, Text.trimEnd_append_singleton _ _ (by decide)]

/-- A stored name that is written between quotes means itself: what `quote` doubles, `normalize`
reads back. The empty name is the exception, as an empty pair of quotes is taken as it stands. -/
theorem normalize_quote (name : Text) (h : name ≠ []) : normalize (Text.quote '"' name) = name := by
  have inner : inside? (Text.quote '"' name) = some (Text.double '"' name) := by
    have long : 0 < (Text.double '"' name).length := by
      cases name with
      | nil => exact absurd rfl h
      | cons c name => rw [Text.double_cons]; split <;> simp
    rw [inside?, if_pos]
    · simp [Text.quote]
    · refine ⟨?_, rfl, ?_⟩
      · simp only [Text.quote, List.length_append, List.length_cons, List.length_nil]
        omega
      · exact List.getLast?_concat
  rw [normalize, trim_quote, inner]
  exact Text.collapse_double '"' name

end ObjectName

end GeneratedKeys
