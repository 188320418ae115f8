import GeneratedKeys.Text.LetterCase

/-!
# `GeneratedKeys.Token.Keyword`: the reserved words

The set of reserved words is closed. A word of the set, in any letter case, is
always a keyword, and every other word is an identifier.

* `ofText?_eq_some_iff`: a text is read as a keyword exactly when it is the
  keyword's spelling up to letter case.
* `spelling_injective`: no two keywords share a spelling.
-/

set_option autoImplicit false

namespace GeneratedKeys

/-- The reserved words. The set is closed, so the kind of a word follows from its spelling alone,
and never from where in a statement it stands. -/
inductive Keyword where
  -- Statements
  | insert | into | update | delete | from | set | or | values | default | matching | returning
  | select | execute | procedure
  -- Values
  | as | cast | collate | null | next | value | for | genId | dbKey | substring | trim | both
  | leading | trailing | extract
  -- Aggregates
  | all | distinct | count | sum | avg | minimum | maximum
  -- Context variables
  | currentUser | currentRole | currentDate | currentTime | currentTimestamp
  -- Data types
  | bigint | blob | char | character | date | decimal | double | float | int | integer | numeric
  | precision | segment | size | smallint | subType | time | timestamp | varchar
  deriving DecidableEq, Repr

namespace Keyword

/-- The spelling in capitals. Messages show it, and `ofText?` compares with it up to letter case. -/
def spelling : Keyword → String
  | .insert => "INSERT"
  | .into => "INTO"
  | .update => "UPDATE"
  | .delete => "DELETE"
  | .from => "FROM"
  | .set => "SET"
  | .or => "OR"
  | .values => "VALUES"
  | .default => "DEFAULT"
  | .matching => "MATCHING"
  | .returning => "RETURNING"
  | .select => "SELECT"
  | .execute => "EXECUTE"
  | .procedure => "PROCEDURE"
  | .as => "AS"
  | .cast => "CAST"
  | .collate => "COLLATE"
  | .null => "NULL"
  | .next => "NEXT"
  | .value => "VALUE"
  | .for => "FOR"
  | .genId => "GEN_ID"
  | .dbKey => "DB_KEY"
  | .substring => "SUBSTRING"
  | .trim => "TRIM"
  | .both => "BOTH"
  | .leading => "LEADING"
  | .trailing => "TRAILING"
  | .extract => "EXTRACT"
  | .all => "ALL"
  | .distinct => "DISTINCT"
  | .count => "COUNT"
  | .sum => "SUM"
  | .avg => "AVG"
  | .minimum => "MIN"
  | .maximum => "MAX"
  | .currentUser => "CURRENT_USER"
  | .currentRole => "CURRENT_ROLE"
  | .currentDate => "CURRENT_DATE"
  | .currentTime => "CURRENT_TIME"
  | .currentTimestamp => "CURRENT_TIMESTAMP"
  | .bigint => "BIGINT"
  | .blob => "BLOB"
  | .char => "CHAR"
  | .character => "CHARACTER"
  | .date => "DATE"
  | .decimal => "DECIMAL"
  | .double => "DOUBLE"
  | .float => "FLOAT"
  | .int => "INT"
  | .integer => "INTEGER"
  | .numeric => "NUMERIC"
  | .precision => "PRECISION"
  | .segment => "SEGMENT"
  | .size => "SIZE"
  | .smallint => "SMALLINT"
  | .subType => "SUB_TYPE"
  | .time => "TIME"
  | .timestamp => "TIMESTAMP"
  | .varchar => "VARCHAR"

/-- Every keyword once, for the search in `ofText?`. That none is missing is `mem_every`. -/
def every : List Keyword :=
  [
    .insert, .into, .update, .delete, .from, .set, .or, .values, .default, .matching, .returning,
    .select, .execute, .procedure, .as, .cast, .collate, .null, .next, .value, .for, .genId,
    .dbKey, .substring, .trim, .both, .leading, .trailing, .extract, .all, .distinct, .count,
    .sum, .avg, .minimum, .maximum, .currentUser, .currentRole, .currentDate, .currentTime,
    .currentTimestamp, .bigint, .blob, .char, .character, .date, .decimal, .double, .float, .int,
    .integer, .numeric, .precision, .segment, .size, .smallint, .subType, .time, .timestamp,
    .varchar
  ]

/-- The keyword that a word spells, in any letter case. Names that spell no keyword are identifiers.
-/
def ofText? (t : Text) : Option Keyword :=
  every.find? fun k => Text.sameIgnoringCase k.spelling.toList t

/-- The list of keywords misses none, so a search in it finds every one. -/
theorem mem_every (k : Keyword) : k ∈ every := by
  cases k <;> decide

/-- The keyword read depends on the small letters only. Two spellings of a word are therefore the
same keyword, or both none. -/
theorem ofText?_congr {s t : Text} (h : Text.lower s = Text.lower t) : ofText? s = ofText? t := by
  simp only [ofText?, Text.sameIgnoringCase, h]

/-- Every keyword is read from its own spelling. It is checked by evaluation over the list of all
keywords, which `mem_every` says is complete. -/
theorem ofText?_spelling (k : Keyword) : ofText? k.spelling.toList = some k := by
  have own : ∀ k ∈ every, ofText? k.spelling.toList = some k := by decide +kernel
  exact own k (mem_every k)

/-- No two keywords are spelled alike, since each of them is what is read from its spelling. -/
theorem spelling_injective (j k : Keyword) (h : j.spelling = k.spelling) : j = k := by
  have := ofText?_spelling j
  rw [h, ofText?_spelling] at this
  exact (Option.some.inj this).symm

/-- A text is read as a keyword exactly when it spells it up to letter case. Neither the order of
the list nor any other keyword matters. -/
theorem ofText?_eq_some_iff {t : Text} {k : Keyword} :
    ofText? t = some k ↔ Text.lower t = Text.lower k.spelling.toList := by
  constructor
  · intro h
    unfold ofText? at h
    have := List.find?_some h
    exact (Text.sameIgnoringCase_iff.1 this).symm
  · intro h
    rw [ofText?_congr h, ofText?_spelling]

end Keyword

end GeneratedKeys
