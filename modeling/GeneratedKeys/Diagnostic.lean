import GeneratedKeys.Text.Span

/-!
# `GeneratedKeys.Diagnostic`: problems found in a statement

Every problem is recorded in the order in which it is met, and every one counts as
a mismatch: a statement with any is never extended. The mismatches are counted beside the
list of problems, one with every problem that is recorded.

* `Diagnostics.record`: the only way in which a problem enters.
* `Diagnostics.recordAll_eq`: what many records in a row lead to.
* `Diagnostics.Counted`: the counter agrees with the list, which `record` keeps so.
-/

set_option autoImplicit false

namespace GeneratedKeys

/-- How a problem was handled. The three kinds belong to the three parties that meet problems: the
lexer, the recovery inside a rule, and the statement as a whole. -/
inductive DiagnosticKind where
  /-- A piece of text that is no token; it was passed over. -/
  | lexical
  /-- A stray token was dropped or a missing one assumed. -/
  | recovered
  /-- The grammar could not go on; the rest of the statement was skipped. -/
  | abandoned
  deriving DecidableEq, Repr

/-- The wording of a kind in messages, in front of the message proper. -/
def DiagnosticKind.describe : DiagnosticKind → String
  | lexical => "lexical error"
  | recovered => "recovered"
  | abandoned => "syntax error"

/-- One problem. The span is the place that the message is about, in bytes of the text. -/
structure Diagnostic where
  kind : DiagnosticKind
  message : String
  span : Span
  deriving DecidableEq, Repr

/-- The position clause that closes a message, with both byte offsets of the span. -/
def Span.clause (s : Span) : String :=
  " at position " ++ toString s.start ++ ".." ++ toString s.stop

/-- The problem in one line: kind, message and place. It is the form in which a statement reports
its problems. -/
def Diagnostic.render (d : Diagnostic) : String :=
  d.kind.describe ++ ": " ++ d.message ++ d.span.clause

/-- The problems of one statement, in the order in which they were met. The counter is kept beside
the list, as a state that is changed with it; `Counted` says that the two agree. -/
structure Diagnostics where
  entries : List Diagnostic
  /-- The number of mismatches. -/
  count : Nat
  deriving DecidableEq, Repr

namespace Diagnostics

/-- No problems, and a counter of zero. Every collection starts from here. -/
def none : Diagnostics := ⟨[], 0⟩

/-- One more problem. It comes last, and the counter goes up by one. -/
def record (ds : Diagnostics) (d : Diagnostic) : Diagnostics :=
  ⟨ds.entries ++ [d], ds.count + 1⟩

/-- More problems, recorded one after the other, so the counter goes up once for each of them. -/
def recordAll (ds : Diagnostics) (es : List Diagnostic) : Diagnostics :=
  es.foldl record ds

/-- The problems of both, those of `ds` first. Those of `es` are recorded once more, one by one. -/
def append (ds es : Diagnostics) : Diagnostics :=
  ds.recordAll es.entries

/-- Whether nothing was recorded. It is told by the list, and `Counted.count_eq_zero_iff` says that
the counter tells the same. -/
def isEmpty (ds : Diagnostics) : Bool :=
  ds.entries.isEmpty

/-- Whether a problem of the kind was recorded. It tells a statement that was repaired from one that
was given up. -/
def contains (ds : Diagnostics) (kind : DiagnosticKind) : Bool :=
  ds.entries.any (·.kind == kind)

/-- The problems in one line each, in the order in which they were met. -/
def messages (ds : Diagnostics) : List String :=
  ds.entries.map Diagnostic.render

/-! ### Many problems -/

/-- Problems that are recorded one after the other come behind those recorded before, and each of
them bumps the counter. The induction is on the problems, with the earlier ones arbitrary. -/
theorem recordAll_eq (ds : Diagnostics) (es : List Diagnostic) :
    ds.recordAll es = ⟨ds.entries ++ es, ds.count + es.length⟩ := by
  induction es generalizing ds with
  | nil => simp [recordAll]
  | cons e es ih =>
      have hrest : ds.recordAll (e :: es) = (ds.record e).recordAll es := rfl
      rw [hrest, ih, record, List.append_assoc, Nat.add_assoc, Nat.add_comm 1]
      rfl

/-- The entries after many records, without the counter. Most proofs about the problems of a
statement need no more than this. -/
@[simp] theorem entries_recordAll (ds : Diagnostics) (es : List Diagnostic) :
    (ds.recordAll es).entries = ds.entries ++ es := by
  rw [recordAll_eq]

/-- The entries of both lists side by side, those recorded first in front. -/
@[simp] theorem entries_append (ds es : Diagnostics) :
    (ds.append es).entries = ds.entries ++ es.entries :=
  entries_recordAll ds es.entries

/-- Where nothing was recorded there is no entry. -/
@[simp] theorem entries_none : none.entries = [] := rfl

/-- Recording no problem changes nothing, the counter included. -/
@[simp] theorem recordAll_nil (ds : Diagnostics) : ds.recordAll [] = ds := rfl

/-- Recording two lists is recording the first one and then the other. -/
theorem recordAll_append (ds : Diagnostics) (es fs : List Diagnostic) :
    ds.recordAll (es ++ fs) = (ds.recordAll es).recordAll fs :=
  List.foldl_append

/-- The same for a collection without problems, which is why reading a text without faulty tokens
leaves the problems as they were. -/
@[simp] theorem append_none (ds : Diagnostics) : ds.append none = ds := rfl

/-- What was recorded from nothing can be recorded again behind other problems. -/
@[simp] theorem append_recordAll (ds : Diagnostics) (es : List Diagnostic) :
    ds.append (none.recordAll es) = ds.recordAll es := by
  rw [append, entries_recordAll]
  rfl

/-! ### The counter -/

/-- The counter tells the number of problems. It does so for every collection that was made by
recording. -/
def Counted (ds : Diagnostics) : Prop :=
  ds.count = ds.entries.length

/-- The counter is right before anything is recorded. -/
theorem counted_none : Counted none := rfl

/-- A record adds one on both sides, so a counter that was right stays right. This is the step lemma
of the counter. -/
theorem Counted.record {ds : Diagnostics} (h : ds.Counted) (d : Diagnostic) :
    (ds.record d).Counted := by
  show ds.count + 1 = (ds.entries ++ [d]).length
  rw [List.length_append, h]
  rfl

/-- So the counter is right however many problems are recorded. The induction is on the problems and
uses the step for each of them. -/
theorem Counted.recordAll {ds : Diagnostics} (h : ds.Counted) (es : List Diagnostic) :
    (ds.recordAll es).Counted := by
  induction es generalizing ds with
  | nil => exact h
  | cons e es ih => exact ih (h.record e)

/-- Without mismatches there is no problem, so a statement that the counter calls clean has nothing
to report. -/
theorem Counted.count_eq_zero_iff {ds : Diagnostics} (h : ds.Counted) :
    ds.count = 0 ↔ ds.entries = [] := by
  rw [h, List.length_eq_zero_iff]

end Diagnostics

end GeneratedKeys
