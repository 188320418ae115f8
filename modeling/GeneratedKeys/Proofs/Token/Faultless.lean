import GeneratedKeys.Proofs.Token.Visible

/-!
# `GeneratedKeys.Proofs.Token.Faultless`: texts without faulty tokens

Most of what is proved of the tokens of an edited text needs that none of them is faulty: a
string that is not closed goes on with whatever is put behind it. Only visible tokens are
faulty, so a text is `Faultless` if its visible tokens are.

* `kind_of_mem_lexicalProblems`: what is said of the faulty tokens of a text.
* `lexicalProblems_eq_nil`: such a text has no lexical problem.
-/

set_option autoImplicit false

namespace GeneratedKeys

/-- Only visible tokens are faulty, as blanks and comments have kinds of their own. -/
theorem fault?_of_hidden {x : Token} (h : x.isVisible = false) : x.kind.fault? = none := by
  obtain ⟨kind, text, start⟩ := x
  cases kind with
  | error fault => cases h
  | _ => rfl

/-- No piece of a text is the token of its end, since no rule of the scanner gives that kind. -/
theorem scan_kind_ne_eof (c : Char) (t : Text) : (scan c t).kind ≠ .eof := by
  intro h
  rcases scan_mark (c := c) (t := t) (by rw [h]; rfl) with ⟨-, hk⟩ | hop
  · cases h.symm.trans hk
  · rw [hop] at h
    rcases Scan.isOperator_operator c t with hk | hk
    · rw [h] at hk
      cases hk
    · cases h.symm.trans hk

/-- No token of a text is the one of the end, so that one is told from all others by its kind. -/
theorem kind_ne_eof_of_mem {k : Nat} {t : Text} {x : Token} (h : x ∈ tokensFrom k t) :
    x.kind ≠ .eof := by
  obtain ⟨start, c, u, rfl⟩ := exists_firstToken h
  exact scan_kind_ne_eof c u

/-- The same as a test, which is how filters ask for it. -/
theorem isEof_of_mem {k : Nat} {t : Text} {x : Token} (h : x ∈ tokensFrom k t) :
    x.isEof = false := by
  rw [Token.isEof, beq_eq_false_iff_ne]
  exact kind_ne_eof_of_mem h

/-- Whether no token of the text is faulty. The hidden ones need not be asked, as blanks and
comments have no fault. -/
def Faultless (t : Text) : Prop := ∀ x ∈ visibleTokens t, x.kind.fault? = none

/-- Hidden tokens are never faulty, so it is enough to know the visible ones. -/
theorem Faultless.of_mem {t : Text} (h : Faultless t) {x : Token} (hx : x ∈ tokens t) :
    x.kind.fault? = none := by
  by_cases hvisible : x.isVisible = true
  · exact h x (List.mem_filter.2 ⟨hx, hvisible⟩)
  · exact fault?_of_hidden (by simpa using hvisible)

/-- A faulty token is a lexical problem, and nothing else enters the problems while a text is cut
into tokens. -/
theorem kind_of_mem_lexicalProblems {ts : List Token} {d : Diagnostic}
    (h : d ∈ (lexicalProblems ts).entries) : d.kind = .lexical := by
  rw [entries_lexicalProblems] at h
  obtain ⟨x, -, hx⟩ := List.mem_filterMap.1 h
  obtain ⟨fault, -, rfl⟩ := Option.map_eq_some_iff.1 hx
  rfl

/-- A text has no lexical problem exactly if it has no faulty token. The hidden tokens need not be
looked at, as they have no fault. -/
theorem lexicalProblems_eq_nil {t : Text} :
    (lexicalProblems (tokens t)).entries = [] ↔ Faultless t := by
  rw [entries_lexicalProblems, List.filterMap_eq_nil_iff]
  constructor
  · intro h x hx
    have hx' := h x (List.mem_filter.1 hx).1
    simpa [Token.problem?] using hx'
  · intro h x hx
    simp [Token.problem?, h.of_mem hx]

/-- Nothing is recorded while such a text is cut into tokens, so a report on it begins without
problems. -/
theorem lexicalProblems_of_faultless {t : Text} (h : Faultless t) :
    lexicalProblems (tokens t) = .none := by
  have hnone := lexicalProblems_eq_nil.2 h
  rw [entries_lexicalProblems] at hnone
  rw [lexicalProblems, hnone, Diagnostics.recordAll_nil]

end GeneratedKeys
