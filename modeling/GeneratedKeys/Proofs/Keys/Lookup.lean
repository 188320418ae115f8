import GeneratedKeys.Proofs.Keys.Selection

/-!
# `GeneratedKeys.Proofs.Keys.Lookup`: answers that depend on tables

The columns of a table are looked up only for a statement that a clause is put behind, and only
if positions are asked for or all columns must be listed. `Builder.LooksUp` says so.

* `Builder.answer_congr`: where no columns are looked up, the tables do not matter.
* `Builder.looksUp_of_noColumns`: columns can be missing only where they are looked up.
-/

set_option autoImplicit false

namespace GeneratedKeys

namespace Builder

/-- To answer the request on a server of the version, the columns of the table are looked up. -/
def LooksUp (b : Builder) (v : ServerVersion) : Request → Prop
  | .noKeys | .names _ => False
  | .allColumns => b.hasReturning = false ∧ b.isSupported = true ∧ v.returnsAll = false
  | .indexes positions => b.hasReturning = false ∧ positions ≠ [] ∧ b.isSupported = true

variable {b : Builder} {m m' : Metadata} {r : Request}

/-- Columns are looked up for statements of supported types only. Every other statement is answered
without the tables. -/
theorem LooksUp.isSupported {v : ServerVersion} (h : b.LooksUp v r) : b.isSupported = true := by
  cases r with
  | noKeys | names => cases h
  | allColumns => exact h.2.1
  | indexes => exact h.2.2

/-- Where no columns are looked up, the answer is the same for all tables. Only the version and the
dialect of the connection play a part. -/
theorem answer_congr (hversion : m.version = m'.version) (h : ¬ b.LooksUp m.version r) :
    b.answer m r = b.answer m' r := by
  cases hreturning : b.hasReturning with
  | true => rw [answer_of_hasReturning hreturning, answer_of_hasReturning hreturning]
  | false =>
      cases r with
      | noKeys | names => rfl
      | allColumns =>
          rw [answer, answer, forAllColumns, forAllColumns, hreturning, ← hversion]
          cases hsupported : b.isSupported with
          | false => rfl
          | true =>
              -- The server knows the star, as the columns would be looked up otherwise.
              have hstar : m.version.returnsAll = true := by
                rw [← Bool.not_eq_false]
                exact fun hstar => h ⟨hreturning, hsupported, hstar⟩
              rw [hstar]
              rfl
      | indexes positions =>
          rw [answer, answer, forIndexes, forIndexes, hreturning]
          cases positions with
          | nil => rfl
          | cons i positions =>
              -- With a position given the columns of a supported statement would be looked up.
              have hsupported : b.isSupported = false := by
                rw [← Bool.not_eq_true]
                exact fun hsupported => h ⟨hreturning, List.cons_ne_nil _ _, hsupported⟩
              rw [hsupported]
              rfl

/-- Columns that are not found were looked up. So this error never comes from a request that needs
no table. -/
theorem looksUp_of_noColumns {table : Text} (h : b.answer m r = .error (.noColumns table)) :
    b.LooksUp m.version r ∧ b.tableColumns m = [] := by
  cases hreturning : b.hasReturning with
  | true =>
      rw [answer_of_hasReturning hreturning] at h
      cases h
  | false =>
      cases r with
      | noKeys => cases h
      | allColumns =>
          cases hsupported : b.isSupported with
          | false =>
              rw [answer_of_not_isSupported hsupported hreturning Request.noConfusion
                Request.noConfusion] at h
              cases h
          | true =>
              rw [answer, forAllColumns, hreturning, hsupported] at h
              cases hstar : m.version.returnsAll with
              | true =>
                  rw [hstar] at h
                  cases h
              | false =>
                  cases hcolumns : b.tableColumns m with
                  | nil => exact ⟨⟨hreturning, hsupported, hstar⟩, rfl⟩
                  | cons c cs =>
                      rw [hstar, hcolumns] at h
                      cases h
      | indexes positions =>
          by_cases hpositions : positions = []
          · rw [answer, forIndexes, hreturning, hpositions] at h
            cases h
          · cases hsupported : b.isSupported with
            | false =>
                rw [answer_of_not_isSupported hsupported hreturning (by simpa using hpositions)
                  Request.noConfusion] at h
                cases h
            | true =>
                refine ⟨⟨hreturning, hpositions, hsupported⟩, ?_⟩
                -- With columns only a position can fail.
                by_contra hcolumns
                rw [answer, forIndexes_eq hsupported hreturning hpositions hcolumns] at h
                split at h
                · cases h
                · rw [forNames_eq hsupported hreturning (by simpa using hpositions)] at h
                  cases h
      | names columns =>
          rw [answer, forNames, hreturning] at h
          cases hsupported : b.isSupported <;> rw [hsupported] at h <;> cases columns <;> cases h

end Builder

end GeneratedKeys
