import GeneratedKeys.Proofs.Reading.Front
import GeneratedKeys.Proofs.Reading.Kept
import GeneratedKeys.Proofs.Recovery.Value

/-!
# `GeneratedKeys.Proofs.Recovery.Statement`: edited statements

The decisions of a statement are followed from its ending back to its first word. In front
of the ending only two things matter: a RETURNING clause there is quiet for every clause, and
what is skipped ends at the same place.

* `mends_front`: the front of a statement is read alike in front of another ending.
* `Reads.mended`: a statement that was read with repairs is read without any after they are
  made, and its parts are the parts that were kept.
-/

set_option autoImplicit false

namespace GeneratedKeys

open Rule Grammar View Move

section

variable {n : Nat} {back : View}

/-! ### Clauses -/

/-- A column, qualified or not. A dot behind it would be taken for a part of the column, so it must
not be quiet. -/
theorem mends_column {quiet : TokenKind → Bool} (hdot : quiet .dot = false) :
    Mends n column (Behind quiet) Started :=
  mends_seq mends_name (mends_dotted mends_empty hdot rfl)

/-- The target columns in their parentheses, read alike whatever follows them. -/
theorem mends_targetColumns : Mends n targetColumns back Started := by
  have hcolumns : Mends n (.together (separated (.record .column column)))
      (Behind (isA .rightParen)) Started :=
    mends_together (mends_separated (mends_record (mends_column rfl)) rfl)
  exact mends_seq mends_take (mends_seq hcolumns (mends_wanted rfl rfl))

/-- The target columns, in front of the word that begins the values. -/
theorem mends_optionalColumns :
    Mends n (optional (isA .leftParen) targetColumns) (Behind (isWord .values))
      (Behind (isWord .values)) :=
  mends_optional mends_targetColumns (not_of_isA rfl rfl) rfl

/-- VALUES and the values in their parentheses. The word may be wanted behind a stray token, and
then begins the clause in the repaired statement. -/
theorem mends_valuesClause : Mends n valuesClause back (Headed (.keyword .values)) := by
  have hvalues : Mends n (separated (.record .value (.value 0))) (Behind (isA .rightParen))
      Started :=
    mends_separated (mends_record (mends_value_before (mends_value n) rfl rfl 0)) rfl
  exact mends_seq mends_expect (mends_seq mends_expect (mends_seq hvalues (mends_wanted rfl rfl)))

/-- DEFAULT VALUES, where the second word may be wanted behind a stray token. -/
theorem mends_defaultValues : Mends n defaultValues back Started :=
  mends_seq mends_take (mends_seq mends_expect mends_defaults)

/-- A column and the value assigned to it, with a RETURNING or nothing behind. -/
theorem mends_assignment : Mends n assignment (Behind (isWord .returning)) Started := by
  have hvalue : Mends n (.record .value (.value 0)) (Behind (isWord .returning)) Started :=
    mends_record (mends_value_before (mends_value n) rfl rfl 0)
  have hcolumn : Mends n (.record .column column) (Behind (isA .eq)) Started :=
    mends_record (mends_column rfl)
  exact mends_together (mends_seq hcolumn (mends_seq (mends_wanted rfl rfl) hvalue))

/-- MATCHING and its columns, with a RETURNING or nothing behind, with parentheses around the
columns or without. -/
theorem mends_matchingClause : Mends n matchingClause (Behind (isWord .returning)) Started := by
  have henclosed : Mends n (inOrder [.take, separated column, .expect .rightParen])
      (Behind (isWord .returning)) Started := by
    have hclose : Mends n (.expect .rightParen) (Behind (isWord .returning))
        (Behind (isA .rightParen)) := mends_wanted rfl rfl
    exact mends_seq mends_take (mends_seq (mends_separated (mends_column rfl) rfl) hclose)
  exact mends_seq mends_take (mends_choice henclosed (mends_separated (mends_column rfl) rfl))

/-- What is inserted, if what is skipped ends at the same place. -/
theorem mends_inserted (hskip : Mends n .skip back (Behind (isWord .returning))) :
    Mends n inserted back (Behind (isWord .values)) := by
  have hselect : Mends n (.seq .take .skip) back Started := mends_seq mends_take hskip
  -- Only VALUES is a wanted word; the other beginnings are taken as they stand.
  have hother : Mends n (.branch [isWord .select] (.seq .take .skip)
      (.branch [isWord .default] defaultValues (.fail "VALUES, SELECT, or DEFAULT VALUES")))
      back Alike :=
    mends_either hselect (mends_either mends_defaultValues mends_fail (fun _ hk => by cases hk) rfl)
      (fun _ hk => by cases hk) rfl
  refine mends_branch mends_valuesClause hother ?_ ?_
  · intro before ts ts' _ hvalues
    have hbehind : Behind (isWord .values) before ts ts' := hvalues.behind rfl rfl
    obtain ⟨t, us, rfl, ht⟩ := hvalues
    exact ⟨by rwa [State.passes_one_cons], hbehind⟩
  · intro before ts ts' hp halike
    exact ⟨halike.passes_eq_false (fun _ hk => by cases hk) hp, halike.behind⟩

/-! ### Statements -/

/-- The front of a statement is read alike in front of another ending, if that is the same or
a RETURNING clause, and what is skipped ends at the same place. -/
theorem mends_front (type : StatementType)
    (hback : ∀ {before ts ts' : List Token}, back before ts ts' →
      Behind (isWord .returning) before ts ts')
    (hskip : Mends n .skip back (Behind (isWord .returning))) :
    Mends n (front type) back (fun _ _ _ => True) := by
  -- A statement begins with a wanted word, so nothing in front of it depends on the edit.
  have hfirst : ∀ {k : Keyword} {r : Rule} {mid : View}, Mends n r back mid →
      Mends n (.seq (word k) r) back (fun _ _ _ => True) :=
    fun h => (mends_seq mends_expect h).ahead fun _ => trivial
  have htable : ∀ {r : Rule} {mid : View}, Mends n r back mid →
      Mends n (.seq table r) back Started :=
    fun h => mends_seq (mends_record mends_name) h
  cases type with
  | insert =>
      exact hfirst (hfirst (htable (mends_seq mends_optionalColumns (mends_inserted hskip))))
  | delete => exact hfirst (hfirst (htable hskip))
  | update =>
      have hassignments : Mends n (separated assignment) (Behind (isWord .returning)) Started :=
        mends_separated mends_assignment rfl
      exact hfirst (htable (hfirst (mends_seq hassignments hskip)))
  | updateOrInsert =>
      have hmatching : Mends n (optional (isWord .matching) matchingClause) back
          (Behind (isWord .returning)) :=
        (mends_optional mends_matchingClause (not_of_isA rfl rfl) rfl).behind hback
      have hvalues : Mends n (.seq valuesClause (optional (isWord .matching) matchingClause)) back
          (Behind (isWord .values)) :=
        mends_seq (mends_valuesClause.ahead fun h => h.behind rfl rfl) hmatching
      exact hfirst (hfirst (hfirst (hfirst (htable (mends_seq mends_optionalColumns hvalues)))))

end

/-- What is skipped in front of the same ending. No token is wanted in it, so the two are skipped
alike. -/
theorem mends_skip_same {n : Nat} : Mends n .skip Same (Behind (isWord .returning)) := by
  intro before ts rest rest' ms ks hread hrest
  cases hrest
  obtain ⟨hclean, hnotes⟩ := hread.clean_of_repairless rfl
  rw [hclean.kept_eq_consumed, hclean.mended_eq_self, hnotes, hread.consumed_append]
  exact ⟨hread, .inl rfl⟩

/-- A statement that was read with repairs is read without any after they are made. It keeps the
same notes, each with its own repairs made. -/
theorem Reads.mended {n : Nat} {type : StatementType} {ts : List Token} {ms : List Move}
    {ks : List Note} (h : Reads n (statement type) ts ms ks []) :
    Reads n (statement type) (kept ms) (Move.mended ms) (ks.map Note.mended) [] := by
  obtain ⟨mid, ms₁, ms₂, ks₁, ks₂, hfront, hending, rfl, rfl⟩ := reads_statement_iff.1 h
  -- The ending wants no token, so it is the same in both statements.
  obtain ⟨hclean, hnotes⟩ := hending.clean_of_repairless rfl
  have hmid : kept ms₂ = mid := by
    rw [hclean.kept_eq_consumed, ← hending.consumed_append, List.append_nil]
  have hmends : Mends n (front type) Same (fun _ _ _ => True) :=
    mends_front type .inl mends_skip_same
  have hmended := @hmends [] _ _ _ _ _ hfront rfl
  rw [kept_append, mended_append, List.map_append, hclean.mended_eq_self, hnotes, hmid]
  exact reads_statement_iff.2 ⟨mid, _, _, _, _, hmended.1, hending, rfl, rfl⟩

end GeneratedKeys
