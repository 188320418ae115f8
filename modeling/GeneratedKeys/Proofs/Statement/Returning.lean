import GeneratedKeys.Proofs.Reading.Depth
import GeneratedKeys.Proofs.Statement.Clauses

/-!
# `GeneratedKeys.Proofs.Statement.Returning`: where a RETURNING clause stands

Four rules lead to the RETURNING clause, one of them skips tokens and counts parentheses of its
own, and values pass parentheses without counting. Yet one count from the first token on tells
whether there is a clause: the front of a statement passes RETURNING inside parentheses only,
and it leaves no parenthesis open in front of the ending.

* `returning_count`: a statement returns columns exactly if it has a RETURNING outside
  parentheses, and the columns are counted by the commas behind it.
-/

set_option autoImplicit false

namespace GeneratedKeys

open Rule Grammar Move

variable {ts w rest : List Token}

/-! ### The tokens of a clause -/

/-- The tokens of one thing that is returned, none of which is a comma or the word RETURNING. So
commas count the items. -/
theorem ReturningItem.exists_append (h : ReturningItem ts w rest) :
    ∃ us, ts = us ++ rest ∧
      ∀ x ∈ us, Name x.kind ∨ x.kind ∈ [TokenKind.dot, .star, .keyword .as] := by
  -- A column is one name, or two with a dot between.
  have column : ∀ {ts w rest : List Token}, Column ts w rest →
      ∀ x ∈ w, Name x.kind ∨ x.kind ∈ [TokenKind.dot, .star, .keyword .as] := by
    intro ts w rest hw x hx
    cases hw with
    | plain ht =>
        cases List.mem_singleton.1 hx
        exact .inl ht
    | qualified ht hdot hu =>
        simp only [List.mem_cons, List.not_mem_nil, or_false] at hx
        rcases hx with rfl | rfl | rfl
        · exact .inl ht
        · exact .inr (by simp [hdot])
        · exact .inl hu
  cases h with
  | all ht => exact ⟨[_], rfl, fun x hx => by simp [List.mem_singleton.1 hx, ht]⟩
  | column hw => exact ⟨w, hw.append_eq.symm, column hw⟩
  | @renamed _ _ _ label hw ha =>
      refine ⟨w ++ [label], by simp [← hw.append_eq], fun x hx => ?_⟩
      rcases List.mem_append.1 hx with hx | hx
      · exact column hw x hx
      · cases List.mem_singleton.1 hx
        exact .inl ha
  | @renamedAs _ _ _ word label hw hword ha =>
      refine ⟨w ++ [word, label], by simp [← hw.append_eq], fun x hx => ?_⟩
      rcases List.mem_append.1 hx with hx | hx
      · exact column hw x hx
      · simp only [List.mem_cons, List.not_mem_nil, or_false] at hx
        rcases hx with rfl | rfl
        · exact .inr (by simp [hword])
        · exact .inl ha

/-- A clause has a comma less than items, and RETURNING is no part of an item. -/
theorem Listed.exists_append {items : List (List Token)} (h : Listed ReturningItem ts items rest) :
    ∃ us, ts = us ++ rest ∧ items.length = us.countP (·.kind == .comma) + 1 ∧
      ∀ x ∈ us, x.kind ≠ .keyword .returning := by
  -- Names, dots, stars and AS are neither commas nor RETURNING.
  have item : ∀ {us : List Token},
      (∀ x ∈ us, Name x.kind ∨ x.kind ∈ [TokenKind.dot, .star, .keyword .as]) →
        us.countP (·.kind == .comma) = 0 ∧ ∀ x ∈ us, x.kind ≠ .keyword .returning := by
    intro us hus
    have hne : ∀ {kind : TokenKind}, kind.hasValue = false →
        kind ∉ [TokenKind.dot, .star, .keyword .as] → ∀ x ∈ us, x.kind ≠ kind := by
      rintro kind hkind hnot x hx rfl
      rcases hus x hx with hname | hmem
      · exact hname.ne hkind rfl
      · exact hnot hmem
    refine ⟨List.countP_eq_zero.2 fun x hx => ?_, hne rfl (by decide)⟩
    rw [beq_iff_eq]
    exact hne rfl (by decide) x hx
  induction h with
  | last hw =>
      obtain ⟨us, rfl, hus⟩ := hw.exists_append
      obtain ⟨hcount, hreturning⟩ := item hus
      exact ⟨us, rfl, by rw [hcount]; rfl, hreturning⟩
  | @more _ _ _ _ _ comma hw hcomma _ ih =>
      obtain ⟨us, rfl, hus⟩ := hw.exists_append
      obtain ⟨vs, rfl, hlength, hvs⟩ := ih
      obtain ⟨hcount, hreturning⟩ := item hus
      -- The comma between the first item and the others is one more.
      refine ⟨us ++ comma :: vs, by simp, ?_, ?_⟩
      · rw [List.countP_append, hcount, List.countP_cons_of_pos (by simp [hcomma]),
          List.length_cons, hlength]
        omega
      · intro x hx
        rcases List.mem_append.1 hx with hx | hx
        · exact hreturning x hx
        · rcases List.mem_cons.1 hx with rfl | hx
          · simp [hcomma]
          · exact hvs x hx

/-- An ending has a RETURNING exactly if it has a clause, and then it begins with it. -/
theorem Returning.split {items : List (List Token)} {last as vs : List Token} {x : Token}
    (h : Returning ts items last) (hlast : Terminator last) (hts : ts = as ++ x :: vs)
    (hx : x.kind = .keyword .returning) :
    as = [] ∧ items.length = vs.countP (·.kind == .comma) + 1 := by
  have hend : x ∉ last := by
    intro hmem
    cases hlast with
    | absent => cases hmem
    | semicolon ht =>
        cases List.mem_singleton.1 hmem
        cases hx.symm.trans ht
  have hcommas : last.countP (·.kind == .comma) = 0 := by
    cases hlast with
    | absent => rfl
    | semicolon ht => simp [ht]
  cases h with
  | none => exact absurd (by simp [hts]) hend
  | @clause returning us _ _ hreturning hlist =>
      obtain ⟨us, rfl, hlength, hus⟩ := hlist.exists_append
      cases as with
      | nil =>
          obtain ⟨-, rfl⟩ := List.cons.inj hts
          exact ⟨rfl, by rw [List.countP_append, hcommas, hlength, Nat.add_zero]⟩
      | cons a as =>
          -- Behind the first token RETURNING stands neither in the items nor in the end.
          obtain ⟨-, hothers⟩ := List.cons.inj hts
          have hmem : x ∈ us ++ last := by simp [hothers]
          rcases List.mem_append.1 hmem with hmem | hmem
          · exact absurd hx (hus x hmem)
          · exact absurd hmem hend

/-! ### Statements -/

/-- What a statement that is parsed without problems consists of: a front that returns nothing
and the clause with what is returned. -/
theorem clause_of_clean {t : Text} {p : ParsedStatement} (h : parse t = .ok p)
    (hclean : p.isClean = true) :
    ∃ type ms ks clause items last,
      Reads nestingLimit (front type) (visibleTokens t) ms ks clause ∧ Clean ms ∧
        Returning clause items last ∧ Terminator last ∧
          p.statement.returning = items.map (covered t) := by
  obtain ⟨-, type, ms, ks, hread, hall, hparts⟩ := reads_of_clean h hclean
  obtain ⟨clause, ks₁, ks₂, ⟨ms₁, hfront, hfirst⟩, hending, rfl⟩ :=
    yields_statement_iff.1 ⟨ms, hread, hall⟩
  obtain ⟨last, items, hitems, hlast, rfl, -⟩ := yields_ending_iff.1 hending
  refine ⟨type, ms₁, ks₁, clause, items, last, hfront, hfirst, hitems, hlast, ?_⟩
  -- The front keeps nothing that is returned.
  have hnone : (partsOf t ks₁).returning = [] := by
    rw [returning_partsOf, List.filterMap_eq_nil_iff]
    intro k hk
    cases k with
    | part part run =>
        cases part with
        | returning =>
            exact absurd hk (hfront.part_not_mem (by cases type <;> rfl) run)
        | _ => rfl
    | type | defaults => rfl
  rw [hparts, partsOf_append, List.foldl_append, foldl_ofTokens]
  show (partsOf t ks₁).returning ++ items.map (covered t) = items.map (covered t)
  rw [hnone, List.nil_append]

/-- The front of a statement passes RETURNING inside parentheses only, so the first one outside of
them begins the clause. -/
theorem depth_pos_of_front {n : Nat} {type : StatementType} {ms : List Move} {ks : List Note}
    (h : Reads n (front type) ts ms ks rest) (hclean : Clean ms) {us vs : List Token} {x : Token}
    (hsplit : consumed ms = us ++ x :: vs) (hx : x.kind = .keyword .returning) :
    0 < depthAfter 0 us := by
  have havoids : (front type).avoids (.keyword .returning) [] = true := by cases type <;> rfl
  exact h.depth_pos hclean havoids rfl (.inr rfl) hsplit hx

/-- The front of a statement leaves no parenthesis open in front of a token. -/
theorem depth_eq_zero_of_front {n : Nat} {type : StatementType} {ms : List Move} {ks : List Note}
    (h : Reads n (front type) ts ms ks rest) (hclean : Clean ms) (hrest : rest ≠ []) :
    depthAfter 0 (consumed ms) = 0 := by
  have hrise : (front type).rise? [] 0 = some 0 := by cases type <;> rfl
  have hle : depthAfter 0 (consumed ms) ≤ 0 + 0 :=
    h.depth_le hclean hrise rfl (.inr ⟨rfl, hrest⟩) (Nat.le_refl 0)
  exact Nat.le_zero.1 hle

/-- A statement that is parsed without problems returns columns exactly if a RETURNING stands
outside parentheses, and there are as many columns as commas behind it and one more. The word
RETURNING is meant, in any letter case: strings, comments and quoted names are tokens of other
kinds. -/
theorem returning_count {t : Text} {p : ParsedStatement} (h : parse t = .ok p)
    (hclean : p.isClean = true) :
    (p.statement.hasReturning = true ↔
      ∃ us x vs, visibleTokens t = us ++ x :: vs ∧ x.kind = .keyword .returning ∧
        depthAfter 0 us = 0) ∧
    (∀ (us : List Token) (x : Token) (vs : List Token), visibleTokens t = us ++ x :: vs →
      x.kind = .keyword .returning → depthAfter 0 us = 0 →
        p.statement.returning.length = vs.countP (·.kind == .comma) + 1) ∧
    ∀ x ∈ tokens t, x.kind = .keyword .returning → Text.lower x.text = "returning".toList := by
  obtain ⟨type, ms, ks, clause, items, last, hfront, hpass, hitems, hlast, hreturning⟩ :=
    clause_of_clean h hclean
  have htokens := hfront.consumed_append
  have hcount : ∀ (us : List Token) (x : Token) (vs : List Token),
      visibleTokens t = us ++ x :: vs → x.kind = .keyword .returning → depthAfter 0 us = 0 →
        p.statement.returning.length = vs.countP (·.kind == .comma) + 1 := by
    intro us x vs hsplit hx hdepth
    rw [hreturning, List.length_map]
    rcases List.append_eq_append_iff.1 (htokens.trans hsplit) with
      ⟨as, -, hclause⟩ | ⟨as, hconsumed, hclause⟩
    · exact (hitems.split hlast hclause hx).2
    · cases as with
      | nil => exact (hitems.split hlast (show clause = [] ++ x :: vs from hclause.symm) hx).2
      | cons y as =>
          -- It would be passed in front of the ending, inside parentheses.
          obtain ⟨rfl, -⟩ := List.cons.inj hclause
          exact absurd hdepth (Nat.ne_of_gt (depth_pos_of_front hfront hpass hconsumed hx))
  refine ⟨⟨fun hhas => ?_, ?_⟩, hcount, ?_⟩
  · rw [Statement.hasReturning, hreturning] at hhas
    cases hitems with
    | none => cases hhas
    | @clause returning us _ _ hword _ =>
        exact ⟨consumed ms, returning, us, htokens.symm, hword,
          depth_eq_zero_of_front hfront hpass (List.cons_ne_nil _ _)⟩
  · rintro ⟨us, x, vs, hsplit, hx, hdepth⟩
    have hlength := hcount us x vs hsplit hx hdepth
    rw [Statement.hasReturning, Bool.not_eq_true', List.isEmpty_eq_false_iff]
    exact List.ne_nil_of_length_eq_add_one hlength
  · intro x hx hkind
    exact lower_text_of_keyword hx hkind

/-- A RETURNING in a subquery, in a string, in a comment and behind a closed parenthesis. Only the
last one counts. -/
theorem returning_count_delete :
    ∃ us x vs,
      visibleTokens
          "DELETE FROM T WHERE A IN (SELECT 'RETURNING', RETURNING) /* RETURNING */ returning A, B".toList
        = us ++ x :: vs ∧ x.kind = .keyword .returning ∧ depthAfter 0 us = 0 ∧
      vs.countP (·.kind == .comma) = 1 := by
  have hparse : parse
      "DELETE FROM T WHERE A IN (SELECT 'RETURNING', RETURNING) /* RETURNING */ returning A, B".toList
      = .ok ⟨⟨some .delete, some ['T'], [], [], [['A'], ['B']], false⟩, .none⟩ := by rfl
  obtain ⟨hhas, hcount, -⟩ := returning_count hparse rfl
  obtain ⟨us, x, vs, hsplit, hx, hdepth⟩ := hhas.1 rfl
  have hlength : 2 = vs.countP (·.kind == .comma) + 1 := hcount us x vs hsplit hx hdepth
  exact ⟨us, x, vs, hsplit, hx, hdepth, by omega⟩

end GeneratedKeys
