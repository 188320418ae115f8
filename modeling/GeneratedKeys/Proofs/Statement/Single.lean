import GeneratedKeys.Proofs.Keys.Append
import GeneratedKeys.Proofs.Reading.Depth
import GeneratedKeys.Proofs.Reading.Front

/-!
# `GeneratedKeys.Proofs.Statement.Single`: one statement at a time

A statement that is read without problems is the whole text. A body that is skipped may hold
any token, but skipping stops at a semicolon outside parentheses, no other rule asks for one,
and behind the one at the end nothing may follow. So a text that goes on behind a semicolon
outside parentheses is never taken for a statement, and it is never given a clause.

* `single_statement`: the semicolon of a statement is its last token, and what goes on behind
  one is left as it is.
-/

set_option autoImplicit false

namespace GeneratedKeys

open Rule Grammar Move

/-- A terminator is one token at most, so nothing stands behind its semicolon. -/
theorem Terminator.eq_nil_of_cons {us vs : List Token} {x : Token}
    (h : Terminator (us ++ x :: vs)) : vs = [] := by
  generalize hts : us ++ x :: vs = ts at h
  cases h with
  | absent => simp at hts
  | semicolon _ =>
      have hlength := congrArg List.length hts
      simp only [List.length_append, List.length_cons, List.length_nil] at hlength
      exact List.length_eq_zero_iff.1 (by omega)

/-- Behind a semicolon outside parentheses nothing follows in a statement that is parsed
without problems. -/
theorem eq_nil_of_semicolon {t : Text} {p : ParsedStatement} (h : parse t = .ok p)
    (hclean : p.isClean = true) {us vs : List Token} {x : Token}
    (hsplit : visibleTokens t = us ++ x :: vs) (hx : x.kind = .semicolon)
    (hdepth : depthAfter 0 us = 0) : vs = [] := by
  obtain ⟨-, type, ms, ks, hread, hall, -⟩ := reads_of_clean h hclean
  obtain ⟨clause, ms₁, ms₂, _, _, hfront, hending, rfl, rfl⟩ := reads_statement_iff.1 hread
  obtain ⟨last, ms₂, _, hclause, hlast, rfl, rfl, -⟩ := reads_ending_iff.1 hending
  simp only [clean_append] at hall
  obtain ⟨hall₁, hall₂, -⟩ := hall
  have havoids : (front type).avoids .semicolon [] = true := by cases type <;> rfl
  have htokens : (consumed ms₁ ++ consumed ms₂) ++ last = us ++ x :: vs := by
    rw [← hsplit, ← hfront.consumed_append, ← hclause.consumed_append, List.append_assoc]
  -- What is read in front of the end has a semicolon inside parentheses only.
  have hpos : ∀ {us vs : List Token}, consumed ms₁ ++ consumed ms₂ = us ++ x :: vs →
      0 < depthAfter 0 us :=
    fun hinside => depthAfter_pos_of_append hinside
      (fun hfirst => hfront.depth_pos hall₁ havoids rfl (.inl rfl) hfirst hx)
      (fun hsecond => hclause.depth_pos hall₂
        (show (optional (isWord .returning) returningClause).avoids .semicolon [] = true from rfl)
        rfl (.inl rfl) hsecond hx)
  rcases List.append_eq_append_iff.1 htokens with ⟨as, -, rfl⟩ | ⟨as, hinside, hrest⟩
  · exact hlast.eq_nil_of_cons
  · cases as with
    | nil =>
        obtain rfl : x :: vs = last := hrest
        exact Terminator.eq_nil_of_cons (show Terminator ([] ++ x :: vs) from hlast)
    | cons y as =>
        obtain ⟨rfl, -⟩ := List.cons.inj hrest
        exact absurd hdepth (Nat.ne_of_gt (hpos hinside))

/-- In a statement that is parsed without problems a semicolon outside parentheses is the last
visible token, so there is one at most. A text that goes on behind such a semicolon is never
parsed without problems, and the builder leaves it as it is, whatever is requested: only a
request of no columns is refused. -/
theorem single_statement (t : Text) :
    (∀ p : ParsedStatement, parse t = .ok p → p.isClean = true →
      ∀ (us : List Token) (x : Token) (vs : List Token), visibleTokens t = us ++ x :: vs →
        x.kind = .semicolon → depthAfter 0 us = 0 →
          vs = [] ∧ ∀ (us' : List Token) (x' : Token) (vs' : List Token),
            visibleTokens t = us' ++ x' :: vs' → x'.kind = .semicolon → depthAfter 0 us' = 0 →
              us' = us) ∧
    ∀ (us : List Token) (x y : Token) (vs : List Token), visibleTokens t = us ++ x :: y :: vs →
      x.kind = .semicolon → depthAfter 0 us = 0 →
        (∀ p : ParsedStatement, parse t = .ok p → p.isClean = false) ∧
        ∀ (types : QueryTypes) (m : Metadata) (r : Request), r ≠ .indexes [] → r ≠ .names [] →
          (Builder.ofStatement t types).answer m r = .ok ⟨false, t⟩ := by
  refine ⟨?_, ?_⟩
  · intro p hp hclean us x vs hsplit hx hdepth
    obtain rfl := eq_nil_of_semicolon hp hclean hsplit hx hdepth
    refine ⟨rfl, fun us' x' vs' hsplit' hx' hdepth' => ?_⟩
    obtain rfl := eq_nil_of_semicolon hp hclean hsplit' hx' hdepth'
    exact List.append_inj_left' (hsplit'.symm.trans hsplit) rfl
  · intro us x y vs hsplit hx hdepth
    have hproblem : ∀ p : ParsedStatement, parse t = .ok p → p.isClean = false := by
      intro p hp
      rw [← Bool.not_eq_true]
      intro hclean
      cases eq_nil_of_semicolon hp hclean hsplit hx hdepth
    refine ⟨hproblem, fun types m r hindexes hnames => ?_⟩
    -- It is not understood, so it is of no supported type.
    have hnone : understood? t = none := by
      rw [Option.eq_none_iff_forall_ne_some]
      intro s hs
      obtain ⟨p, hp, hclean, -⟩ := parse_of_understood hs
      cases (hproblem p hp).symm.trans hclean
    refine Builder.answer_of_not_isSupported ?_ ?_ hindexes hnames
    · rw [Builder.isSupported, Builder.ofStatement, hnone]
      rfl
    · rw [Builder.hasReturning, Builder.ofStatement, hnone]
      rfl

/-- A semicolon in parentheses does not end a statement, and the one behind them does. -/
theorem single_statement_delete :
    (∀ (us : List Token) (x : Token) (vs : List Token),
      visibleTokens "DELETE FROM T WHERE (A = 1;);".toList = us ++ x :: vs →
        x.kind = .semicolon → depthAfter 0 us = 0 → vs = []) ∧
    (Builder.ofStatement "DELETE FROM T WHERE (A = 1;); DROP TABLE T".toList .full).answer
        dialectThree (.names [['A']])
      = .ok ⟨false, "DELETE FROM T WHERE (A = 1;); DROP TABLE T".toList⟩ := by
  have hparse : parse "DELETE FROM T WHERE (A = 1;);".toList
      = .ok ⟨⟨some .delete, some ['T'], [], [], [], false⟩, .none⟩ := by rfl
  -- The semicolon behind the parenthesis has tokens behind it.
  have hsplit : visibleTokens "DELETE FROM T WHERE (A = 1;); DROP TABLE T".toList
      = (visibleTokens "DELETE FROM T WHERE (A = 1;)".toList)
        ++ ⟨.semicolon, [';'], 28⟩ :: ⟨.identifier "DROP".toList, "DROP".toList, 30⟩
          :: visibleFrom 35 "TABLE T".toList := by decide +kernel
  refine ⟨fun us x vs hus hx hdepth => ?_, ?_⟩
  · exact ((single_statement _).1 _ hparse rfl us x vs hus hx hdepth).1
  · exact ((single_statement _).2 _ _ _ _ hsplit rfl (by decide +kernel)).2 .full dialectThree
      (.names [['A']]) (by decide) (by decide)

end GeneratedKeys
