import GeneratedKeys.Proofs.Keys.Append
import GeneratedKeys.Proofs.Keys.Depth
import GeneratedKeys.Proofs.Keys.Items
import GeneratedKeys.Proofs.Text.Slice

/-!
# `GeneratedKeys.Proofs.Keys.Reread`: reading a statement with its clause

A statement that a clause was appended to is read again. It is the same statement, and the
clause is all that it returns, if the clause stands where one is looked for: no comment
hides the semicolon, and no parenthesis is left open. It is answered as it is then, whatever
is requested.

* `parse_withReturning`: how the statement with its clause is parsed.
* `parse_answer`: an answer is parsed like that, and it is the answer to any further request.
-/

set_option autoImplicit false

namespace GeneratedKeys

open Rule Grammar Move

variable {n : Nat} {ts rest : List Token} {ms : List Move} {ks : List Note}

/-! ### Endings -/

/-- An item of a clause is a column that is returned, so a statement with a clause is known to
return something. -/
theorem Reads.exists_returned (h : Reads n returningItem ts ms ks rest) :
    ∃ run, Note.part .returning run ∈ ks := by
  cases h with
  -- An item is a star or a column, and either is kept.
  | yes _ hstar =>
      cases hstar with
      | record => exact ⟨_, List.mem_append_right _ (List.mem_singleton_self _)⟩
  | no _ hcolumn =>
      cases hcolumn with
      | together hitem =>
          cases hitem with
          | seq hrecord =>
              cases hrecord with
              | record =>
                  exact ⟨_, List.mem_append_left _
                    (List.mem_append_right _ (List.mem_singleton_self _))⟩

/-- The ending of a statement that returns no columns is a semicolon at most. -/
theorem Reads.ending_plain {type : StatementType} (h : Reads n (ending type) ts ms ks rest)
    (hnone : ∀ run, Note.part .returning run ∉ ks) :
    ks = [.type type] ∧ Terminator ts := by
  obtain ⟨mid, ms', ks', hclause, hmid, -, rfl, -⟩ := reads_ending_iff.1 h
  cases hclause with
  | yes _ hclause =>
      cases hclause with
      | seq _ hitems =>
          cases hitems with
          | seq hitem =>
              -- A clause would have an item, which would be kept.
              obtain ⟨run, hrun⟩ := hitem.exists_returned
              exact absurd (by simp [hrun]) (hnone run)
  | no _ hempty =>
      cases hempty
      exact ⟨rfl, hmid⟩

/-- A statement may end with a RETURNING clause. Its items are read up to the end of the text, and
no semicolon follows. -/
theorem reads_ending (type : StatementType) {t : Token} (ht : t.kind = .keyword .returning)
    (h : Reads n (separated returningItem) ts ms ks []) :
    Reads n (ending type) (t :: ts) (.pass t :: ms) (ks ++ [.type type]) [] := by
  have hclause : Reads n (optional (isWord .returning) returningClause) (t :: ts)
      (.pass t :: ms) ks [] := by
    refine .yes ?_ (.seq .take h)
    rw [State.passes_one_cons, isWord_iff, ht]
  -- Behind the clause nothing is left.
  exact reads_ending_iff.2 ⟨[], _, _, hclause, .absent, (List.append_nil _).symm, rfl, rfl⟩

/-! ### The statement in front of the clause -/

/-- What is read in front of the ending are the tokens of the statement without its
semicolon. -/
theorem statementTokens_eq {sql : Text} {type : StatementType} {mid : List Token}
    (h : Reads n (front type) (visibleTokens sql) ms ks mid) (hclean : Clean ms)
    (hmid : Terminator mid)
    (hdepth : depthAfter 0 (visibleTokens sql) = 0) :
    statementTokens sql = consumed ms ∧ depthAfter 0 (consumed ms) = 0 := by
  have hsplit := h.consumed_append
  cases hmid with
  | absent =>
      rw [List.append_nil] at hsplit
      rw [← hsplit] at hdepth
      refine ⟨?_, hdepth⟩
      -- A semicolon at the end would be inside parentheses.
      have hterminated : ¬ isTerminated sql = true := by
        intro hterminated
        rw [isTerminated, ← hsplit, Option.any_eq_true] at hterminated
        obtain ⟨t, hlast, ht⟩ := hterminated
        obtain ⟨us, hus⟩ := List.getLast?_eq_some_iff.1 hlast
        have hsemicolon : t.kind = .semicolon := by simpa using ht
        have hpos := h.depth_pos hclean (show (front type).avoids .semicolon [] = true by
          cases type <;> rfl) rfl (.inl rfl) hus hsemicolon
        rw [hus, depthAfter_append, depthAfter_cons, hsemicolon] at hdepth
        exact absurd hdepth (Nat.ne_of_gt hpos)
      rw [statementTokens, if_neg hterminated, hsplit]
  | semicolon ht =>
      rw [← hsplit, depthAfter_append, depthAfter_cons, ht] at hdepth
      have hterminated : isTerminated sql = true := by
        rw [isTerminated, ← hsplit, List.getLast?_concat]
        simpa using ht
      refine ⟨?_, hdepth⟩
      rw [statementTokens, if_pos hterminated, ← hsplit, List.dropLast_concat]

/-- What is read in front of the ending is read in front of a clause as well. -/
theorem Reads.appended {type : StatementType} {mid us : List Token} {t : Token}
    (h : Reads n (front type) ts ms ks mid) (hclean : Clean ms)
    (hdepth : depthAfter 0 (consumed ms) = 0) (ht : t.kind = .keyword .returning) :
    Reads n (front type) (consumed ms ++ t :: us) ms ks (t :: us) := by
  have hmends := @mends_front_appended n type [] _ _ (t :: us) _ _ h ⟨hdepth, t, us, rfl, ht⟩
  have hnotes := h.notes_mended (by cases type <;> rfl) hclean
  rw [hclean.kept_eq_consumed, hclean.mended_eq_self, hnotes] at hmends
  exact hmends.1

/-- What the stripped statement covers is covered in the statement with its clause. -/
theorem slice_withReturning {sql : Text} (items : List Text) {s : Span}
    (h : s.stop ≤ Text.size (strippedText sql)) :
    s.slice (withReturning sql items) = s.slice sql := by
  obtain ⟨tail, htail⟩ :=
    (isPrefix_withoutSemicolon (Text.trimEnd sql)).trans (isPrefix_trimEnd sql)
  have hsql := Span.slice_append_of_le h tail
  rw [show strippedText sql ++ tail = sql from htail] at hsql
  rw [withReturning_eq, Span.slice_append_of_le h, hsql]

/-- The tokens of the stripped statement are tokens of the statement. At most the last one is
missing. -/
theorem mem_of_mem_strippedTokens {sql : Text} {x : Token} (hx : x ∈ strippedTokens sql) :
    x ∈ visibleTokens sql := by
  rw [strippedTokens] at hx
  split at hx
  · exact (List.dropLast_prefix _).subset hx
  · exact hx

section

variable {sql : Text} (hfault : Faultless sql) (is : List Item)
include hfault

/-- A clause of items adds no faulty token, and those of the statement stay as they were. -/
theorem faultless_withReturning : Faultless (withReturning sql (is.map Item.text)) := by
  intro x hx
  rw [visibleTokens_withReturning hfault, visibleFrom_items, List.mem_append,
    List.mem_cons] at hx
  rcases hx with hx | rfl | hx
  · exact hfault x (mem_of_mem_strippedTokens hx)
  · rfl
  · exact fault?_of_mem_items hx

/-- A stretch of the stripped statement covers the same text, since the clause stands behind all of
it. -/
theorem slice_run {run : List Move} (hrun : ∀ x ∈ consumed run, x ∈ strippedTokens sql)
    (items : List Text) : (range run).slice (withReturning sql items) = (range run).slice sql :=
  slice_withReturning items
    (range_stop_le fun x hx => (keeps_strippedText hfault).stop_le x (hrun x hx))

/-- The parts of the statement with its clause are its own and the items. -/
theorem partsOf_withReturning (type : StatementType)
    (hruns : ∀ {p : Part} {run : List Move}, Note.part p run ∈ ks →
      ∀ x ∈ consumed run, x ∈ strippedTokens sql) :
    partsOf (withReturning sql (is.map Item.text))
        (ks ++ (itemNotes (itemTokens (Text.size (strippedText sql) + 11) is) ++ [.type type]))
      = { partsOf sql (ks ++ [.type type]) with
          returning := (partsOf sql ks).returning ++ is.map Item.text } := by
  -- The parts in front of the clause cover the same texts.
  have hfront : partsOf (withReturning sql (is.map Item.text)) ks = partsOf sql ks :=
    partsOf_congr fun hpart => slice_run hfault (hruns hpart) _
  -- The items are tokens of the text with the clause.
  have hitems : ∀ x ∈ itemTokens (Text.size (strippedText sql) + 11) is,
      x ∈ visibleTokens (withReturning sql (is.map Item.text)) := by
    intro x hx
    rw [visibleTokens_withReturning hfault, visibleFrom_items]
    exact List.mem_append_right _ (List.mem_cons_of_mem _ hx)
  rw [partsOf_append, List.foldl_append, itemNotes, foldl_parts, slice_itemNotes hitems, hfront,
    partsOf_append]
  rfl

end

/-- How the statement with its clause is parsed: as before, without problems, and with the items as
the columns that it returns. -/
theorem parse_withReturning {sql : Text} {p : ParsedStatement} (hp : parse sql = .ok p)
    (hclean : p.isClean = true) (hnone : p.statement.returning = [])
    (hhides : hidesSemicolon sql = false) (hdepth : depthAfter 0 (visibleTokens sql) = 0)
    {is : List Item} (his : is ≠ []) :
    parse (withReturning sql (is.map Item.text))
      = .ok ⟨{ p.statement with returning := is.map Item.text }, .none⟩ := by
  obtain ⟨hfault, type, ms, ks, hread, hall, hparts⟩ := reads_of_clean hp hclean
  obtain ⟨mid, ms, ms', ks, ks', hfront, hending, rfl, rfl⟩ := reads_statement_iff.1 hread
  obtain ⟨hpass, -⟩ := clean_append.1 hall
  -- No column is returned, so the statement ends with a semicolon at most.
  rw [hparts, returning_partsOf, List.filterMap_eq_nil_iff] at hnone
  obtain ⟨rfl, hmid⟩ := hending.ending_plain fun run hrun => by
    cases hnone _ (List.mem_append_right _ hrun)
  obtain ⟨hstatement, hopen⟩ := statementTokens_eq hfront hpass hmid hdepth
  -- The front was read from the tokens that stand in front of the clause.
  have hstripped : strippedTokens sql = consumed ms := by
    rw [strippedTokens_eq, hhides, ← hstatement]
    rfl
  have htokens := visibleTokens_withReturning hfault (is.map Item.text)
  rw [hstripped, visibleFrom_items] at htokens
  have hclause := reads_ending (n := nestingLimit) type
    (show (returningToken (Text.size (strippedText sql) + 1)).kind = .keyword .returning from rfl)
    (reads_items (Text.size (strippedText sql) + 11) his)
  have hreread := reads_statement_iff.2
    ⟨_, _, _, _, _, hfront.appended hpass hopen rfl, hclause, rfl, rfl⟩
  rw [← htokens] at hreread
  have hruns : ∀ {p : Part} {run : List Move}, Note.part p run ∈ ks →
      ∀ x ∈ consumed run, x ∈ strippedTokens sql := by
    intro p run hpart x hx
    obtain ⟨⟨before, after, rfl⟩, -⟩ := hfront.part_of_mem (by cases type <;> rfl) hpart
    simp [hstripped, hx]
  have hreturning : (partsOf sql ks).returning = [] := by
    rw [returning_partsOf, List.filterMap_eq_nil_iff]
    exact fun k hk => hnone k (List.mem_append_left _ hk)
  have hparse := parse_of_reads (faultless_withReturning hfault is) hreread
    (clean_append.2 ⟨hpass, clean_map_pass (_ :: _)⟩)
  rw [hparse, partsOf_withReturning hfault is type hruns, hreturning, hparts]
  rfl

/-! ### Requests -/

/-- Whether what is requested is written as a star or as quoted names. Only names that a caller
gives are written in some other way, and plain names of older dialects. -/
def Request.isQuoted (m : Metadata) : Request → Bool
  | .allColumns => m.version.returnsAll || decide (3 ≤ m.dialect)
  | .indexes _ => decide (3 ≤ m.dialect)
  | .noKeys | .names _ => false

/-- On a connection of dialect 3 or later names are quoted as items of a clause. -/
theorem map_quote_eq {m : Metadata} (h : 3 ≤ m.dialect) (columns : List Text) :
    columns.map (QuoteStrategy.ofDialect m.dialect).quote
      = (columns.map Item.column).map Item.text := by
  rw [QuoteStrategy.ofDialect, if_pos h, List.map_map]
  rfl

/-- What is requested as a star or as quoted names are items. -/
theorem exists_items {b : Builder} {m : Metadata} {r : Request} {items : List Text}
    (h : b.Requested m r items) (hquoted : r.isQuoted m = true) :
    ∃ is : List Item, items = is.map Item.text := by
  cases r with
  | noKeys | names columns => cases hquoted
  | allColumns =>
      cases h
      by_cases hall : m.version.returnsAll = true
      · exact ⟨[.all], if_pos hall⟩
      · have hdialect : 3 ≤ m.dialect := by simpa [Request.isQuoted, hall] using hquoted
        exact ⟨_, (if_neg hall).trans (map_quote_eq hdialect _)⟩
  | indexes positions =>
      obtain ⟨chosen, -, rfl⟩ := h
      exact ⟨_, map_quote_eq (by simpa [Request.isQuoted] using hquoted) chosen⟩

/-- The answer to a request for a star or quoted names is parsed like the statement, and what
was requested is all that it returns. It is the answer to every further request. -/
theorem parse_answer {sql : Text} {types : QueryTypes} {m : Metadata} {r : Request} {q : Query}
    {p : ParsedStatement} (hp : parse sql = .ok p) (hclean : p.isClean = true)
    (hsupported : (Builder.ofStatement sql types).isSupported = true)
    (hnone : p.statement.returning = []) (hhides : hidesSemicolon sql = false)
    (hdepth : depthAfter 0 (visibleTokens sql) = 0) (hquoted : r.isQuoted m = true)
    (h : (Builder.ofStatement sql types).answer m r = .ok q) :
    ∃ items, (Builder.ofStatement sql types).Requested m r items ∧
      q = ⟨true, withReturning sql items⟩ ∧
      parse q.sql = .ok ⟨{ p.statement with returning := items }, .none⟩ ∧
      ∀ (m' : Metadata) (r' : Request),
        (Builder.ofStatement q.sql types).answer m' r' = .ok ⟨true, q.sql⟩ := by
  obtain ⟨p₁, hp₁, -, htype⟩ := parse_of_isSupported hsupported
  cases hp.symm.trans hp₁
  have hreturning : (Builder.ofStatement sql types).hasReturning = false := by
    rw [Builder.hasReturning, Builder.ofStatement, understood?_of_parse hp hclean htype]
    simp [Statement.hasReturning, hnone]
  -- The statement returned no columns, so the answer is the statement with a clause.
  obtain ⟨items, hrequested, hne, rfl⟩ :=
    Builder.returning_of_isSupported hsupported hreturning h fun hr => by
      rw [hr] at hquoted
      cases hquoted
  -- The items are a star or quoted names, so their tokens are known.
  obtain ⟨is, rfl⟩ := exists_items hrequested hquoted
  have his : is ≠ [] := fun hnil => hne (List.map_eq_nil_iff.2 hnil)
  have hparse := parse_withReturning hp hclean hnone hhides hdepth his
  refine ⟨_, hrequested, rfl, hparse, Builder.answer_of_hasReturning ?_⟩
  rw [Builder.hasReturning, Builder.ofStatement]
  show (understood? (withReturning sql (is.map Item.text))).any _ = true
  rw [understood?_of_parse hparse rfl htype]
  simpa [Statement.hasReturning] using his

/-- A connection to a server of version 3 that knows a table of two columns, one with a quote in its
name. -/
def dialectThreeTable : Metadata :=
  dialectThree.withTable ['T'] ["A".toList, "a\"b".toList]

/-- Two columns by position, the second of which has a quote in its name. The answer is parsed as
the statement, and it returns both. -/
theorem parse_answer_delete :
    ∃ items,
      parse "DELETE FROM T\nRETURNING \"a\"\"b\",\"A\"".toList
        = .ok ⟨⟨some .delete, some ['T'], [], [], items, false⟩, .none⟩ ∧
      (Builder.ofStatement "DELETE FROM T; ".toList .full).Requested dialectThreeTable
        (.indexes [2, 1]) items := by
  have hparse : parse "DELETE FROM T; ".toList
      = .ok ⟨⟨some .delete, some ['T'], [], [], [], false⟩, .none⟩ := by rfl
  have hanswer : (Builder.ofStatement "DELETE FROM T; ".toList .full).answer dialectThreeTable
      (.indexes [2, 1]) = .ok ⟨true, "DELETE FROM T\nRETURNING \"a\"\"b\",\"A\"".toList⟩ := by rfl
  obtain ⟨items, hrequested, -, hreread, -⟩ := parse_answer hparse rfl (by rfl) rfl
    (by decide +kernel) (by decide +kernel) rfl hanswer
  exact ⟨items, hreread, hrequested⟩

end GeneratedKeys
