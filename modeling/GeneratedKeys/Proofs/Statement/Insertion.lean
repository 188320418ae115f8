import GeneratedKeys.Proofs.Statement.Clauses

/-!
# `GeneratedKeys.Proofs.Statement.Insertion`: the grammar of insertions

An INSERT of values or of default values and an UPDATE OR INSERT have no body that is skipped,
so they are described by a grammar, token for token:

    INSERT INTO name target (values | DEFAULT VALUES) returning [';']
    UPDATE OR INSERT INTO name target values matching returning [';']

`InsertionWord` relates the words of this grammar to what is kept of them.

* `parse_insertion_iff`: the insertions that are parsed without problems are the words of the
  grammar, and the parts that are reported are those of the word.
-/

set_option autoImplicit false

namespace GeneratedKeys

open Rule Grammar

/-- What is kept of an insertion, as lists of tokens. The texts follow from the tokens by `parts`.
-/
structure Insertion where
  type : StatementType
  table : Token
  columns : List (List Token)
  values : List (List Token)
  returning : List (List Token)
  defaultValues : Bool

namespace Insertion

/-- The parts of the insertion, as texts of the statement. Each text reaches from the first token of
the part to the last one. -/
def parts (t : Text) (i : Insertion) : Statement Text :=
  ⟨some i.type, some i.table.text, i.columns.map (covered t), i.values.map (covered t),
    i.returning.map (covered t), i.defaultValues⟩

/-- The notes of the insertion, in the order of the statement. The type comes last, as it is settled
at the end. -/
def notes (i : Insertion) : List Note :=
  .ofTokens .table [i.table] :: (i.columns.map (.ofTokens .column)
    ++ (i.values.map (.ofTokens .value) ++ (if i.defaultValues then [.defaults] else []))
    ++ (i.returning.map (.ofTokens .returning) ++ [.type i.type]))

/-- The notes stand for the parts: keeping them one after the other gives the insertion as a
statement. -/
theorem partsOf_notes {t : Text} {i : Insertion} (h : i.table ∈ visibleTokens t) :
    partsOf t i.notes = i.parts t := by
  have htable : covered t [i.table] = i.table.text := slice_of_mem h
  have hnote : Note.applyText t .unknown (.ofTokens .table [i.table])
      = Statement.record .table i.table.text .unknown := by
    rw [← htable, ← slice_range_map_pass]
    rfl
  rw [partsOf_eq_foldl, notes, List.foldl_cons, hnote]
  simp only [List.foldl_append, foldl_ofTokens]
  cases hdefault : i.defaultValues <;>
    simp [Statement.recordAll, Statement.record, parts, Note.applyText, Statement.ofType,
      Statement.withDefaultValues, Statement.unknown, hdefault]

end Insertion

/-- The words of the grammar, with what is kept of them. There is one constructor for each form of
an insertion that lists its values or has default ones. -/
inductive InsertionWord (value : List Token → List Token → List Token → Prop) :
    List Token → Insertion → Prop where
  | insert {insert into table : Token} {ts body clause last : List Token}
      {columns values items : List (List Token)} :
      insert.kind = .keyword .insert → into.kind = .keyword .into → Name table.kind →
        Target ts columns body → ValueList value body values clause →
          Returning clause items last → Terminator last →
            InsertionWord value (insert :: into :: table :: ts)
              ⟨.insert, table, columns, values, items, false⟩
  | defaults {insert into table default values : Token} {ts clause last : List Token}
      {columns items : List (List Token)} :
      insert.kind = .keyword .insert → into.kind = .keyword .into → Name table.kind →
        Target ts columns (default :: values :: clause) → default.kind = .keyword .default →
          values.kind = .keyword .values → Returning clause items last → Terminator last →
            InsertionWord value (insert :: into :: table :: ts)
              ⟨.insert, table, columns, [], items, true⟩
  | updateOrInsert {update or insert into table : Token} {ts body matching clause last : List Token}
      {columns values items : List (List Token)} :
      update.kind = .keyword .update → or.kind = .keyword .or → insert.kind = .keyword .insert →
        into.kind = .keyword .into → Name table.kind → Target ts columns body →
          ValueList value body values matching → Matching matching clause →
            Returning clause items last → Terminator last →
              InsertionWord value (update :: or :: insert :: into :: table :: ts)
                ⟨.updateOrInsert, table, columns, values, items, false⟩

/-- Whether the parts are those of an INSERT of values or default values, or of an UPDATE OR
INSERT. -/
def Statement.IsInsertion {α : Type} (s : Statement α) : Prop :=
  s.type? = some .updateOrInsert ∨
    s.type? = some .insert ∧ (s.values ≠ [] ∨ s.defaultValues = true)

/-- The table of a word is one of its tokens, so its text can be told from the statement. -/
theorem InsertionWord.table_mem {value : List Token → List Token → List Token → Prop}
    {ts : List Token} {i : Insertion} (h : InsertionWord value ts i) : i.table ∈ ts := by
  cases h <;> simp

variable {n : Nat} {ts rest : List Token} {ks : List Note}

/-! ### What is read is a word -/

/-- The table in front of other rules is one name, and is kept as one token. -/
theorem yields_table_seq_iff {r : Rule} :
    Yields n (.seq table r) ts ks rest ↔
      ∃ t us ks', ts = t :: us ∧ Name t.kind ∧ Yields n r us ks' rest ∧
        ks = .ofTokens .table [t] :: ks' := by
  rw [yields_seq_iff]
  constructor
  · rintro ⟨mid, ks₁, ks₂, htable, h, rfl⟩
    obtain ⟨w, rfl, hname, rfl⟩ := (yields_record_iff rfl).1 htable
    obtain ⟨t, ht, hkind⟩ := Passes.name_iff.1 hname
    obtain rfl : w = [t] := List.append_cancel_right (show w ++ mid = [t] ++ mid from ht)
    exact ⟨t, mid, ks₂, rfl, isName_iff.1 hkind, h, rfl⟩
  · rintro ⟨t, us, ks', rfl, hkind, h, rfl⟩
    refine ⟨us, [.ofTokens .table [t]], ks', (yields_record_iff rfl).2 ⟨[t], rfl, ?_, rfl⟩, h, rfl⟩
    exact Passes.name_iff.2 ⟨t, rfl, isName_iff.2 hkind⟩

/-- What is inserted: values, default values, or rows that are selected. Only of the last ones
nothing is kept. -/
theorem inserted_of_yields (h : Yields n inserted ts ks rest) :
    (∃ values, ValueList (ValueRange n) ts values rest ∧ ks = values.map (.ofTokens .value)) ∨
    (∃ default values, ts = default :: values :: rest ∧ default.kind = .keyword .default ∧
      values.kind = .keyword .values ∧ ks = [.defaults]) ∨
    ks = [] := by
  rw [inserted, yields_branch_iff] at h
  split at h
  · exact .inl (valueList_of_yields h)
  · rw [yields_branch_iff] at h
    split at h
    · exact .inr (.inr ((yields_iff_of_noteless rfl).1 h).1)
    · rw [yields_branch_iff] at h
      split at h
      -- DEFAULT is there, and VALUES stands behind it.
      · next hp =>
        obtain ⟨default, us, rfl, hothers⟩ := yields_take_seq_iff.1 h
        obtain ⟨values, us, rfl, hvalues, hdefaults⟩ := yields_word_seq_iff.1 hothers
        rw [State.passes_one_cons, isWord_iff] at hp
        obtain ⟨ms, hread, -⟩ := hdefaults
        cases hread
        exact .inr (.inl ⟨default, values, rfl, hp, hvalues, rfl⟩)
      -- With none of the three words the rule fails.
      · obtain ⟨ms, hread, -⟩ := h
        cases hread

/-- Of an INSERT and of an UPDATE OR INSERT what is kept of an insertion is kept. It is a word,
unless rows are selected. -/
theorem insertion_of_yields {type : StatementType} (h : Yields n (statement type) ts ks [])
    (htype : type = .insert ∨ type = .updateOrInsert) :
    ∃ i : Insertion, ks = i.notes ∧ i.table ∈ ts ∧
      (InsertionWord (ValueRange n) ts i ∨
        i.type = .insert ∧ i.values = [] ∧ i.defaultValues = false) := by
  obtain ⟨clause, ks₁, ks₂, hfront, hending, rfl⟩ := yields_statement_iff.1 h
  obtain ⟨last, items, hitems, hlast, rfl, -⟩ := yields_ending_iff.1 hending
  rcases htype with rfl | rfl
  -- The clauses of an INSERT one by one: its words, the table, the columns and what is inserted.
  · obtain ⟨insert, us, rfl, hinsert, h₁⟩ := yields_word_seq_iff.1 hfront
    obtain ⟨into, us, rfl, hinto, h₂⟩ := yields_word_seq_iff.1 h₁
    obtain ⟨table, us, ks₁, rfl, htable, h₃, rfl⟩ := yields_table_seq_iff.1 h₂
    obtain ⟨body, ks₁, ks₂, htarget, hinserted, rfl⟩ := yields_seq_iff.1 h₃
    obtain ⟨columns, hcolumns, rfl⟩ := target_of_yields htarget
    rcases inserted_of_yields hinserted with ⟨values, hvalues, rfl⟩ |
      ⟨default, values, rfl, hdefault, hvalues, rfl⟩ | rfl
    · have hword := InsertionWord.insert hinsert hinto htable hcolumns hvalues hitems hlast
      exact ⟨_, by simp [Insertion.notes], hword.table_mem, .inl hword⟩
    · have hword : InsertionWord (ValueRange n) _ _ :=
        .defaults hinsert hinto htable hcolumns hdefault hvalues hitems hlast
      exact ⟨_, by simp [Insertion.notes], hword.table_mem, .inl hword⟩
    · exact ⟨⟨.insert, table, columns, [], items, false⟩, by simp [Insertion.notes], by simp,
        .inr ⟨rfl, rfl, rfl⟩⟩
  -- An UPDATE OR INSERT has values in any case, and MATCHING behind them.
  · obtain ⟨update, us, rfl, hupdate, h₁⟩ := yields_word_seq_iff.1 hfront
    obtain ⟨or, us, rfl, hor, h₂⟩ := yields_word_seq_iff.1 h₁
    obtain ⟨insert, us, rfl, hinsert, h₃⟩ := yields_word_seq_iff.1 h₂
    obtain ⟨into, us, rfl, hinto, h₄⟩ := yields_word_seq_iff.1 h₃
    obtain ⟨table, us, ks₁, rfl, htable, h₅, rfl⟩ := yields_table_seq_iff.1 h₄
    obtain ⟨body, ks₁, ks₂, htarget, h₆, rfl⟩ := yields_seq_iff.1 h₅
    obtain ⟨columns, hcolumns, rfl⟩ := target_of_yields htarget
    obtain ⟨matching, ks₁, ks₂, h₇, h₈, rfl⟩ := yields_seq_iff.1 h₆
    obtain ⟨values, hvalues, rfl⟩ := valueList_of_yields h₇
    obtain ⟨hmatching, rfl⟩ := matching_of_yields h₈
    have hword := InsertionWord.updateOrInsert hupdate hor hinsert hinto htable hcolumns hvalues
      hmatching hitems hlast
    exact ⟨_, by simp [Insertion.notes], hword.table_mem, .inl hword⟩

/-! ### A word is read -/

/-- The target columns in front of a word. As a word is no parenthesis, leaving them out is seen by
the next token. -/
theorem yields_of_target_word {k : Keyword} {t : Token} {columns : List (List Token)}
    (h : Target ts columns (t :: rest)) (ht : t.kind = .keyword k) :
    Yields n (optional (isA .leftParen) targetColumns) ts (columns.map (.ofTokens .column))
      (t :: rest) :=
  yields_of_target h (passes_isA_eq_false rfl (by simp [ht]) _ _)

/-- The front of an INSERT, if what is inserted begins with a word. -/
theorem yields_front_insert {insert into table t : Token} {body : List Token}
    {columns : List (List Token)} {k : Keyword} (hinsert : insert.kind = .keyword .insert)
    (hinto : into.kind = .keyword .into) (htable : Name table.kind)
    (hcolumns : Target ts columns (t :: body)) (ht : t.kind = .keyword k)
    (hbody : Yields n inserted (t :: body) ks rest) :
    Yields n (front .insert) (insert :: into :: table :: ts)
      (.ofTokens .table [table] :: (columns.map (.ofTokens .column) ++ ks)) rest := by
  have htarget := yields_seq_iff.2 ⟨_, _, _, yields_of_target_word hcolumns ht, hbody, rfl⟩
  have hothers := yields_table_seq_iff.2 ⟨_, _, _, rfl, htable, htarget, rfl⟩
  exact yields_word_seq_iff.2
    ⟨_, _, rfl, hinsert, yields_word_seq_iff.2 ⟨_, _, rfl, hinto, hothers⟩⟩

/-- A VALUES clause begins with its word, which tells it from the other bodies of an INSERT. -/
theorem ValueList.exists_word {value : List Token → List Token → List Token → Prop}
    {vs : List (List Token)} (h : ValueList value ts vs rest) :
    ∃ t us, ts = t :: us ∧ t.kind = .keyword .values := by
  cases h with
  | values hvalues _ _ _ => exact ⟨_, _, rfl, hvalues⟩

/-- A RETURNING clause or the end goes on with no clause in front of it. -/
theorem Returning.passes_eq_false {last : List Token} {items : List (List Token)}
    (h : Returning ts items last) (hlast : Terminator last) {kind : TokenKind}
    (hkind : kind.hasValue = false) (hreturning : kind ≠ .keyword .returning)
    (hsemicolon : kind ≠ .semicolon) (tests : List (TokenKind → Bool)) :
    State.passes (isA kind :: tests) ts = false := by
  cases h with
  | none =>
      cases hlast with
      | absent => rfl
      | semicolon ht => exact passes_isA_eq_false hkind (by rw [ht]; exact hsemicolon.symm) _ _
  | clause ht _ => exact passes_isA_eq_false hkind (by rw [ht]; exact hreturning.symm) _ _

/-- A word is read as a statement of its type, and what is kept of it is noted. -/
theorem yields_of_insertionWord {i : Insertion} (h : InsertionWord (ValueRange n) ts i) :
    Yields n (statement i.type) ts i.notes [] := by
  -- All statements end alike, so only the front differs from case to case.
  have hstatement : ∀ {type : StatementType} {ts clause last : List Token} {ks : List Note}
      {items : List (List Token)}, Yields n (front type) ts ks clause →
        Returning clause items last → Terminator last →
          Yields n (statement type) ts
            (ks ++ (items.map (.ofTokens .returning) ++ [.type type])) [] :=
    fun hfront hitems hlast => yields_statement_iff.2
      ⟨_, _, _, hfront, yields_ending_iff.2 ⟨_, _, hitems, hlast, rfl, rfl⟩, rfl⟩
  cases h with
  | @insert _ _ _ _ _ clause _ _ values _ hinsert hinto htable hcolumns hvalues hitems hlast =>
      obtain ⟨t, us, rfl, ht⟩ := hvalues.exists_word
      have hbody : Yields n inserted (t :: us) (values.map (.ofTokens .value)) clause := by
        rw [inserted, yields_branch_iff, if_pos (passes_isWord ht _)]
        exact yields_of_valueList hvalues
      have hfront := yields_front_insert hinsert hinto htable hcolumns ht hbody
      simpa [Insertion.notes] using hstatement hfront hitems hlast
  | @defaults _ _ _ default values _ clause _ _ _ hinsert hinto htable hcolumns hdefault hvalues
      hitems hlast =>
      have hbody : Yields n inserted (default :: values :: clause) [.defaults] clause := by
        -- DEFAULT is neither of the words that are tested before it.
        have hother : ∀ {k : Keyword}, k ≠ .default →
            ¬ State.passes [isWord k] (default :: values :: clause) = true := by
          intro k hk
          rw [State.passes_one_cons, isWord_iff, hdefault, TokenKind.keyword.injEq]
          exact hk.symm
        rw [inserted, yields_branch_iff, if_neg (hother (by decide)), yields_branch_iff,
          if_neg (hother (by decide)), yields_branch_iff, if_pos (passes_isWord hdefault _)]
        exact yields_take_seq_iff.2 ⟨_, _, rfl, yields_word_seq_iff.2 ⟨_, _, rfl, hvalues,
          [], .defaults, Move.clean_nil⟩⟩
      have hfront := yields_front_insert hinsert hinto htable hcolumns hdefault hbody
      simpa [Insertion.notes] using hstatement hfront hitems hlast
  | updateOrInsert hupdate hor hinsert hinto htable hcolumns hvalues hmatching hitems hlast =>
      obtain ⟨t, us, rfl, ht⟩ := hvalues.exists_word
      -- Behind the MATCHING clause stands a RETURNING or the end, which goes on with no column.
      have hclause := yields_of_matching (n := n) hmatching
        (hitems.passes_eq_false hlast rfl (by simp) (by simp) _)
        (hitems.passes_eq_false hlast rfl (by simp) (by simp) _)
        (hitems.passes_eq_false hlast rfl (by simp) (by simp) _)
      have hbody := yields_seq_iff.2 ⟨_, _, _, yields_of_valueList hvalues, hclause, rfl⟩
      have htarget := yields_seq_iff.2 ⟨_, _, _, yields_of_target_word hcolumns ht, hbody, rfl⟩
      have hothers := yields_table_seq_iff.2 ⟨_, _, _, rfl, htable, htarget, rfl⟩
      have hfront : Yields n (front .updateOrInsert) _ _ _ :=
        yields_word_seq_iff.2 ⟨_, _, rfl, hupdate, yields_word_seq_iff.2 ⟨_, _, rfl, hor,
          yields_word_seq_iff.2 ⟨_, _, rfl, hinsert, yields_word_seq_iff.2 ⟨_, _, rfl, hinto,
            hothers⟩⟩⟩⟩
      simpa [Insertion.notes] using hstatement hfront hitems hlast

/-! ### Parsing insertions -/

/-- A word is parsed without problems, and its parts are those of the statement. -/
theorem parse_of_insertionWord {t : Text} {i : Insertion} (hfault : Faultless t)
    (h : InsertionWord (ValueRange nestingLimit) (visibleTokens t) i) :
    parse t = .ok ⟨i.parts t, .none⟩ :=
  (parse_clean_iff hfault).2
    ⟨i.type, i.notes, yields_of_insertionWord h, (Insertion.partsOf_notes h.table_mem).symm⟩

/-- The parts of a word are those of an INSERT or of an UPDATE OR INSERT. -/
theorem Insertion.isInsertion_parts {value : List Token → List Token → List Token → Prop}
    {i : Insertion} (h : InsertionWord value ts i) (t : Text) : (i.parts t).IsInsertion := by
  cases h with
  | insert _ _ _ _ hvalues _ _ =>
      -- There is no list without a value.
      have hne : ∀ {ts rest : List Token} {vs : List (List Token)}, Listed value ts vs rest →
          vs ≠ [] := by
        intro ts rest vs hlist
        cases hlist <;> exact List.cons_ne_nil _ _
      cases hvalues with
      | values _ _ hlist _ =>
          exact .inr ⟨rfl, .inl fun hnil => hne hlist (List.map_eq_nil_iff.1 hnil)⟩
  | defaults => exact .inr ⟨rfl, .inr rfl⟩
  | updateOrInsert => exact .inl rfl

/-- The type of the parts is the one noted last, as every statement settles its type at its end. -/
theorem type_partsOf {n : Nat} {type : StatementType} {ts : List Token} {ks : List Note}
    (h : Yields n (statement type) ts ks []) (t : Text) : (partsOf t ks).type? = some type := by
  obtain ⟨clause, ks₁, ks₂, -, hending, rfl⟩ := yields_statement_iff.1 h
  obtain ⟨last, items, -, -, rfl, -⟩ := yields_ending_iff.1 hending
  rw [← List.append_assoc, partsOf_append]
  rfl

/-- The parts of an INSERT or of an UPDATE OR INSERT without problems are those of an insertion. It
is a word, unless rows are selected. -/
theorem insertion_of_clean {t : Text} {p : ParsedStatement} (h : parse t = .ok p)
    (hclean : p.isClean = true) {type : StatementType} (htype : p.statement.type? = some type)
    (hinsertion : type = .insert ∨ type = .updateOrInsert) :
    ∃ i : Insertion, p.statement = i.parts t ∧ i.type = type ∧
      (InsertionWord (ValueRange nestingLimit) (visibleTokens t) i ∨
        i.type = .insert ∧ i.values = [] ∧ i.defaultValues = false) := by
  obtain ⟨-, found, ms, ks, hread, hall, hparts⟩ := reads_of_clean h hclean
  have hyields : Yields nestingLimit (statement found) (visibleTokens t) ks [] := ⟨ms, hread, hall⟩
  rw [hparts] at htype ⊢
  obtain rfl : found = type := Option.some.inj ((type_partsOf hyields t).symm.trans htype)
  obtain ⟨i, rfl, htable, hi⟩ := insertion_of_yields hyields hinsertion
  rw [Insertion.partsOf_notes htable] at htype ⊢
  exact ⟨i, rfl, Option.some.inj htype, hi⟩

/-- A text without lexical errors is parsed without problems as an INSERT of values or default
values, or as an UPDATE OR INSERT, exactly if its visible tokens are a word of the grammar. The
parts are those of the word. A value in a word is what reading a value consumes without
repairs; with more levels of nesting than the limit there are more words, and those are nested
too deep. -/
theorem parse_insertion_iff {t : Text} (hfault : Faultless t) :
    (∀ o : Statement Text, parse t = .ok ⟨o, .none⟩ ∧ o.IsInsertion ↔
      ∃ i, InsertionWord (ValueRange nestingLimit) (visibleTokens t) i ∧ o = i.parts t) ∧
    ∀ (levels : Nat) (i : Insertion), InsertionWord (ValueRange levels) (visibleTokens t) i →
      parse t = .ok ⟨i.parts t, .none⟩ ∨
        ∃ place, parse t = .error (.tooDeep nestingLimit place) := by
  have hword : ∀ {levels : Nat} {i : Insertion},
      InsertionWord (ValueRange levels) (visibleTokens t) i →
        partsOf t i.notes = i.parts t :=
    fun hi => Insertion.partsOf_notes hi.table_mem
  refine ⟨fun o => ⟨?_, ?_⟩, ?_⟩
  · rintro ⟨hparse, ho⟩
    obtain ⟨type, ks, hyields, rfl⟩ := (parse_clean_iff hfault).1 hparse
    have htype := type_partsOf hyields t
    have hinsertion : type = .insert ∨ type = .updateOrInsert := by
      rcases ho with hupdate | ⟨hinsert, -⟩
      · exact .inr (Option.some.inj (htype.symm.trans hupdate))
      · exact .inl (Option.some.inj (htype.symm.trans hinsert))
    obtain ⟨i, rfl, htable, hi | ⟨hinsert, hvalues, hdefault⟩⟩ :=
      insertion_of_yields hyields hinsertion
    · exact ⟨i, hi, hword hi⟩
    · -- Of selected rows nothing is kept that makes an insertion of the statement.
      rw [Insertion.partsOf_notes htable] at ho
      simp [Statement.IsInsertion, Insertion.parts, hinsert, hvalues, hdefault] at ho
  -- A word is read without repairs, so it is parsed without problems.
  · rintro ⟨i, hi, rfl⟩
    have hyields := yields_of_insertionWord hi
    exact ⟨(parse_clean_iff hfault).2 ⟨i.type, i.notes, hyields, (hword hi).symm⟩,
      Insertion.isInsertion_parts hi t⟩
  -- With more levels than the limit a word may be nested too deep.
  · intro levels i hi
    obtain ⟨ms, hread, hclean⟩ := yields_of_insertionWord hi
    rw [← hword hi]
    exact (parse_of_reads_levels hfault hread hclean).imp_right And.right

/-- An INSERT whose returned column has an alias is a word, and the alias is not kept. -/
theorem parse_insertion_iff_alias :
    ∃ i, InsertionWord (ValueRange nestingLimit)
        (visibleTokens "INSERT INTO T (A, B.C) VALUES (1, -2 || x) RETURNING T.A AS B;".toList) i ∧
      i.parts "INSERT INTO T (A, B.C) VALUES (1, -2 || x) RETURNING T.A AS B;".toList
        = ⟨some .insert, some ['T'], ["A".toList, "B.C".toList], ["1".toList, "-2 || x".toList],
            ["T.A".toList], false⟩ := by
  have hfault : Faultless
      "INSERT INTO T (A, B.C) VALUES (1, -2 || x) RETURNING T.A AS B;".toList := by
    unfold Faultless
    decide +kernel
  have hparse : parse "INSERT INTO T (A, B.C) VALUES (1, -2 || x) RETURNING T.A AS B;".toList
      = .ok ⟨⟨some .insert, some ['T'], ["A".toList, "B.C".toList],
          ["1".toList, "-2 || x".toList], ["T.A".toList], false⟩, .none⟩ := by rfl
  obtain ⟨i, hi, hparts⟩ := ((parse_insertion_iff hfault).1 _).1
    ⟨hparse, .inr ⟨rfl, .inl (List.cons_ne_nil _ _)⟩⟩
  exact ⟨i, hi, hparts.symm⟩

end GeneratedKeys
