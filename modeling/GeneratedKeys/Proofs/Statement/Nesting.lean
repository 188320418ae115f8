import GeneratedKeys.Proofs.Statement.Refusal
import GeneratedKeys.Proofs.Statement.Standalone
import GeneratedKeys.Proofs.Value.Nesting
import Mathlib.Logic.Function.Iterate

/-!
# `GeneratedKeys.Proofs.Statement.Nesting`: the nesting limit

A statement is refused as too deep if a value of it is nested in 256 other ones. An INSERT of one
value shows what that means for a text. A value without signs in front of its operands may be of any
length: as long as no more than 63 parentheses and brackets are open at once, it is parsed without
problems. A pair of parentheses around a value, or a sign and a blank in front of it, counts one, so
255 of them are accepted and 256 are not.

* `nesting_levels`: both.
* `parse_of_oneValue`, `tooDeep_of_oneValue`: an INSERT of one value is parsed if there are levels
  enough for the value, and refused if another value is nested too deep in it.
-/

set_option autoImplicit false

namespace GeneratedKeys

open Rule Grammar Move Scan

/-- The tokens of an INSERT of one value, which has the tokens `w`. Without columns there is nothing
else that could nest. -/
inductive OneValue (table : Token) (w : List Token) : List Token → Prop where
  | insert {insert into values opening closing : Token} :
      insert.kind = .keyword .insert → into.kind = .keyword .into → Name table.kind →
        values.kind = .keyword .values → opening.kind = .leftParen → closing.kind = .rightParen →
          OneValue table w (insert :: into :: table :: values :: opening :: (w ++ [closing]))

variable {t v : Text} {table : Token} {w : List Token}

/-! ### Statements of one value -/

/-- An INSERT of one value that is passed is parsed without problems, and the value is kept with its
text. -/
theorem parse_of_oneValue (hfault : Faultless t) (h : OneValue table w (visibleTokens t))
    (hpass : ∀ closing : Token, closing.kind = .rightParen →
      Passes nestingLimit (.value 0) (w ++ [closing]) [closing]) :
    parse t = .ok ⟨⟨some .insert, some table.text, [], [covered t w], [], false⟩, .none⟩ := by
  have hword : InsertionWord (ValueRange nestingLimit) (visibleTokens t)
      ⟨.insert, table, [], [w], [], false⟩ := by
    generalize visibleTokens t = ts at h
    cases h with
    | insert hinsert hinto htable hvalues hopening hclosing =>
        have hvalue := valueRange_iff.2 ⟨rfl, hpass _ hclosing⟩
        exact .insert hinsert hinto htable .none (.values hvalues hopening (.last hvalue) hclosing)
          .none .absent
  rw [parse_of_insertionWord hfault hword]
  rfl

/-- What is nested in the first value of an INSERT is nested in the statement. -/
theorem nests_insert {d : Nat} {insert into values opening : Token} {us rest : List Token}
    (hinsert : insert.kind = .keyword .insert) (hinto : into.kind = .keyword .into)
    (htable : Name table.kind) (hvalues : values.kind = .keyword .values)
    (hopening : opening.kind = .leftParen) (h : Nests d (.value 0) us rest) :
    Nests d (statement .insert) (insert :: into :: table :: values :: opening :: us) rest := by
  have hname : Passes 0 Rule.name (table :: values :: opening :: us) (values :: opening :: us) :=
    Passes.name_iff.2 ⟨table, rfl, isName_iff.2 htable⟩
  obtain ⟨ms, ks, hread, -⟩ := hname
  -- Behind the table comes VALUES, so there are no target columns.
  have hcolumns : Passes 0 (optional (isA .leftParen) targetColumns) (values :: opening :: us)
      (values :: opening :: us) := by
    have hnone := passes_isA_eq_false rfl (show values.kind ≠ .leftParen by simp [hvalues]) []
    rw [Passes.optional_iff, if_neg (by simp [hnone])]
  -- The value is the first item of the list.
  have hlist : Nests d (separated (.record .value (.value 0))) us rest := .first (.record h)
  have hclause : Nests d valuesClause (values :: opening :: us) rest :=
    .after (passes_word_of (n := 0) hvalues) (.after (n := 0)
      ((Passes.expect_kind_iff rfl).2 ⟨opening, rfl, hopening⟩) (.first hlist))
  exact .after (passes_word_of (n := 0) hinsert) (.after (passes_word_of (n := 0) hinto)
    (.second (.record hread) (.after hcolumns (.first (.yes (passes_isWord hvalues _) hclause)))))

/-- An INSERT of one value in which another one is nested too deep is refused. What follows the
value does not matter, as reading stops inside it. -/
theorem tooDeep_of_oneValue (hfault : Faultless t) (h : OneValue table w (visibleTokens t))
    (hdeep : ∀ us, ∃ rest, Nests nestingLimit (.value 0) (w ++ us) rest) :
    ∃ place, parse t = .error (.tooDeep nestingLimit place) := by
  have hbegins : ∃ x, BeginsInside t nestingLimit x := by
    rw [← significantTokens_eq hfault] at h
    generalize hts : significantTokens t = ts at h
    cases h with
    | @insert _ _ _ _ closing hinsert hinto htable hvalues hopening hclosing =>
        obtain ⟨rest, hvalue⟩ := hdeep [closing]
        have hnests := nests_insert hinsert hinto htable hvalues hopening hvalue
        exact ⟨_, .insert, rest, hts ▸ .insert hinsert, hts ▸ hnests, rfl⟩
  obtain ⟨x, hx⟩ := hbegins
  exact hx.exists_error

/-! ### Values written into values -/

/-- With `n` levels the text is read as a value, in front of any token that ends a value. -/
def ReadWith (n : Nat) (v : Text) : Prop :=
  ∀ (power k : Nat) (t : Token) (us : List Token), isQuiet t.kind = true →
    Passes n (.value power) (visibleFrom k v ++ t :: us) (t :: us)

/-- In the value that the text is read as another one begins inside `d` values, wherever the text
stands. -/
def Deep (d : Nat) (v : Text) : Prop :=
  ∀ (power k : Nat) (us : List Token), ∃ rest, Nests d (.value power) (visibleFrom k v ++ us) rest

/-- A way to write a value into another one, which takes one level. The fields say that it keeps
what is known of the text, and that it adds a level from below and from above. -/
structure TakesLevel (f : Text → Text) : Prop where
  trimmed {v : Text} : Trimmed v → Trimmed (f v)
  readWith {n : Nat} {v : Text} : Trimmed v → ReadWith n v → ReadWith (n + 1) (f v)
  deep {d : Nat} {v : Text} : Trimmed v → Deep d v → Deep (d + 1) (f v)

namespace TakesLevel

variable {f : Text → Text}

/-- What is written around a text again and again leaves it a text with a token at either end. -/
theorem trimmed_iterate (h : TakesLevel f) (hv : Trimmed v) (n : Nat) : Trimmed (f^[n] v) := by
  induction n with
  | zero => exact hv
  | succ n ih =>
      rw [Function.iterate_succ_apply']
      exact h.trimmed ih

/-- Each time takes one level of nesting more, by induction on how often it is done. -/
theorem readWith_iterate (h : TakesLevel f) (hv : Trimmed v) {m : Nat} (hread : ReadWith m v)
    (n : Nat) : ReadWith (m + n) (f^[n] v) := by
  induction n with
  | zero => exact hread
  | succ n ih =>
      rw [Function.iterate_succ_apply']
      exact h.readWith (h.trimmed_iterate hv n) ih

/-- A text in which another is written `n` times has a value inside `d` others, for every `d` up to
`n`. -/
theorem deep_iterate (h : TakesLevel f) (hv : Trimmed v) {d n : Nat} (hle : d ≤ n) :
    Deep d (f^[n] v) := by
  induction d generalizing n with
  | zero => exact fun _ _ _ => ⟨_, .here⟩
  | succ d ih =>
      obtain ⟨n, rfl⟩ : ∃ n', n = n' + 1 := ⟨n - 1, by omega⟩
      rw [Function.iterate_succ_apply']
      exact h.deep (h.trimmed_iterate hv n) (ih (Nat.le_of_succ_le_succ hle))

end TakesLevel

/-! ### Parentheses -/

/-- The text in parentheses, which is one way to take a level. -/
def inParens (v : Text) : Text :=
  '(' :: (v ++ [')'])

/-- The tokens of a text in parentheses are those of the text between the two parentheses. -/
theorem Trimmed.tokensFrom_inParens (h : Trimmed v) (k : Nat) :
    tokensFrom k (inParens v) = ⟨.leftParen, ['('], k⟩ :: (tokensFrom (k + 1) v
      ++ [⟨.rightParen, [')'], k + 1 + Text.size v⟩]) := by
  have hopening : tokensFrom k (inParens v)
      = ⟨.leftParen, ['('], k⟩ :: tokensFrom (k + 1) (v ++ [')']) :=
    tokensFrom_token (t := []) (scan_leftParen (v ++ [')']))
  have hclosing : tokensFrom (k + 1 + Text.size v) [')']
      = [⟨.rightParen, [')'], k + 1 + Text.size v⟩] :=
    tokensFrom_token (t := []) (scan_rightParen [])
  rw [hopening, (h.boundary rfl (k + 1) []).tokens_eq, hclosing]

/-- So are the visible ones: those of the text, with one parenthesis in front and one behind. -/
theorem Trimmed.visibleFrom_inParens (h : Trimmed v) (k : Nat) :
    visibleFrom k (inParens v) = ⟨.leftParen, ['('], k⟩ :: (visibleFrom (k + 1) v
      ++ [⟨.rightParen, [')'], k + 1 + Text.size v⟩]) := by
  rw [visibleFrom, h.tokensFrom_inParens, List.filter_cons_of_pos rfl, List.filter_append,
    List.filter_cons_of_pos rfl]
  rfl

/-- A text in parentheses begins and ends with a visible token, so it can be put in parentheses
again. -/
theorem Trimmed.inParens (h : Trimmed v) : Trimmed (inParens v) where
  faultless := by
    rw [Faultless, visibleTokens, h.visibleFrom_inParens]
    exact List.forall_mem_cons.2 ⟨rfl, List.forall_mem_append.2
      ⟨fun x hx => h.fault?_of_mem hx, List.forall_mem_singleton.2 rfl⟩⟩
  exists_first := by
    rw [tokens, h.tokensFrom_inParens]
    exact ⟨_, rfl, rfl⟩
  exists_last := by
    rw [tokens, h.tokensFrom_inParens, ← List.cons_append]
    exact ⟨_, List.getLast?_concat, rfl⟩

/-- A pair of parentheses around a value takes a level: the value is read with one level more, and
what is deep inside is deeper by one. -/
theorem takesLevel_inParens : TakesLevel inParens where
  trimmed h := h.inParens
  readWith {n v} h hread power k t us ht := by
    rw [h.visibleFrom_inParens, List.cons_append, List.append_assoc]
    exact .enclosed rfl rfl (hread 0 (k + 1) _ (t :: us) rfl)
      (State.passes_one_cons.trans (extendsValue_of_isQuiet _ ht))
  deep {d v} h hdeep power k us := by
    rw [h.visibleFrom_inParens, List.cons_append, List.append_assoc]
    obtain ⟨rest, hnests⟩ := hdeep 0 (k + 1) (_ :: us)
    exact ⟨rest, .enclosed rfl hnests⟩

/-! ### Signs -/

/-- The text with a minus sign and a blank in front. Without the blank, two signs would begin a
comment. -/
def negated (v : Text) : Text :=
  '-' :: ' ' :: v

/-- A text that begins with a visible token does not begin with a blank. -/
theorem Trimmed.isSpace_eq_false {c : Char} {u : Text} (h : Trimmed (c :: u)) :
    isSpace c = false := by
  obtain ⟨x, hx, hvisible⟩ := h.exists_first
  rw [tokens, tokensFrom_cons] at hx
  obtain rfl := Option.some.inj hx
  rw [Bool.eq_false_iff]
  intro hc
  rw [firstToken, scan, if_pos hc] at hvisible
  cases hvisible

/-- The tokens of a text behind a minus sign: the sign, the blank and those of the text. -/
theorem Trimmed.tokensFrom_negated (h : Trimmed v) (k : Nat) :
    tokensFrom k (negated v)
      = ⟨.minus, ['-'], k⟩ :: ⟨.whitespace, [' '], k + 1⟩ :: tokensFrom (k + 2) v := by
  -- The blank keeps the sign from being taken for a part of a number.
  have hminus : tokensFrom k (negated v) = ⟨.minus, ['-'], k⟩ :: tokensFrom (k + 1) (' ' :: v) :=
    tokensFrom_token (t := []) rfl
  -- The text begins with no blank, so the blank is a token by itself.
  have hblank : scan ' ' v = ⟨.whitespace, 0⟩ := by
    have hspace : isSpace ' ' = true := rfl
    cases v with
    | nil => rfl
    | cons c u =>
        rw [scan, if_pos hspace, List.takeWhile_cons_of_neg (by simp [h.isSpace_eq_false])]
        rfl
  have hspace : tokensFrom (k + 1) (' ' :: v)
      = ⟨.whitespace, [' '], k + 1⟩ :: tokensFrom (k + 2) v :=
    tokensFrom_token (t := []) hblank
  rw [hminus, hspace]

/-- The blank is not visible, so the text gets one token more, and its own ones move by two bytes.
-/
theorem Trimmed.visibleFrom_negated (h : Trimmed v) (k : Nat) :
    visibleFrom k (negated v) = ⟨.minus, ['-'], k⟩ :: visibleFrom (k + 2) v := by
  rw [visibleFrom, h.tokensFrom_negated, List.filter_cons_of_pos rfl,
    List.filter_cons_of_neg Bool.false_ne_true]
  rfl

/-- A text behind a minus sign begins and ends with a visible token. -/
theorem Trimmed.negated (h : Trimmed v) : Trimmed (negated v) where
  faultless := by
    rw [Faultless, visibleTokens, h.visibleFrom_negated]
    exact List.forall_mem_cons.2 ⟨rfl, fun x hx => h.fault?_of_mem hx⟩
  exists_first := by
    rw [tokens, h.tokensFrom_negated]
    exact ⟨_, rfl, rfl⟩
  exists_last := by
    obtain ⟨-, l, -, -, hl, hvisible⟩ := h.ends_from (0 + 2)
    refine ⟨l, ?_, hvisible⟩
    rw [tokens, h.tokensFrom_negated, List.getLast?_cons_cons, List.getLast?_cons, hl]
    rfl

/-- A sign in front of a value takes a level. It has to be a token by itself, so a blank stands
behind it. -/
theorem takesLevel_negated : TakesLevel negated where
  trimmed h := h.negated
  readWith {n v} h hread power k t us ht := by
    rw [h.visibleFrom_negated, List.cons_append]
    exact .signed (.inr rfl) (hread 7 (k + 2) t us ht)
      (State.passes_one_cons.trans (extendsValue_of_isQuiet _ ht))
  deep {d v} h hdeep power k us := by
    rw [h.visibleFrom_negated, List.cons_append]
    obtain ⟨rest, hnests⟩ := hdeep 7 (k + 2) us
    exact ⟨rest, .signed (.inr rfl) hnests⟩

/-! ### The limit -/

/-- The number begins and ends with a visible token, as it is one. -/
theorem trimmed_one : Trimmed ['1'] where
  faultless := by
    rw [Faultless]
    decide
  exists_first := ⟨⟨.integer false, ['1'], 0⟩, by decide, rfl⟩
  exists_last := ⟨⟨.integer false, ['1'], 0⟩, by decide, rfl⟩

/-- A number takes one level, as every value does, so with none left it cannot be read. -/
theorem readWith_one (n : Nat) : ReadWith (n + 1) ['1'] := by
  intro power k t us ht
  refine Passes.value_of_operand ?_ (State.passes_one_cons.trans (extendsValue_of_isQuiet _ ht))
  exact Passes.branch_iff.2 (passes_primary_iff.2 (Passes.take_cons_iff.2 rfl))

/-- The statement that inserts one text, as tokens: five in front of those of the text, and one
behind. -/
theorem oneValue_insertionOf (h : Trimmed v) :
    OneValue ⟨.identifier ['T'], ['T'], 12⟩ (visibleFrom 22 v)
      (visibleTokens (insertionOf [v])) := by
  rw [visibleTokens_insertionOf, visibleTokens_front, closedList_singleton,
    h.visibleFrom_append rfl, visibleFrom_closing]
  exact .insert rfl rfl (.plain _) rfl rfl rfl

/-- The value of the statement that inserts one text is the text. -/
theorem covered_insertionOf (h : Trimmed v) :
    covered (insertionOf [v]) (visibleFrom 22 v) = v := by
  have hplace : Text.size "INSERT INTO T VALUES (".toList = 22 := rfl
  have hcovered := h.covered_eq "INSERT INTO T VALUES (".toList [')']
  rwa [hplace, ← closedList_singleton, ← insertionOf_eq] at hcovered

/-- What is written around the number 255 times is accepted, and one more time is refused. -/
theorem parse_iterate {f : Text → Text} (h : TakesLevel f) (n : Nat) :
    (n ≤ 255 → parse (insertionOf [f^[n] ['1']])
      = .ok ⟨⟨some .insert, some ['T'], [], [f^[n] ['1']], [], false⟩, .none⟩) ∧
    (256 ≤ n → ∃ place, parse (insertionOf [f^[n] ['1']]) = .error (.tooDeep 256 place)) := by
  have htrimmed := h.trimmed_iterate trimmed_one n
  have hfault : Faultless (insertionOf [f^[n] ['1']]) :=
    faultless_insertionOf (List.cons_ne_nil _ _) (List.forall_mem_singleton.2 htrimmed)
  have hvalue := oneValue_insertionOf htrimmed
  constructor
  · intro hle
    have hread : ReadWith nestingLimit (f^[n] ['1']) := by
      -- One level for the number, one for each time that something is written around it, and some
      -- to spare.
      have hlevels : nestingLimit = (255 - n) + 1 + n := by
        rw [nestingLimit]
        omega
      rw [hlevels]
      exact h.readWith_iterate trimmed_one (readWith_one _) n
    rw [parse_of_oneValue hfault hvalue fun closing hclosing =>
      hread 0 22 closing [] (by rw [hclosing]; rfl), covered_insertionOf htrimmed]
  · intro hle
    exact tooDeep_of_oneValue hfault hvalue (h.deep_iterate trimmed_one hle 0 22)

/-- The nesting limit counts nesting, not length. Any value without a sign in front of an operand is
inserted without problems if no more than 63 parentheses and brackets are open in it at once,
whatever the number of its operators and operands. Parentheses around a number, and signs in front
of it, are counted one by one: 255 are accepted, and from 256 on the statement is refused. -/
theorem nesting_levels :
    (∀ (t : Text) (table : Token) (w : List Token), Faultless t →
      OneValue table w (visibleTokens t) → Derives .value w [] → unsigned false w = true →
        nesting w ≤ 63 →
          parse t = .ok ⟨⟨some .insert, some table.text, [], [covered t w], [], false⟩, .none⟩) ∧
    ∀ f ∈ [inParens, negated], ∀ n : Nat,
      (n ≤ 255 → parse (insertionOf [f^[n] ['1']])
        = .ok ⟨⟨some .insert, some ['T'], [], [f^[n] ['1']], [], false⟩, .none⟩) ∧
      (256 ≤ n → ∃ place, parse (insertionOf [f^[n] ['1']]) = .error (.tooDeep 256 place)) := by
  refine ⟨?_, ?_⟩
  · intro t table w hfault hvalue hderives hunsigned hnesting
    refine parse_of_oneValue hfault hvalue fun closing hclosing => ?_
    -- With 63 parentheses and brackets open there are four levels for each, and four outside of
    -- them.
    obtain ⟨ms, ks, hread, hclean⟩ := passes_value_of_nesting (n := nestingLimit) hderives
      (fun _ ht => by cases ht) hunsigned (by rw [nestingLimit]; omega)
    have hconsumed := hread.consumed_append
    rw [List.append_nil] at hconsumed
    rw [← hconsumed]
    exact hread.passes_quiet hclean (by rw [hclosing]; rfl)
  · intro f hf
    rw [List.mem_cons, List.mem_singleton] at hf
    rcases hf with rfl | rfl
    · exact parse_iterate takesLevel_inParens
    · exact parse_iterate takesLevel_negated

/-- The tokens of `F(A[1]) * 2 -3` behind 22 other characters. The last one is a number with its
sign. -/
def difference : List Token :=
  [⟨.identifier ['F'], ['F'], 22⟩, ⟨.leftParen, ['('], 23⟩, ⟨.identifier ['A'], ['A'], 24⟩,
    ⟨.leftBracket, ['['], 25⟩, ⟨.integer false, ['1'], 26⟩, ⟨.rightBracket, [']'], 27⟩,
    ⟨.rightParen, [')'], 28⟩, ⟨.star, ['*'], 30⟩, ⟨.integer false, ['2'], 32⟩,
    ⟨.integer true, ['-', '3'], 34⟩]

/-- The element of an array in a call, an operator and a number that is subtracted. The 255th pair
of parentheses is accepted, the 256th sign is not. -/
theorem nesting_levels_difference :
    parse "INSERT INTO T VALUES (F(A[1]) * 2 -3)".toList
      = .ok ⟨⟨some .insert, some ['T'], [], ["F(A[1]) * 2 -3".toList], [], false⟩, .none⟩ ∧
    parse (insertionOf [inParens^[255] ['1']])
      = .ok ⟨⟨some .insert, some ['T'], [], [inParens^[255] ['1']], [], false⟩, .none⟩ ∧
    ∃ place, parse (insertionOf [negated^[256] ['1']]) = .error (.tooDeep 256 place) := by
  have htokens : visibleTokens "INSERT INTO T VALUES (F(A[1]) * 2 -3)".toList
      = [⟨.keyword .insert, "INSERT".toList, 0⟩, ⟨.keyword .into, "INTO".toList, 7⟩,
          ⟨.identifier ['T'], ['T'], 12⟩, ⟨.keyword .values, "VALUES".toList, 14⟩,
          ⟨.leftParen, ['('], 21⟩] ++ (difference ++ [⟨.rightParen, [')'], 36⟩]) := by
    decide +kernel
  have hfault : Faultless "INSERT INTO T VALUES (F(A[1]) * 2 -3)".toList := by
    unfold Faultless
    decide +kernel
  have hone : OneValue ⟨.identifier ['T'], ['T'], 12⟩ difference
      (visibleTokens "INSERT INTO T VALUES (F(A[1]) * 2 -3)".toList) := by
    rw [htokens]
    exact .insert rfl rfl (.plain _) rfl rfl rfl
  -- A call with an element of an array in it, and two tails.
  have hderives : Derives .value difference [] := by
    have helement : Derives .values (difference.drop 2) (difference.drop 6) :=
      .values (.value (.unsigned (.element (.plain _) rfl (.values
        (.value (.unsigned (.literal (.integer _))) .noTail) .lastValue) rfl)) .noTail) .lastValue
    exact .value (.unsigned (.call (.plain _) rfl helement rfl))
      (.tails (.operation .star (.unsigned (.literal (.integer _))))
        (.tails (.subtraction (.inl rfl)) .noTail))
  have hcovered : covered "INSERT INTO T VALUES (F(A[1]) * 2 -3)".toList difference
      = "F(A[1]) * 2 -3".toList := by
    decide +kernel
  obtain ⟨hvalues, hlevels⟩ := nesting_levels
  have hparse := hvalues _ _ _ hfault hone hderives (by decide) (by decide)
  rw [hcovered] at hparse
  exact ⟨hparse, (hlevels inParens (List.mem_cons_self ..) 255).1 (Nat.le_refl _),
    (hlevels negated (List.mem_cons_of_mem _ (List.mem_cons_self ..)) 256).2 (Nat.le_refl _)⟩

end GeneratedKeys
