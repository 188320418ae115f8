import GeneratedKeys.Proofs.Value.Balanced

/-!
# `GeneratedKeys.Proofs.Value.Complete`: every value is read as a value

A derived value is read up to its end if nothing behind it could go on with it (`Ends`).
The loop over the operators stops early where the next one binds too weakly, so what is
proved of a nested value is that it takes some of the tails: those left begin with an
operator too weak for it, and they are derived still (`Complete`). At the power 0 no
operator is too weak, and nothing is left.

The induction is on the levels of nesting. How many are enough is left to a measure of the
tokens, a `Budget`: it says what is left of the levels behind a token, inside parentheses and in
the operand of an operator. A negative number behind an operand is read as a value where it
stands, so no measure can go by the tokens alone.

* `complete`: with enough levels for it a derived value is passed.
* `passes_value_of_derives`: as many levels as tokens are enough.
-/

set_option autoImplicit false

namespace GeneratedKeys

open Rule

/-- Nothing at the beginning of the tokens could go on with a value: they begin with a
separator, a closing bracket, the end or a reserved word other than COLLATE. -/
def Ends (ts : List Token) : Prop :=
  ∀ t, ts.head? = some t →
    t.kind ∈ [TokenKind.comma, .rightParen, .rightBracket, .semicolon, .eof] ∨
      ∃ k, k ≠ Keyword.collate ∧ t.kind = .keyword k

/-- The tokens do not begin with what could go on with a name, so a name in front of them is a
column. -/
def EndsName (ts : List Token) : Prop :=
  ∀ t, ts.head? = some t → t.kind ∉ [TokenKind.leftParen, .leftBracket, .dot]

/-! ### What may follow a value -/

/-- A value ends in front of a comma, a closing token, a semicolon or the end. -/
theorem ends_cons {t : Token} {ts : List Token}
    (ht : t.kind ∈ [TokenKind.comma, .rightParen, .rightBracket, .semicolon, .eof]) :
    Ends (t :: ts) := by
  intro u hu
  cases hu
  exact Or.inl ht

/-- It ends in front of any word but COLLATE, which is the only word that goes on with a value. -/
theorem ends_word {t : Token} {ts : List Token} {k : Keyword} (ht : t.kind = .keyword k)
    (hk : k ≠ .collate) : Ends (t :: ts) := by
  intro u hu
  cases hu
  exact Or.inr ⟨k, hk, ht⟩

/-- It ends in front of a closing parenthesis, as nothing goes on with one. -/
theorem ends_closing {t : Token} {ts : List Token} (ht : t.kind = .rightParen) :
    Ends (t :: ts) :=
  ends_cons (by simp [ht])

/-- No operator stands where a value ends, so the loop over the operators stops there. -/
theorem Ends.not_extends {ts : List Token} (h : Ends ts) (power : Nat) :
    State.passes [Grammar.extendsValue power] ts = false := by
  cases ts with
  | nil => rfl
  | cons t ts =>
      rw [State.passes_one_cons]
      rcases h t rfl with hk | ⟨k, hk, ht⟩
      · simp only [List.mem_cons, List.not_mem_nil, or_false] at hk
        rcases hk with hk | hk | hk | hk | hk <;> rw [hk] <;> rfl
      · rw [ht]
        cases k <;> first | rfl | exact absurd rfl hk

/-- Where a value ends a name ends as well: neither arguments, nor a subscript, nor a point is
there. -/
theorem Ends.endsName {ts : List Token} (h : Ends ts) : EndsName ts := by
  intro t ht
  rcases h t ht with hk | ⟨k, -, hk⟩
  · simp only [List.mem_cons, List.not_mem_nil, or_false] at hk
    rcases hk with hk | hk | hk | hk | hk <;> simp [hk]
  · simp [hk]

/-- An operator does not go on with a name either, so a name in front of tails is a column. -/
theorem endsName_of_tails {ts rest : List Token} (h : Derives .tails ts rest) (hr : Ends rest) :
    EndsName ts := by
  intro t ht
  cases h with
  -- Without a tail the tokens behind the value are next.
  | noTail => exact hr.endsName t ht
  | tails htail _ =>
      cases htail with
      | collation hc _ =>
          cases ht
          simp [hc]
      | operation ho _ =>
          cases ht
          intro hk
          generalize t.kind = kind at ho hk
          -- None of the operators is what goes on with a name.
          cases ho <;> simp at hk
      | subtraction hs =>
          cases ht
          rcases hs with hs | hs <;> simp [hs]

/-- The first tail of several is one that the power 0 lets in. -/
theorem eq_of_tails {ts rest : List Token} (h : Derives .tails ts rest)
    (hp : State.passes [Grammar.extendsValue 0] ts = false) : ts = rest := by
  cases h with
  | noTail => rfl
  | tails htail _ =>
      exfalso
      cases htail with
      | collation hc _ => simp [hc, Grammar.extendsValue, Grammar.leftPower?] at hp
      | @operation t _ _ ho _ =>
          rw [State.passes_one_cons] at hp
          generalize t.kind = kind at ho hp
          cases ho <;> simp [Grammar.extendsValue, Grammar.leftPower?] at hp
      | subtraction hs =>
          rcases hs with hs | hs <;> simp [hs, Grammar.extendsValue, Grammar.leftPower?] at hp

/-! ### The alternatives of a primary -/

/-- The rule of the primaries that begin with a kind of token. No two of them begin alike, so the
kind decides. -/
def primaryOf : TokenKind → Rule
  | .integer _ | .real _ | .string _ | .question => .take
  | .leftParen => Grammar.enclosed
  | .identifier _ | .quotedIdentifier _ => Grammar.named
  | .keyword k =>
    match k with
    | .null | .dbKey | .currentUser | .currentRole | .currentDate | .currentTime
    | .currentTimestamp => .take
    | .substring => Grammar.substringCall
    | .trim => Grammar.trimCall
    | .extract => Grammar.extractCall
    | .count => Grammar.countCall
    | .sum | .avg | .minimum | .maximum => Grammar.aggregateCall
    | .next => Grammar.nextValue
    | .genId => Grammar.genIdCall
    | .cast => Grammar.castCall
    | _ => .fail "value"
  | _ => .fail "value"

variable {n : Nat} {t : Token} {ts rest : List Token}

/-- A primary is read by the one rule that its first token chooses. -/
theorem passes_primary_iff :
    Passes n Grammar.primary (t :: ts) rest ↔ Passes n (primaryOf t.kind) (t :: ts) rest := by
  obtain ⟨kind, text, start⟩ := t
  simp only [Grammar.primary, Passes.branch_iff, State.passes_one_cons]
  cases kind with
  | keyword k => cases k <;> rfl
  | _ => rfl

/-! ### Enough levels -/

/-- Whether an operand may end with a token of the kind: a literal, a name, or something that
closes. -/
def TokenKind.endsOperand (kind : TokenKind) : Bool :=
  Grammar.isLiteral kind || kind.isName || kind.closes

/-- A measure of the levels that values need. `enough n power behind ts` says that `n` levels
are enough for a value that is read with the power from `ts` on; with `behind` an operand of it
ends in front of `ts`. Where a value begins inside of another one, one level less is left. -/
structure Budget (enough : Nat → Nat → Bool → List Token → Prop) : Prop where
  /-- Without levels only nothing is read. -/
  none {power : Nat} {ts : List Token} : enough 0 power false ts → ts = []
  /-- A token that opens and closes nothing is passed at no cost. -/
  token {n power : Nat} {behind : Bool} {t : Token} {ts : List Token} :
    t.kind.opens = false → t.kind.closes = false → enough n power behind (t :: ts) →
      enough n power t.kind.endsOperand ts
  /-- So is an operand, whatever is nested in it. -/
  operand {n power : Nat} {ts rest : List Token} :
    Derives .operand ts rest → enough n power false ts → enough n power true rest
  /-- So are the tails behind an operand. -/
  tails {n power : Nat} {ts rest : List Token} :
    Derives .tails ts rest → enough n power true ts → enough n power true rest
  /-- A value begins inside of parentheses or brackets. -/
  opening {n power : Nat} {behind : Bool} {t : Token} {ts : List Token} :
    t.kind.opens = true → enough (n + 1) power behind (t :: ts) → enough n 0 false ts
  /-- A value begins behind a sign. -/
  sign {n power : Nat} {t : Token} {ts : List Token} :
    t.kind = .plus ∨ t.kind = .minus → enough (n + 1) power false (t :: ts) → enough n 7 false ts
  /-- A value begins behind an operator. -/
  operator {n power : Nat} {t : Token} {ts : List Token} :
    Infix t.kind → Grammar.extendsValue power t.kind = true → enough (n + 1) power true (t :: ts) →
      enough n (rightPower t.kind) false ts
  /-- A value begins with a number that is subtracted. -/
  negative {n power : Nat} {t : Token} {ts : List Token} :
    t.kind = .integer true ∨ t.kind = .real true → Grammar.extendsValue power t.kind = true →
      enough (n + 1) power true (t :: ts) → enough n 4 false (t :: ts)

variable {enough : Nat → Nat → Bool → List Token → Prop}

/-- A value is passed at no cost, as its operand and its tails are. -/
theorem Budget.value {power : Nat} (hb : Budget enough) (h : Derives .value ts rest)
    (hts : enough n power false ts) : enough n power true rest := by
  obtain ⟨mid, hoperand, htails⟩ := derives_operand_of_value h
  exact hb.tails htails (hb.operand hoperand hts)

/-- A word that ends no operand is passed at no cost, as no level is opened for it. -/
theorem Budget.word {power : Nat} {behind : Bool} {k : Keyword} (hb : Budget enough)
    (ht : t.kind = .keyword k) (hk : (TokenKind.keyword k).endsOperand = false)
    (hts : enough n power behind (t :: ts)) : enough n power false ts := by
  rw [← hk, ← ht]
  exact hb.token (by rw [ht]; rfl) (by rw [ht]; rfl) hts

/-- Behind a comma a value begins at no cost: the values of a list are beside each other, not
inside. -/
theorem Budget.comma {power : Nat} {behind : Bool} (hb : Budget enough) (ht : t.kind = .comma)
    (hts : enough n power behind (t :: ts)) : enough n power false ts := by
  have hpassed := hb.token (by rw [ht]; rfl) (by rw [ht]; rfl) hts
  rwa [ht] at hpassed

/-- A value behind a word of a call is passed at no cost. -/
theorem Budget.qualified {power : Nat} {words : List Keyword} (hb : Budget enough)
    (hwords : ∀ k ∈ words, (TokenKind.keyword k).endsOperand = false)
    (h : Derives (.qualified words) ts rest) (hts : enough n power false ts) :
    enough n power true rest := by
  cases h with
  | unqualified hvalue => exact hb.value hvalue hts
  | qualifier ht hk hvalue => exact hb.value hvalue (hb.word ht (hwords _ hk) hts)

/-- Inside of the parentheses of a call a value begins, with one level taken for the call. -/
theorem Budget.wordCall {power : Nat} {behind : Bool} {f l : Token} {k : Keyword}
    (hb : Budget enough) (hf : f.kind = .keyword k) (hl : l.kind = .leftParen)
    (hts : enough (n + 1) power behind (f :: l :: ts)) : enough n 0 false ts :=
  hb.opening (by rw [hl]; rfl) (hb.token (by rw [hf]; rfl) (by rw [hf]; rfl) hts)

/-- So it does behind a name and parentheses or brackets, with the same cost. -/
theorem Budget.nameCall {power : Nat} {behind : Bool} {f l : Token} (hb : Budget enough)
    (hf : Name f.kind) (hl : l.kind.opens = true)
    (hts : enough (n + 1) power behind (f :: l :: ts)) : enough n 0 false ts := by
  have hplain : f.kind.opens = false ∧ f.kind.closes = false := by
    generalize f.kind = kind at hf
    cases hf <;> exact ⟨rfl, rfl⟩
  exact hb.opening hl (hb.token hplain.1 hplain.2 hts)

/-! ### Nested values -/

/-- What is proved of the values that are read with `n` levels of nesting left, where these are
enough: an operand is passed, with the tails behind it up to an operator that binds too
weakly. -/
structure Complete (enough : Nat → Nat → Bool → List Token → Prop) (n : Nat) : Prop where
  budget : Budget enough
  passes {power : Nat} {ts mid rest : List Token} : enough n power false ts →
    Derives .operand ts mid → Derives .tails mid rest → Ends rest →
      ∃ stop, Passes n (.value power) ts stop ∧ Derives .tails stop rest ∧
        State.passes [Grammar.extendsValue power] stop = false

/-- At the power 0 nothing is left of a value, as every operator binds at least as strongly. -/
theorem Complete.passes_value (hn : Complete enough n) (hts : enough n 0 false ts)
    (h : Derives .value ts rest) (hr : Ends rest) : Passes n (.value 0) ts rest := by
  obtain ⟨mid, hoperand, htails⟩ := derives_operand_of_value h
  obtain ⟨stop, hpass, hleft, hstop⟩ := hn.passes hts hoperand htails hr
  rwa [eq_of_tails hleft hstop] at hpass

/-- Further values behind commas are passed, up to where no comma follows. -/
theorem Complete.passes_furtherValues (hn : Complete enough n) (hts : enough n 0 true ts)
    (h : Derives .furtherValues ts rest) (hr : Ends rest)
    (hcomma : State.passes [isA .comma] rest = false) :
    Passes n (.repeatWhile (isA .comma) (.seq .take (.value 0))) ts rest := by
  generalize hx : Nonterminal.furtherValues = x at h
  induction h with
  | lastValue =>
      rw [Passes.repeatWhile_iff, if_neg (by simp [hcomma])]
  | @furtherValue c us mid rest hc hvalue hothers _ ih =>
      -- Behind a value of the list is a comma or what is behind the list.
      have hends : Ends mid := by
        cases hothers with
        | lastValue => exact hr
        | furtherValue hc' _ _ => exact ends_cons (by simp [hc'])
      have hus := hn.budget.comma hc hts
      have hfirst := hn.passes_value hus hvalue hends
      rw [Passes.repeatWhile_iff, if_pos (State.passes_one_cons.trans ((isA_iff rfl).2 hc))]
      exact ⟨mid, Passes.seq_iff.2 ⟨us, Passes.take_cons_iff.2 rfl, hfirst⟩,
        ih (hn.budget.value hvalue hus) hr hcomma rfl⟩
  | _ => cases hx

/-- A list of values is passed, up to where no comma follows. -/
theorem Complete.passes_values (hn : Complete enough n) (hts : enough n 0 false ts)
    (h : Derives .values ts rest) (hr : Ends rest)
    (hcomma : State.passes [isA .comma] rest = false) : Passes n Grammar.values ts rest := by
  cases h with
  | @values _ mid _ hvalue hothers =>
      have hends : Ends mid := by
        cases hothers with
        | lastValue => exact hr
        | furtherValue hc _ _ => exact ends_cons (by simp [hc])
      exact Passes.seq_iff.2 ⟨mid, hn.passes_value hts hvalue hends,
        hn.passes_furtherValues (hn.budget.value hvalue hts) hothers hr hcomma⟩

/-- Some alternative reads what begins like a primary. So the last alternative, which fails, is
never taken on a derived value. -/
theorem primaryOf_ne_fail (h : Derives .primary (t :: ts) rest) (wanted : String) :
    primaryOf t.kind ≠ .fail wanted := by
  intro hf
  cases h with
  -- Each kind of first token has its rule, and none of these is the one that fails.
  | literal hl =>
      generalize t.kind = kind at hl hf
      cases hl <;> cases hf
  | call hn | emptyCall hn | element hn | rowKey hn | qualifiedColumn hn | column hn =>
      generalize t.kind = kind at hn hf
      cases hn <;> cases hf
  | enclosed hk | substring hk | trim hk | extract hk | countAll hk | nextValue hk | genId hk
  | cast hk =>
      rw [hk] at hf
      cases hf
  | aggregate ht hk =>
      rw [ht] at hf
      simp only [List.mem_cons, List.not_mem_nil, or_false] at hk
      rcases hk with rfl | rfl | rfl | rfl | rfl <;> cases hf

/-- A value does not pass a test for what begins no value. -/
theorem not_passes_of_value (test : TokenKind → Bool) (h : Derives .value ts rest)
    (htest : ∀ kind, test kind = true →
      Grammar.isSign kind = false ∧ primaryOf kind = .fail "value") :
    State.passes [test] ts = false := by
  rw [Bool.eq_false_iff]
  intro hp
  obtain ⟨t, us, rfl, ht⟩ := State.passes_one_iff.1 hp
  obtain ⟨hsign, hfail⟩ := htest t.kind ht
  obtain ⟨mid, hoperand, -⟩ := derives_operand_of_value h
  cases hoperand with
  | signed hs => exact absurd (isSign_iff.2 hs) (by simp [hsign])
  | unsigned hprimary => exact primaryOf_ne_fail hprimary "value" hfail

/-- So a value does not pass a test for such a kind. -/
theorem not_passes_isA_of_value {kind : TokenKind} (hkind : kind.hasValue = false)
    (hsign : Grammar.isSign kind = false) (hfail : primaryOf kind = .fail "value")
    (h : Derives .value ts rest) : State.passes [isA kind] ts = false := by
  refine not_passes_of_value _ h ?_
  intro found hfound
  rw [isA_iff hkind] at hfound
  subst hfound
  exact ⟨hsign, hfail⟩

/-- A value is passed with a word in front of it that qualifies it, or without one. The words begin
no value, so the test for them tells the two apart. -/
theorem Complete.passes_qualified (hn : Complete enough n) (hts : enough n 0 false ts)
    {words : List Keyword} (hwords : ∀ k ∈ words, primaryOf (.keyword k) = .fail "value")
    (hends : ∀ k ∈ words, (TokenKind.keyword k).endsOperand = false)
    (h : Derives (.qualified words) ts rest) (hr : Ends rest) :
    Passes n (.seq (optional (isWordOf words) .take) (.value 0)) ts rest := by
  cases h with
  -- Without a word the value comes first, and it does not pass the test.
  | unqualified h =>
      refine Passes.seq_iff.2 ⟨ts, ?_, hn.passes_value hts h hr⟩
      have hword := not_passes_of_value (isWordOf words) h (by
        intro kind hkind
        obtain ⟨k, hk, rfl⟩ := isWordOf_iff.1 hkind
        exact ⟨rfl, hwords k hk⟩)
      rw [Passes.optional_iff, if_neg (by simp [hword])]
  -- The word is taken, and the value is read behind it.
  | @qualifier _ t k us _ ht hk h =>
      refine Passes.seq_iff.2
        ⟨us, ?_, hn.passes_value (hn.budget.word ht (hends k hk) hts) h hr⟩
      rw [Passes.optional_iff,
        if_pos (State.passes_one_cons.trans (isWordOf_iff.2 ⟨k, hk, ht⟩)), Passes.take_cons_iff]

/-- A value behind an optional word is passed with the word, and nothing is passed where neither is
there. -/
theorem Complete.passes_optional (hn : Complete enough n) (hts : enough n 0 true ts)
    {word : Keyword} (hends : (TokenKind.keyword word).endsOperand = false)
    (h : Derives (.optional word) ts rest) (hr : Ends rest)
    (hword : State.passes [isWord word] rest = false) :
    Passes n (optional (isWord word) (.seq .take (.value 0))) ts rest := by
  rw [Passes.optional_iff]
  cases h with
  | absent => rw [if_neg (by simp [hword])]
  | @present _ t us _ ht h =>
      rw [if_pos (State.passes_one_cons.trans (isWord_iff.2 ht))]
      exact Passes.seq_iff.2 ⟨us, Passes.take_cons_iff.2 rfl,
        hn.passes_value (hn.budget.word ht hends hts) h hr⟩

/-! ### Primaries, operands and operators -/

/-- The opening of a call in front of what is passed inside it. -/
theorem passes_opening_of {r : Rule} {f l : Token} (hl : l.kind = .leftParen)
    (h : Passes n r ts rest) :
    Passes n (.seq .take (.seq (.expect .leftParen) r)) (f :: l :: ts) rest :=
  Passes.seq_iff.2 ⟨l :: ts, Passes.take_cons_iff.2 rfl,
    Passes.seq_iff.2 ⟨ts, (Passes.expect_kind_iff rfl).2 ⟨l, rfl, hl⟩, h⟩⟩

/-- The closing parenthesis of a call is passed where it stands. -/
theorem passes_closing_of {r : Token} (hr : r.kind = .rightParen) :
    Passes n (.expect .rightParen) (r :: rest) rest :=
  (Passes.expect_kind_iff rfl).2 ⟨r, rfl, hr⟩

/-- A word where that word is wanted is passed, by the kind of its token. -/
theorem passes_word_of {k : Keyword} (ht : t.kind = .keyword k) :
    Passes n (word k) (t :: rest) rest :=
  Passes.word_iff.2 ⟨t, rfl, ht⟩

/-- A value in parentheses, if the value inside is passed up to the closing one. -/
theorem passes_enclosed_of {r : Token} (h : Passes n (.value 0) ts (r :: rest))
    (hr : r.kind = .rightParen) : Passes n Grammar.enclosed (t :: ts) rest :=
  Passes.seq_iff.2 ⟨ts, Passes.take_cons_iff.2 rfl, Passes.seq_iff.2 ⟨_, h, passes_closing_of hr⟩⟩

/-- In front of an optional word, or of the parenthesis behind it, a value ends. -/
theorem ends_optional {word : Keyword} (hword : word ≠ .collate) {r : Token}
    (h : Derives (.optional word) ts (r :: rest)) (hr : r.kind = .rightParen) : Ends ts := by
  cases h with
  | absent => exact ends_closing hr
  | present ht _ => exact ends_word ht hword

/-- The last option of a call and its end. If the word is not there, the parenthesis is next. -/
theorem Complete.passes_optional_closing (hn : Complete enough n) (hts : enough n 0 true ts)
    {word : Keyword} (hends : (TokenKind.keyword word).endsOperand = false) {r : Token}
    (h : Derives (.optional word) ts (r :: rest))
    (hr : r.kind = .rightParen) :
    Passes n (.seq (optional (isWord word) (.seq .take (.value 0))) (.expect .rightParen)) ts
      rest := by
  have hword : State.passes [isWord word] (r :: rest) = false := by
    rw [State.passes_one_cons, hr]
    rfl
  exact Passes.seq_iff.2
    ⟨_, hn.passes_optional hts hends h (ends_closing hr) hword, passes_closing_of hr⟩

/-- SUBSTRING is passed. Its first value ends at FROM, and the second at FOR or at the parenthesis.
-/
theorem Complete.passes_substring (hn : Complete enough n) {f l m r : Token}
    {mid mid' : List Token} (hts : enough n 0 false ts) (hl : l.kind = .leftParen)
    (hfirst : Derives .value ts (m :: mid)) (hm : m.kind = .keyword .from)
    (hsecond : Derives .value mid mid')
    (hoption : Derives (.optional .for) mid' (r :: rest)) (hr : r.kind = .rightParen) :
    Passes n Grammar.substringCall (f :: l :: ts) rest := by
  have hpass₁ := hn.passes_value hts hfirst (ends_word hm (by decide))
  have hmid := hn.budget.word hm rfl (hn.budget.value hfirst hts)
  have hpass₂ := hn.passes_value hmid hsecond (ends_optional (by decide) hoption hr)
  have hpass₃ := hn.passes_optional_closing (hn.budget.value hsecond hmid) rfl hoption hr
  exact passes_opening_of hl (Passes.seq_iff.2 ⟨_, hpass₁,
    Passes.seq_iff.2 ⟨_, passes_word_of hm, Passes.seq_iff.2 ⟨_, hpass₂, hpass₃⟩⟩⟩)

/-- TRIM is passed, with the word that says where or without it. -/
theorem Complete.passes_trim (hn : Complete enough n) {f l r : Token} {mid : List Token}
    (hts : enough n 0 false ts) (hl : l.kind = .leftParen)
    (hqualified : Derives (.qualified [.both, .leading, .trailing]) ts mid)
    (hoption : Derives (.optional .from) mid (r :: rest)) (hr : r.kind = .rightParen) :
    Passes n Grammar.trimCall (f :: l :: ts) rest := by
  have hpass₁ := hn.passes_qualified hts (by simp [primaryOf]) (by decide) hqualified
    (ends_optional (by decide) hoption hr)
  have hmid := hn.budget.qualified (by decide) hqualified hts
  have hpass₂ := hn.passes_optional_closing hmid rfl hoption hr
  obtain ⟨_, hword, hvalue⟩ := Passes.seq_iff.1 hpass₁
  exact passes_opening_of hl (Passes.seq_iff.2 ⟨_, hword, Passes.seq_iff.2 ⟨_, hvalue, hpass₂⟩⟩)

/-- EXTRACT is passed. Its first value ends at FROM, and its second one at the closing parenthesis.
-/
theorem Complete.passes_extract (hn : Complete enough n) {f l m r : Token} {mid : List Token}
    (hts : enough n 0 false ts) (hl : l.kind = .leftParen) (hfirst : Derives .value ts (m :: mid))
    (hm : m.kind = .keyword .from) (hsecond : Derives .value mid (r :: rest))
    (hr : r.kind = .rightParen) : Passes n Grammar.extractCall (f :: l :: ts) rest := by
  have hpass₁ := hn.passes_value hts hfirst (ends_word hm (by decide))
  have hmid := hn.budget.word hm rfl (hn.budget.value hfirst hts)
  have hpass₂ := hn.passes_value hmid hsecond (ends_closing hr)
  exact passes_opening_of hl (Passes.seq_iff.2 ⟨_, hpass₁, Passes.seq_iff.2
    ⟨_, passes_word_of hm, Passes.seq_iff.2 ⟨_, hpass₂, passes_closing_of hr⟩⟩⟩)

/-- COUNT of everything is passed: behind the parenthesis a star decides, and no value is read. -/
theorem passes_countAll {f l s r : Token} (hl : l.kind = .leftParen) (hs : s.kind = .star)
    (hr : r.kind = .rightParen) : Passes n Grammar.countCall (f :: l :: s :: r :: rest) rest := by
  refine passes_opening_of hl (Passes.seq_iff.2 ⟨_, ?_, passes_closing_of hr⟩)
  rw [Passes.branch_iff, State.passes_one_cons, if_pos ((isA_iff rfl).2 hs)]
  exact Passes.take_cons_iff.2 rfl

/-- What an aggregate is taken of is passed, with ALL or DISTINCT or without. -/
theorem Complete.passes_aggregated (hn : Complete enough n) {r : Token} (hts : enough n 0 false ts)
    (h : Derives (.qualified [.all, .distinct]) ts (r :: rest)) (hr : r.kind = .rightParen) :
    Passes n Grammar.aggregated ts (r :: rest) :=
  hn.passes_qualified hts (by simp [primaryOf]) (by decide) h (ends_closing hr)

/-- No value begins with a star, so COUNT is read as an aggregate too. -/
theorem not_star_of_qualified {words : List Keyword} (h : Derives (.qualified words) ts rest) :
    State.passes [isA .star] ts = false := by
  cases h with
  | unqualified h => exact not_passes_isA_of_value rfl rfl rfl h
  | qualifier ht _ _ =>
      rw [State.passes_one_cons, ht]
      rfl

/-- Every aggregate is passed by the rule that its word chooses. COUNT has a rule of its own, which
looks for a star before it reads a value. -/
theorem Complete.passes_aggregate (hn : Complete enough n) {f l r : Token} {k : Keyword}
    (hts : enough n 0 false ts) (hk : k ∈ [Keyword.sum, .count, .avg, .minimum, .maximum])
    (hl : l.kind = .leftParen) (h : Derives (.qualified [.all, .distinct]) ts (r :: rest))
    (hr : r.kind = .rightParen) : Passes n (primaryOf (.keyword k)) (f :: l :: ts) rest := by
  have hpass := hn.passes_aggregated hts h hr
  -- SUM, AVG, MIN and MAX share one rule.
  have haggregate : Passes n Grammar.aggregateCall (f :: l :: ts) rest :=
    passes_opening_of hl (Passes.seq_iff.2 ⟨_, hpass, passes_closing_of hr⟩)
  -- COUNT goes the way of the others unless a star is next.
  have hcount : Passes n Grammar.countCall (f :: l :: ts) rest := by
    refine passes_opening_of hl (Passes.seq_iff.2 ⟨_, ?_, passes_closing_of hr⟩)
    rw [Passes.branch_iff, if_neg (by simp [not_star_of_qualified h])]
    exact hpass
  simp only [List.mem_cons, List.not_mem_nil, or_false] at hk
  rcases hk with rfl | rfl | rfl | rfl | rfl
  · exact haggregate
  · exact hcount
  · exact haggregate
  · exact haggregate
  · exact haggregate

/-- NEXT VALUE FOR and a name are passed, with any number of levels, as there is no value inside. -/
theorem passes_nextValue {f v o name : Token} (hv : v.kind = .keyword .value)
    (ho : o.kind = .keyword .for) (hname : Name name.kind) :
    Passes n Grammar.nextValue (f :: v :: o :: name :: rest) rest :=
  Passes.seq_iff.2 ⟨_, Passes.take_cons_iff.2 rfl, Passes.seq_iff.2 ⟨_, passes_word_of hv,
    Passes.seq_iff.2 ⟨_, passes_word_of ho, Passes.name_iff.2 ⟨_, rfl, isName_iff.2 hname⟩⟩⟩⟩

/-- GEN_ID with a name and a number is passed, with a sign at the number or without. -/
theorem passes_genId {f l name c i r : Token} {b : Bool} (hl : l.kind = .leftParen)
    (hname : Name name.kind) (hc : c.kind = .comma) (hi : i.kind = .integer b)
    (hr : r.kind = .rightParen) :
    Passes n Grammar.genIdCall (f :: l :: name :: c :: i :: r :: rest) rest := by
  have hnumber : Passes n (.expect Grammar.number) (i :: r :: rest) (r :: rest) :=
    Passes.expect_iff.2 ⟨i, rfl, TokenKind.sameClass_integer.2 ⟨b, hi⟩⟩
  exact passes_opening_of hl (Passes.seq_iff.2 ⟨_, Passes.name_iff.2 ⟨_, rfl, isName_iff.2 hname⟩,
    Passes.seq_iff.2 ⟨_, (Passes.expect_kind_iff rfl).2 ⟨c, rfl, hc⟩,
      Passes.seq_iff.2 ⟨_, hnumber, passes_closing_of hr⟩⟩⟩)

/-- CAST is passed. Its value ends at AS, and the type is passed by the rule for types. -/
theorem Complete.passes_cast (hn : Complete enough n) {f l a r : Token} {mid : List Token}
    (hts : enough n 0 false ts) (hl : l.kind = .leftParen) (hvalue : Derives .value ts (a :: mid))
    (ha : a.kind = .keyword .as) (htype : TypeRange mid (r :: rest)) (hr : r.kind = .rightParen) :
    Passes n Grammar.castCall (f :: l :: ts) rest := by
  have hpass := hn.passes_value hts hvalue (ends_word ha (by decide))
  exact passes_opening_of hl (Passes.seq_iff.2 ⟨_, hpass, Passes.seq_iff.2 ⟨_, passes_word_of ha,
    Passes.seq_iff.2 ⟨_, typeRange_iff.1 htype, passes_closing_of hr⟩⟩⟩)

/-! ### Names -/

/-- A token of another kind is no comma, so a list ends in front of it. -/
theorem not_comma_of_kind {kind : TokenKind} (ht : t.kind = kind)
    (hkind : kind.sameClass .comma = false) : State.passes [isA .comma] (t :: ts) = false := by
  rw [State.passes_one_cons, ht]
  exact hkind

/-- A call of a function is passed with its arguments, of which there is at least one here. -/
theorem Complete.passes_call (hn : Complete enough n) {l r : Token} (hts : enough n 0 false ts)
    (hl : l.kind = .leftParen) (h : Derives .values ts (r :: rest)) (hr : r.kind = .rightParen) :
    Passes n Grammar.named (t :: l :: ts) rest := by
  have hpass := hn.passes_values hts h (ends_closing hr) (not_comma_of_kind hr rfl)
  -- A value is there, so the empty call is not taken.
  have hsome : State.passes [isA .rightParen] ts = false := by
    cases h with
    | values hvalue _ => exact not_passes_isA_of_value rfl rfl rfl hvalue
  refine Passes.seq_iff.2 ⟨_, Passes.take_cons_iff.2 rfl, ?_⟩
  rw [Passes.branch_iff, State.passes_one_cons, if_pos ((isA_iff rfl).2 hl)]
  refine Passes.seq_iff.2 ⟨ts, Passes.take_cons_iff.2 rfl, Passes.seq_iff.2
    ⟨_, ?_, passes_closing_of hr⟩⟩
  rw [Passes.branch_iff, if_neg (by simp [hsome])]
  exact hpass

/-- A call without arguments is passed. The closing parenthesis is seen right behind the opening
one. -/
theorem passes_emptyCall {l r : Token} (hl : l.kind = .leftParen) (hr : r.kind = .rightParen) :
    Passes n Grammar.named (t :: l :: r :: rest) rest := by
  refine Passes.seq_iff.2 ⟨_, Passes.take_cons_iff.2 rfl, ?_⟩
  rw [Passes.branch_iff, State.passes_one_cons, if_pos ((isA_iff rfl).2 hl)]
  refine Passes.seq_iff.2 ⟨_, Passes.take_cons_iff.2 rfl, Passes.seq_iff.2
    ⟨_, ?_, passes_closing_of hr⟩⟩
  rw [Passes.branch_iff, State.passes_one_cons, if_pos ((isA_iff rfl).2 hr), Passes.empty_iff]

/-- An element of an array is passed with its indexes, up to the closing bracket. -/
theorem Complete.passes_element (hn : Complete enough n) {l r : Token} (hts : enough n 0 false ts)
    (hl : l.kind = .leftBracket) (h : Derives .values ts (r :: rest))
    (hr : r.kind = .rightBracket) : Passes n Grammar.named (t :: l :: ts) rest := by
  have hpass := hn.passes_values hts h (ends_cons (by simp [hr])) (not_comma_of_kind hr rfl)
  have hcall : ¬ isA .leftParen l.kind = true := by
    rw [hl]
    decide
  refine Passes.seq_iff.2 ⟨_, Passes.take_cons_iff.2 rfl, ?_⟩
  rw [Passes.branch_iff, State.passes_one_cons, if_neg hcall, Passes.branch_iff,
    State.passes_one_cons, if_pos ((isA_iff rfl).2 hl)]
  exact Passes.seq_iff.2 ⟨ts, Passes.take_cons_iff.2 rfl, Passes.seq_iff.2
    ⟨_, hpass, (Passes.expect_kind_iff rfl).2 ⟨r, rfl, hr⟩⟩⟩

/-- Behind a name a point goes on with it if a row key or a name follows. -/
theorem passes_named_dot {d c : Token} (hd : d.kind = .dot)
    (hc : c.kind = .keyword .dbKey ∨ Name c.kind) :
    Passes n Grammar.named (t :: d :: c :: rest) rest := by
  -- A dot is not what opens arguments or indexes, so those two branches are left out.
  have hcall : ¬ isA .leftParen d.kind = true := by
    rw [hd]
    decide
  have helement : ¬ isA .leftBracket d.kind = true := by
    rw [hd]
    decide
  have htake : Passes n (.seq .take .take) (d :: c :: rest) rest :=
    Passes.seq_iff.2 ⟨_, Passes.take_cons_iff.2 rfl, Passes.take_cons_iff.2 rfl⟩
  refine Passes.seq_iff.2 ⟨_, Passes.take_cons_iff.2 rfl, ?_⟩
  rw [Passes.branch_iff, State.passes_one_cons, if_neg hcall, Passes.branch_iff,
    State.passes_one_cons, if_neg helement, Passes.branch_iff]
  split
  · exact htake
  -- Behind the dot is no DB_KEY, so it is a name.
  · next hkey =>
    rw [State.passes_two_iff] at hkey
    rcases hc with hc | hc
    · exact absurd ⟨d, c, rest, rfl, (isA_iff rfl).2 hd, isWord_iff.2 hc⟩ hkey
    · rw [Passes.branch_iff, if_pos (State.passes_two_iff.2
        ⟨d, c, rest, rfl, (isA_iff rfl).2 hd, isName_iff.2 hc⟩)]
      exact htake

/-- A name by itself, if what follows could not go on with it. -/
theorem passes_named_alone (hr : EndsName rest) : Passes n Grammar.named (t :: rest) rest := by
  have hnot : ∀ (kind : TokenKind) (tests : List (TokenKind → Bool)), kind.hasValue = false →
      kind ∈ [TokenKind.leftParen, .leftBracket, .dot] →
        ¬ State.passes (isA kind :: tests) rest = true := by
    intro kind tests hkind hmem hp
    cases rest with
    | nil => cases hp
    | cons u us =>
        simp only [State.passes, Bool.and_eq_true, isA_iff hkind] at hp
        exact hr u rfl (hp.1 ▸ hmem)
  refine Passes.seq_iff.2 ⟨_, Passes.take_cons_iff.2 rfl, ?_⟩
  rw [Passes.branch_iff, if_neg (hnot _ _ rfl (by simp)), Passes.branch_iff,
    if_neg (hnot _ _ rfl (by simp)), Passes.branch_iff, if_neg (hnot _ _ rfl (by simp)),
    Passes.branch_iff, if_neg (hnot _ _ rfl (by simp)), Passes.empty_iff]

/-! ### The induction -/

/-- Whatever begins with a name is read by one rule, which looks at what stands behind it. -/
theorem primaryOf_name {kind : TokenKind} (h : Name kind) : primaryOf kind = Grammar.named := by
  cases h <;> rfl

/-- Every primary is passed, if what follows it could not go on with a name. -/
theorem Complete.passes_primary (hn : Complete enough n) {power : Nat}
    (hts : enough (n + 1) power false ts) (h : Derives .primary ts rest) (hr : EndsName rest) :
    Passes n Grammar.primary ts rest := by
  have hb := hn.budget
  cases h with
  | @literal t _ hl =>
      rw [passes_primary_iff]
      generalize t.kind = kind at hl
      cases hl <;> exact Passes.take_cons_iff.2 rfl
  | enclosed hl hvalue hclose =>
      rw [passes_primary_iff, hl]
      -- The value inside the parentheses has a level less, which the budget allows for.
      have hinside := hb.opening (by rw [hl]; rfl) hts
      exact passes_enclosed_of (hn.passes_value hinside hvalue (ends_closing hclose)) hclose
  | substring hf hl hfirst hm hsecond hoption hclose =>
      rw [passes_primary_iff, hf]
      exact hn.passes_substring (hb.wordCall hf hl hts) hl hfirst hm hsecond hoption hclose
  | trim hf hl hqualified hoption hclose =>
      rw [passes_primary_iff, hf]
      exact hn.passes_trim (hb.wordCall hf hl hts) hl hqualified hoption hclose
  | extract hf hl hfirst hm hsecond hclose =>
      rw [passes_primary_iff, hf]
      exact hn.passes_extract (hb.wordCall hf hl hts) hl hfirst hm hsecond hclose
  | countAll hf hl hs hclose =>
      rw [passes_primary_iff, hf]
      exact passes_countAll hl hs hclose
  | aggregate hf hk hl hqualified hclose =>
      rw [passes_primary_iff, hf]
      exact hn.passes_aggregate (hb.wordCall hf hl hts) hk hl hqualified hclose
  | nextValue hf hv ho hname =>
      rw [passes_primary_iff, hf]
      exact passes_nextValue hv ho hname
  | genId hf hl hname hc hi hclose =>
      rw [passes_primary_iff, hf]
      exact passes_genId hl hname hc hi hclose
  | cast hf hl hvalue ha htype hclose =>
      rw [passes_primary_iff, hf]
      exact hn.passes_cast (hb.wordCall hf hl hts) hl hvalue ha htype hclose
  | call hname hl hvalues hclose =>
      rw [passes_primary_iff, primaryOf_name hname]
      exact hn.passes_call (hb.nameCall hname (by rw [hl]; rfl) hts) hl hvalues hclose
  | emptyCall hname hl hclose =>
      rw [passes_primary_iff, primaryOf_name hname]
      exact passes_emptyCall hl hclose
  | element hname hl hvalues hclose =>
      rw [passes_primary_iff, primaryOf_name hname]
      exact hn.passes_element (hb.nameCall hname (by rw [hl]; rfl) hts) hl hvalues hclose
  -- The alternatives that begin with a name are told apart by what stands behind it.
  | rowKey hname hd hk =>
      rw [passes_primary_iff, primaryOf_name hname]
      exact passes_named_dot hd (Or.inl hk)
  | qualifiedColumn hname hd hc =>
      rw [passes_primary_iff, primaryOf_name hname]
      exact passes_named_dot hd (Or.inr hc)
  | column hname =>
      rw [passes_primary_iff, primaryOf_name hname]
      exact passes_named_alone hr

/-- An operator is passed with the operand behind it and the tails that belong to it. -/
theorem Complete.passes_operation (hn : Complete enough n) {power : Nat}
    (hts : enough (n + 1) power true ts) (hp : State.passes [Grammar.extendsValue power] ts = true)
    {mid : List Token} (htail : Derives .tail ts mid) (h : Derives .tails mid rest)
    (hr : Ends rest) :
    ∃ stop, Passes n Grammar.operation ts stop ∧ Derives .tails stop rest := by
  cases htail with
  | @collation t name _ hc hname =>
      refine ⟨mid, (passes_operation_collate hc).2 ?_, h⟩
      exact Passes.seq_iff.2 ⟨_, Passes.take_cons_iff.2 rfl,
        Passes.name_iff.2 ⟨name, rfl, isName_iff.2 hname⟩⟩
  | @operation t us _ ho hoperand =>
      rw [State.passes_one_cons] at hp
      obtain ⟨stop, hpass, hleft, -⟩ := hn.passes (hn.budget.operator ho hp hts) hoperand h hr
      refine ⟨stop, (passes_operation_operator ho).2 ?_, hleft⟩
      exact Passes.seq_iff.2 ⟨_, Passes.take_cons_iff.2 rfl, hpass⟩
  | @subtraction t _ hs =>
      -- A negative number is passed as an operand that is read again from itself on.
      have hliteral : Literal t.kind := by
        rcases hs with hs | hs <;> rw [hs] <;> constructor
      rw [State.passes_one_cons] at hp
      obtain ⟨stop, hpass, hleft, -⟩ :=
        hn.passes (hn.budget.negative hs hp hts) (.unsigned (.literal hliteral)) h hr
      exact ⟨stop, (passes_operation_negative hs).2 hpass, hleft⟩

/-- The loop over the operators takes the tails up to one that binds too weakly. -/
theorem Complete.passes_tails (hn : Complete enough n) (power : Nat)
    (hts : enough (n + 1) power true ts) (h : Derives .tails ts rest) (hr : Ends rest) :
    ∃ stop, Passes n (.repeatWhile (Grammar.extendsValue power) Grammar.operation) ts stop ∧
      Derives .tails stop rest ∧ State.passes [Grammar.extendsValue power] stop = false := by
  -- By induction on the tokens: a round may take several tails, so not on the derivation.
  induction hk : ts.length using Nat.strongRecOn generalizing ts with
  | ind k ih =>
      subst hk
      by_cases hp : State.passes [Grammar.extendsValue power] ts = true
      case neg =>
        rw [Bool.not_eq_true] at hp
        refine ⟨ts, ?_, h, hp⟩
        rw [Passes.repeatWhile_iff, if_neg (by simp [hp])]
      case pos =>
        cases h with
        | noTail => exact absurd hp (by simp [hr.not_extends])
        | tails htail hothers =>
            obtain ⟨mid, hround, htails⟩ := hn.passes_operation hts hp htail hothers hr
            obtain ⟨t, us, rfl, ht⟩ := State.passes_one_iff.1 hp
            have htaken := derives_operation (derives_value n) ht hround
            have hlt := hround.length_lt rfl
            obtain ⟨stop, hpass, hleft, hstop⟩ :=
              ih mid.length hlt (hn.budget.tails htaken hts) htails rfl
            refine ⟨stop, ?_, hleft, hstop⟩
            rw [Passes.repeatWhile_iff, if_pos hp]
            exact ⟨mid, hround, hpass⟩

/-- The operand rule takes signs with the whole value behind them, and so perhaps some of the tails.
Those that it leaves are still tails. -/
theorem Complete.passes_operand (hn : Complete enough n) {power : Nat} {mid : List Token}
    (hts : enough (n + 1) power false ts) (hoperand : Derives .operand ts mid)
    (h : Derives .tails mid rest) (hr : Ends rest) :
    ∃ stop, Passes n Grammar.operand ts stop ∧ Derives .tails stop rest := by
  cases hoperand with
  | @signed t us _ hs hoperand =>
      obtain ⟨stop, hpass, hleft, -⟩ := hn.passes (hn.budget.sign hs hts) hoperand h hr
      refine ⟨stop, ?_, hleft⟩
      rw [Grammar.operand, Passes.branch_iff, State.passes_one_cons, if_pos (isSign_iff.2 hs)]
      exact Passes.seq_iff.2 ⟨us, Passes.take_cons_iff.2 rfl, hpass⟩
  | unsigned hprimary =>
      -- No primary begins with a sign.
      have hsign : ¬ State.passes [Grammar.isSign] ts = true := by
        intro hp
        obtain ⟨t, us, rfl, ht⟩ := State.passes_one_iff.1 hp
        refine primaryOf_ne_fail hprimary "value" ?_
        rcases isSign_iff.1 ht with ht | ht <;> rw [ht] <;> rfl
      refine ⟨mid, ?_, h⟩
      rw [Grammar.operand, Passes.branch_iff, if_neg hsign]
      exact hn.passes_primary hts hprimary (endsName_of_tails h hr)

/-- Values are passed with the levels that are enough for them. The induction is on the levels;
without any left the budget allows no token, and an operand has one. -/
theorem complete (hb : Budget enough) (n : Nat) : Complete enough n := by
  induction n with
  | zero =>
      refine ⟨hb, fun hts hoperand => ?_⟩
      -- Without tokens there is no operand.
      cases hb.none hts
      cases hoperand with
      | unsigned hprimary => cases hprimary
  | succ n ih =>
      refine ⟨hb, fun {power ts mid rest} hts hoperand htails hr => ?_⟩
      obtain ⟨first, hfirst, hbehind⟩ := ih.passes_operand hts hoperand htails hr
      -- The rule may have taken tails with the operand.
      obtain ⟨mid, htaken, hothers⟩ := derives_operand (derives_value n) hfirst
      have hloops := hb.tails hothers (hb.operand htaken hts)
      obtain ⟨stop, hloop, hleft, hstop⟩ := ih.passes_tails power hloops hbehind hr
      exact ⟨stop, Passes.value_iff.2 (Passes.seq_iff.2 ⟨first, hfirst, hloop⟩), hleft, hstop⟩

/-! ### As many levels as tokens -/

/-- How many tokens are derived from a nonterminal at least. Only what may be left out derives none.
-/
def Nonterminal.least : Nonterminal → Nat
  | .tails | .furtherValues | .optional _ => 0
  | _ => 1

/-- What is derived has at least as many tokens as its nonterminal needs. -/
theorem Derives.length_le {x : Nonterminal} (h : Derives x ts rest) :
    rest.length + x.least ≤ ts.length := by
  induction h with
  | cast _ _ _ _ htype _ ihvalue =>
      have hlt := ((typeRange_iff (n := nestingLimit)).1 htype).length_lt rfl
      simp only [Nonterminal.least, List.length_cons] at *
      omega
  | _ =>
      simp only [Nonterminal.least, List.length_cons] at *
      omega

/-- As many levels as tokens are enough, and behind an operand one is left over: it is taken where
a number that is subtracted is read again. -/
theorem budget_length : Budget fun n _ behind ts => ts.length + behind.toNat ≤ n where
  none h := List.length_eq_zero_iff.1 (Nat.le_zero.1 h)
  token := fun {_ _ _ t _} _ _ h => by
    have hone := Bool.toNat_le t.kind.endsOperand
    rw [List.length_cons] at h
    omega
  operand h hts := Nat.le_trans h.length_le hts
  tails h hts := Nat.le_trans (Nat.add_le_add_right h.length_le 1) hts
  opening _ h := Nat.le_of_succ_le_succ (Nat.le_trans (Nat.le_add_right ..) h)
  sign _ h := Nat.le_of_succ_le_succ h
  operator _ _ h := Nat.le_of_succ_le_succ (Nat.le_trans (Nat.le_add_right ..) h)
  negative _ _ h := Nat.le_of_succ_le_succ h

/-- With as many levels of nesting as tokens a derived value is passed, since each level takes a
token at least. -/
theorem passes_value_of_derives (h : Derives .value ts rest) (hr : Ends rest) :
    Passes ts.length (.value 0) ts rest :=
  (complete budget_length ts.length).passes_value (Nat.le_refl _) h hr

end GeneratedKeys
