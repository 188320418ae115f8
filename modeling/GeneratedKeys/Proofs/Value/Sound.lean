import GeneratedKeys.Proofs.Reading.Passes
import GeneratedKeys.Proofs.Value.Derives

/-!
# `GeneratedKeys.Proofs.Value.Sound`: what is read as a value is a value

Whatever the rule of values passes without repairs is derived from the grammar of
values. The rules are taken one by one; each needs only that the values nested in it are
derived (`Sound n`), which the induction over the levels of nesting supplies.

* `derives_value`: the value rule passes only values.
-/

set_option autoImplicit false

namespace GeneratedKeys

open Rule

/-! ### The kinds behind the tests -/

/-- The test for a literal holds of the kinds that are a value by themselves. -/
theorem isLiteral_iff {kind : TokenKind} : Grammar.isLiteral kind = true ↔ Literal kind := by
  constructor
  · intro h
    cases kind with
    | keyword k => cases k <;> first | (simp [Grammar.isLiteral] at h; done) | constructor
    | integer | real | string | question => constructor
    | _ => simp [Grammar.isLiteral] at h
  · intro h
    cases h <;> rfl

/-- The test for a name holds of the kinds of names, which connects the grammar that is read with
the one that is described. -/
theorem isName_iff {kind : TokenKind} : kind.isName = true ↔ Name kind := by
  constructor
  · intro h
    cases kind with
    | identifier name => exact .plain name
    | quotedIdentifier name => exact .quoted name
    | _ => simp [TokenKind.isName] at h
  · intro h
    cases h <;> rfl

/-- The test for a sign holds of plus and minus, and of no number that is written with a sign. -/
theorem isSign_iff {kind : TokenKind} :
    Grammar.isSign kind = true ↔ kind = .plus ∨ kind = .minus := by
  cases kind <;> simp [Grammar.isSign]

/-- The test for a negative number holds of numbers that are written with a minus sign. -/
theorem isNegative_iff {kind : TokenKind} :
    Grammar.isNegative kind = true ↔ kind = .integer true ∨ kind = .real true := by
  cases kind <;> simp [Grammar.isNegative]

/-! ### The rules -/

/-- Every value that is read with `n` levels of nesting left is derived. It is what the induction on
the levels carries. -/
def Sound (n : Nat) : Prop :=
  ∀ (power : Nat) (ts rest : List Token), Passes n (.value power) ts rest →
    Derives .value ts rest

variable {n : Nat} {t : Token} {ts rest : List Token}

/-- A list of values that is passed is derived, value by value, from what is known one level below.
-/
theorem derives_values (hn : Sound n) (h : Passes n Grammar.values ts rest) :
    Derives .values ts rest := by
  obtain ⟨mid, hfirst, hothers⟩ := Passes.seq_iff.1 h
  refine .values (hn 0 ts mid hfirst) ?_
  refine Passes.repeatWhile_induction (fun _ _ => .lastValue) ?_ hothers
  intro ts mid rest hp hbody ih
  obtain ⟨c, us, rfl, hc⟩ := State.passes_one_iff.1 hp
  obtain ⟨us', htake, hvalue⟩ := Passes.seq_iff.1 hbody
  rw [Passes.take_cons_iff] at htake
  subst htake
  exact .furtherValue ((isA_iff rfl).1 hc) (hn 0 _ _ hvalue) ih

/-- A value that is passed with a word in front of it, or without one, is derived. -/
theorem derives_qualified (hn : Sound n) {words : List Keyword}
    (h : Passes n (.seq (optional (isWordOf words) .take) (.value 0)) ts rest) :
    Derives (.qualified words) ts rest := by
  obtain ⟨mid, hword, hvalue⟩ := Passes.seq_iff.1 h
  rw [Passes.optional_iff] at hword
  split at hword
  -- The word was there, so it was taken.
  · next hp =>
    obtain ⟨t, us, rfl, ht⟩ := State.passes_one_iff.1 hp
    obtain ⟨k, hk, ht⟩ := isWordOf_iff.1 ht
    rw [Passes.take_cons_iff] at hword
    subst hword
    exact .qualifier ht hk (hn 0 _ _ hvalue)
  -- The test failed, so nothing was taken.
  · next hp =>
    subst hword
    exact .unqualified (hn 0 _ _ hvalue)

/-- An optional word with a value behind it is derived, and so is nothing if the word is not there.
-/
theorem derives_optional (hn : Sound n) {word : Keyword}
    (h : Passes n (optional (isWord word) (.seq .take (.value 0))) ts rest) :
    Derives (.optional word) ts rest := by
  rw [Passes.optional_iff] at h
  split at h
  · next hp =>
    obtain ⟨t, us, rfl, ht⟩ := State.passes_one_iff.1 hp
    obtain ⟨mid, htake, hvalue⟩ := Passes.seq_iff.1 h
    rw [Passes.take_cons_iff] at htake
    subst htake
    exact .present (isWord_iff.1 ht) (hn 0 _ _ hvalue)
  · next hp =>
    subst h
    exact .absent

/-- A value in parentheses is derived, as the production of that form from the value inside. -/
theorem derives_enclosed (hn : Sound n) (ht : t.kind = .leftParen)
    (h : Passes n Grammar.enclosed (t :: ts) rest) : Derives .primary (t :: ts) rest := by
  simp only [Grammar.enclosed, inOrder, Passes.seq_iff, Passes.take_cons_iff,
    Passes.expect_kind_iff (show TokenKind.rightParen.hasValue = false from rfl)] at h
  obtain ⟨_, rfl, mid, hvalue, r, rfl, hr⟩ := h
  exact .enclosed ht (hn 0 _ _ hvalue) hr

/-- The opening of a call: its word and a parenthesis, which every call has in common. -/
theorem passes_opening {r : Rule}
    (h : Passes n (.seq .take (.seq (.expect .leftParen) r)) (t :: ts) rest) :
    ∃ l us, ts = l :: us ∧ l.kind = .leftParen ∧ Passes n r us rest := by
  simp only [Passes.seq_iff, Passes.take_cons_iff,
    Passes.expect_kind_iff (show TokenKind.leftParen.hasValue = false from rfl)] at h
  obtain ⟨_, rfl, us, ⟨l, rfl, hl⟩, h⟩ := h
  exact ⟨l, us, rfl, hl, h⟩

/-- The end of a call is a closing parenthesis, and it is the next token. -/
theorem passes_closing (h : Passes n (.expect .rightParen) ts rest) :
    ∃ r, ts = r :: rest ∧ r.kind = .rightParen :=
  (Passes.expect_kind_iff rfl).1 h

/-- What is passed as SUBSTRING is derived, with its second word and value or without them. -/
theorem derives_substring (hn : Sound n) (ht : t.kind = .keyword .substring)
    (h : Passes n Grammar.substringCall (t :: ts) rest) : Derives .primary (t :: ts) rest := by
  obtain ⟨l, us, rfl, hl, h⟩ := passes_opening h
  simp only [inOrder, Passes.seq_iff, Passes.word_iff] at h
  obtain ⟨_, hfirst, mid, ⟨m, rfl, hm⟩, mid', hsecond, _, hoption, hclose⟩ := h
  obtain ⟨r, rfl, hr⟩ := passes_closing hclose
  exact .substring ht hl (hn 0 _ _ hfirst) hm (hn 0 _ _ hsecond) (derives_optional hn hoption) hr

/-- What is passed as TRIM is derived. Whether a word stands in front of the value, and whether FROM
follows, was decided by one token each. -/
theorem derives_trim (hn : Sound n) (ht : t.kind = .keyword .trim)
    (h : Passes n Grammar.trimCall (t :: ts) rest) : Derives .primary (t :: ts) rest := by
  obtain ⟨l, us, rfl, hl, h⟩ := passes_opening h
  simp only [inOrder, Passes.seq_iff] at h
  obtain ⟨mid, hword, mid', hvalue, _, hoption, hclose⟩ := h
  obtain ⟨r, rfl, hr⟩ := passes_closing hclose
  have hqualified := derives_qualified hn (Passes.seq_iff.2 ⟨mid, hword, hvalue⟩)
  exact .trim ht hl hqualified (derives_optional hn hoption) hr

/-- What is passed as EXTRACT is derived, from the two values around its word. -/
theorem derives_extract (hn : Sound n) (ht : t.kind = .keyword .extract)
    (h : Passes n Grammar.extractCall (t :: ts) rest) : Derives .primary (t :: ts) rest := by
  obtain ⟨l, us, rfl, hl, h⟩ := passes_opening h
  simp only [inOrder, Passes.seq_iff, Passes.word_iff] at h
  obtain ⟨_, hfirst, mid, ⟨m, rfl, hm⟩, _, hsecond, hclose⟩ := h
  obtain ⟨r, rfl, hr⟩ := passes_closing hclose
  exact .extract ht hl (hn 0 _ _ hfirst) hm (hn 0 _ _ hsecond) hr

/-- What is passed as COUNT is derived, of everything or of a value. -/
theorem derives_count (hn : Sound n) (ht : t.kind = .keyword .count)
    (h : Passes n Grammar.countCall (t :: ts) rest) : Derives .primary (t :: ts) rest := by
  obtain ⟨l, us, rfl, hl, h⟩ := passes_opening h
  simp only [inOrder, Passes.seq_iff, Passes.branch_iff] at h
  obtain ⟨_, hbody, hclose⟩ := h
  obtain ⟨r, rfl, hr⟩ := passes_closing hclose
  split at hbody
  · next hp =>
    obtain ⟨s, vs, rfl, hs⟩ := State.passes_one_iff.1 hp
    rw [Passes.take_cons_iff] at hbody
    subst hbody
    exact .countAll ht hl ((isA_iff rfl).1 hs) hr
  · exact .aggregate ht (by simp) hl (derives_qualified hn hbody) hr

/-- What is passed as one of the other aggregates is derived, with its word in front of the value or
without. -/
theorem derives_aggregate (hn : Sound n) {k : Keyword} (ht : t.kind = .keyword k)
    (hk : k ∈ [Keyword.sum, .avg, .minimum, .maximum])
    (h : Passes n Grammar.aggregateCall (t :: ts) rest) : Derives .primary (t :: ts) rest := by
  obtain ⟨l, us, rfl, hl, h⟩ := passes_opening h
  simp only [inOrder, Passes.seq_iff] at h
  obtain ⟨_, hbody, hclose⟩ := h
  obtain ⟨r, rfl, hr⟩ := passes_closing hclose
  -- COUNT is read by a rule of its own, but it derives like the others.
  have hmore : ∀ k ∈ [Keyword.sum, .avg, .minimum, .maximum],
      k ∈ [Keyword.sum, .count, .avg, .minimum, .maximum] := by decide
  exact .aggregate ht (hmore k hk) hl (derives_qualified hn hbody) hr

/-- What is passed as NEXT VALUE FOR is derived. No value is inside, so nothing is assumed of the
levels below. -/
theorem derives_nextValue (ht : t.kind = .keyword .next)
    (h : Passes n Grammar.nextValue (t :: ts) rest) : Derives .primary (t :: ts) rest := by
  simp only [Grammar.nextValue, inOrder, Passes.seq_iff, Passes.take_cons_iff, Passes.word_iff,
    Passes.name_iff, isName_iff] at h
  obtain ⟨_, rfl, _, ⟨v, rfl, hv⟩, _, ⟨o, rfl, ho⟩, name, rfl, hname⟩ := h
  exact .nextValue ht hv ho hname

/-- What is passed as GEN_ID is derived. No value is inside, so nothing is assumed of the levels
below. -/
theorem derives_genId (ht : t.kind = .keyword .genId)
    (h : Passes n Grammar.genIdCall (t :: ts) rest) : Derives .primary (t :: ts) rest := by
  obtain ⟨l, us, rfl, hl, h⟩ := passes_opening h
  simp only [inOrder, Passes.seq_iff, Passes.name_iff, isName_iff, Passes.expect_iff,
    Grammar.number, TokenKind.sameClass_integer] at h
  obtain ⟨_, ⟨name, rfl, hname⟩, _, ⟨c, rfl, hc⟩, _, ⟨i, rfl, b, hi⟩, r, rfl, hr⟩ := h
  exact .genId ht hl hname ((TokenKind.sameClass_iff rfl).1 hc) hi
    ((TokenKind.sameClass_iff rfl).1 hr)

/-- A data type is read the same whatever levels of nesting are left. -/
theorem typeRange_iff : TypeRange ts rest ↔ Passes n Grammar.dataType ts rest := by
  have hrun : Passes nestingLimit Grammar.dataType ts rest ↔ TypeRange ts rest :=
    passes_iff_run rfl rfl (s := .initial ts 0) rfl
  rw [← hrun]
  exact ⟨passes_levels rfl rfl rfl, passes_levels rfl rfl rfl⟩

/-- What is passed as CAST is derived. For its type the grammar says no more than that the rule for
types passes it. -/
theorem derives_cast (hn : Sound n) (ht : t.kind = .keyword .cast)
    (h : Passes n Grammar.castCall (t :: ts) rest) : Derives .primary (t :: ts) rest := by
  obtain ⟨l, us, rfl, hl, h⟩ := passes_opening h
  simp only [inOrder, Passes.seq_iff, Passes.word_iff] at h
  obtain ⟨_, hvalue, mid, ⟨a, rfl, ha⟩, _, htype, hclose⟩ := h
  obtain ⟨r, rfl, hr⟩ := passes_closing hclose
  exact .cast ht hl (hn 0 _ _ hvalue) ha (typeRange_iff.2 htype) hr

/-- What may follow a name in a value, production by production: arguments, a subscript, a row key,
a second name, or nothing. -/
theorem derives_named (hn : Sound n) (ht : Name t.kind)
    (h : Passes n Grammar.named (t :: ts) rest) : Derives .primary (t :: ts) rest := by
  rw [Grammar.named, Passes.seq_iff] at h
  obtain ⟨mid, htake, h⟩ := h
  rw [Passes.take_cons_iff] at htake
  subst htake
  rw [Passes.branch_iff] at h
  split at h
  -- A call
  · next hp =>
    obtain ⟨l, us, rfl, hl⟩ := State.passes_one_iff.1 hp
    rw [isA_iff rfl] at hl
    simp only [inOrder, Passes.seq_iff, Passes.take_cons_iff, Passes.branch_iff] at h
    obtain ⟨_, rfl, _, hbody, hclose⟩ := h
    obtain ⟨r, rfl, hr⟩ := passes_closing hclose
    split at hbody
    · rw [Passes.empty_iff] at hbody
      subst hbody
      exact .emptyCall ht hl hr
    · exact .call ht hl (derives_values hn hbody) hr
  · rw [Passes.branch_iff] at h
    split at h
    -- An array element
    · next hp =>
      obtain ⟨l, us, rfl, hl⟩ := State.passes_one_iff.1 hp
      rw [isA_iff rfl] at hl
      simp only [inOrder, Passes.seq_iff, Passes.take_cons_iff,
        Passes.expect_kind_iff (show TokenKind.rightBracket.hasValue = false from rfl)] at h
      obtain ⟨_, rfl, _, hbody, r, rfl, hr⟩ := h
      exact .element ht hl (derives_values hn hbody) hr
    · rw [Passes.branch_iff] at h
      split at h
      -- A row key
      · next hp =>
        obtain ⟨d, k, us, rfl, hd, hk⟩ := State.passes_two_iff.1 hp
        simp only [Passes.seq_iff, Passes.take_cons_iff] at h
        obtain ⟨_, rfl, h⟩ := h
        rw [Passes.take_cons_iff] at h
        subst h
        exact .rowKey ht ((isA_iff rfl).1 hd) (isWord_iff.1 hk)
      · rw [Passes.branch_iff] at h
        split at h
        -- A column, qualified or not
        · next hp =>
          obtain ⟨d, c, us, rfl, hd, hc⟩ := State.passes_two_iff.1 hp
          simp only [Passes.seq_iff, Passes.take_cons_iff] at h
          obtain ⟨_, rfl, h⟩ := h
          rw [Passes.take_cons_iff] at h
          subst h
          exact .qualifiedColumn ht ((isA_iff rfl).1 hd) (isName_iff.1 hc)
        · rw [Passes.empty_iff] at h
          subst h
          exact .column ht

/-- The alternatives of a primary, taken in order. Each is told by its first token, and each has a
lemma of its own above. -/
theorem derives_primary (hn : Sound n) (h : Passes n Grammar.primary ts rest) :
    Derives .primary ts rest := by
  -- Each alternative but the last is known by its first token.
  have known : ∀ {test : TokenKind → Bool} {yes no : Rule},
      Passes n (.branch [test] yes no) ts rest →
        (∀ t us, ts = t :: us → test t.kind = true → Passes n yes (t :: us) rest →
          Derives .primary (t :: us) rest) →
        (Passes n no ts rest → Derives .primary ts rest) → Derives .primary ts rest := by
    intro test yes no h hyes hno
    rw [Passes.branch_iff] at h
    split at h
    · next hp =>
      obtain ⟨t, us, rfl, ht⟩ := State.passes_one_iff.1 hp
      exact hyes t us rfl ht h
    · exact hno h
  refine known h ?literal fun h => known h ?enclosed fun h => known h ?substring fun h =>
    known h ?trim fun h => known h ?extract fun h => known h ?count fun h =>
    known h ?aggregate fun h => known h ?nextValue fun h => known h ?genId fun h =>
    known h ?cast fun h => known h ?named fun h => absurd h Passes.not_fail
  case literal =>
    intro t us _ ht h
    rw [Passes.take_cons_iff] at h
    subst h
    exact .literal (isLiteral_iff.1 ht)
  case enclosed =>
    intro t us _ ht h
    exact derives_enclosed hn ((isA_iff rfl).1 ht) h
  case substring =>
    intro t us _ ht h
    exact derives_substring hn (isWord_iff.1 ht) h
  case trim =>
    intro t us _ ht h
    exact derives_trim hn (isWord_iff.1 ht) h
  case extract =>
    intro t us _ ht h
    exact derives_extract hn (isWord_iff.1 ht) h
  case count =>
    intro t us _ ht h
    exact derives_count hn (isWord_iff.1 ht) h
  case aggregate =>
    intro t us _ ht h
    obtain ⟨k, hk, ht⟩ := isWordOf_iff.1 ht
    exact derives_aggregate hn ht hk h
  case nextValue =>
    intro t us _ ht h
    exact derives_nextValue (isWord_iff.1 ht) h
  case genId =>
    intro t us _ ht h
    exact derives_genId (isWord_iff.1 ht) h
  case cast =>
    intro t us _ ht h
    exact derives_cast hn (isWord_iff.1 ht) h
  case named =>
    intro t us _ ht h
    exact derives_named hn (isName_iff.1 ht) h

/-- A value is an operand with tails behind it. -/
theorem derives_operand_of_value (h : Derives .value ts rest) :
    ∃ mid, Derives .operand ts mid ∧ Derives .tails mid rest := by
  cases h with
  | value h₁ h₂ => exact ⟨_, h₁, h₂⟩

/-- Tails behind tails are tails, by induction on the first ones. -/
theorem Derives.tails_trans {ts mid rest : List Token} (h₁ : Derives .tails ts mid)
    (h₂ : Derives .tails mid rest) : Derives .tails ts rest := by
  generalize hx : Nonterminal.tails = x at h₁
  induction h₁ with
  | noTail => exact h₂
  | tails htail _ _ ih => exact .tails htail (ih h₂ hx)
  | _ => cases hx

/-- What follows a sign is a whole value; its operand takes the sign. -/
theorem derives_operand (hn : Sound n) (h : Passes n Grammar.operand ts rest) :
    ∃ mid, Derives .operand ts mid ∧ Derives .tails mid rest := by
  rw [Grammar.operand, Passes.branch_iff] at h
  split at h
  · next hp =>
    obtain ⟨t, us, rfl, ht⟩ := State.passes_one_iff.1 hp
    obtain ⟨_, htake, hvalue⟩ := Passes.seq_iff.1 h
    rw [Passes.take_cons_iff] at htake
    subst htake
    -- The sign binds its operand only; what else was read there are tails of the whole.
    obtain ⟨mid, hoperand, htails⟩ := derives_operand_of_value (hn 7 _ _ hvalue)
    exact ⟨mid, .signed (isSign_iff.1 ht) hoperand, htails⟩
  · exact ⟨rest, .unsigned (derives_primary hn h), .noTail⟩

/-- A number is an operand only by itself: with a minus sign in it, nothing can go on with it. -/
theorem eq_of_derives_operand_negative (ht : t.kind = .integer true ∨ t.kind = .real true)
    (h : Derives .operand (t :: ts) rest) : rest = ts := by
  -- A number is no name, which rules out all that begins with one.
  have hname : ¬ Name t.kind := by
    intro hname
    rcases ht with ht | ht <;> rw [ht] at hname <;> cases hname
  cases h with
  | signed hs _ => rcases ht with ht | ht <;> simp [ht] at hs
  | unsigned h =>
      cases h with
      -- Of the other primaries only a literal begins with a number.
      | literal _ => rfl
      | enclosed hk => rcases ht with ht | ht <;> simp [ht] at hk
      | call hn | emptyCall hn | element hn | rowKey hn | qualifiedColumn hn | column hn =>
          exact absurd hn hname
      | substring hk | trim hk | extract hk | countAll hk | aggregate hk | nextValue hk
      | genId hk | cast hk => rcases ht with ht | ht <;> simp [ht] at hk

/-! ### Operators -/

/-- How strongly the operators behind the operand of an operator must bind to belong to
it. -/
def rightPower : TokenKind → Nat
  | .concat => 2
  | .plus | .minus => 4
  | _ => 6

/-- Behind COLLATE the operation is a name, and no operand. -/
theorem passes_operation_collate (ht : t.kind = .keyword .collate) :
    Passes n Grammar.operation (t :: ts) rest ↔ Passes n (.seq .take name) (t :: ts) rest := by
  rw [Grammar.operation, Passes.branch_iff, State.passes_one_cons, if_pos (isWord_iff.2 ht)]

/-- In front of a negative number the operation is a value that begins with it: the minus sign is a
part of the number and serves as the operator. -/
theorem passes_operation_negative (ht : t.kind = .integer true ∨ t.kind = .real true) :
    Passes n Grammar.operation (t :: ts) rest ↔ Passes n (.value 4) (t :: ts) rest := by
  have hcollate : ¬ isWord .collate t.kind = true := by
    rw [isWord_iff]
    rcases ht with ht | ht <;> simp [ht]
  rw [Grammar.operation, Passes.branch_iff, State.passes_one_cons, if_neg hcollate,
    Passes.branch_iff, State.passes_one_cons, if_pos (isNegative_iff.2 ht)]

/-- Behind an operator the operation is a value, and the operator says how strongly what belongs to
it must bind. -/
theorem passes_operation_operator (ht : Infix t.kind) :
    Passes n Grammar.operation (t :: ts) rest ↔
      Passes n (.seq .take (.value (rightPower t.kind))) (t :: ts) rest := by
  obtain ⟨kind, text, start⟩ := t
  simp only [Grammar.operation, Passes.branch_iff, State.passes_one_cons]
  cases ht <;> rfl

/-- Only three sorts of tokens go on with a value: the word COLLATE, a number with a minus sign, and
an operator. -/
theorem extendsValue_cases {power : Nat} {kind : TokenKind}
    (h : Grammar.extendsValue power kind = true) :
    kind = .keyword .collate ∨ (kind = .integer true ∨ kind = .real true) ∨ Infix kind := by
  cases kind with
  | keyword k => cases k <;> simp [Grammar.extendsValue, Grammar.leftPower?] at h ⊢
  | integer sign | real sign =>
      cases sign <;> simp [Grammar.extendsValue, Grammar.leftPower?] at h ⊢
  | plus | minus | star | slash | concat => exact Or.inr (Or.inr (by constructor))
  | _ => simp [Grammar.extendsValue, Grammar.leftPower?] at h

/-- An operator with what is read after it is a tail and those after it: the operand behind
an operator is read with the tails that bind more strongly. -/
theorem derives_operation (hn : Sound n) {power : Nat}
    (hp : Grammar.extendsValue power t.kind = true)
    (h : Passes n Grammar.operation (t :: ts) rest) : Derives .tails (t :: ts) rest := by
  rcases extendsValue_cases hp with hc | hneg | hinfix
  · rw [passes_operation_collate hc] at h
    simp only [Passes.seq_iff, Passes.take_cons_iff, Passes.name_iff, isName_iff] at h
    obtain ⟨_, rfl, name, rfl, hname⟩ := h
    exact .tails (.collation hc hname) .noTail
  · rw [passes_operation_negative hneg] at h
    obtain ⟨mid, hoperand, htails⟩ := derives_operand_of_value (hn 4 _ _ h)
    -- The number is taken for an operand, so the operand behind it is the number itself.
    cases eq_of_derives_operand_negative hneg hoperand
    exact .tails (.subtraction hneg) htails
  · rw [passes_operation_operator hinfix] at h
    obtain ⟨_, htake, hvalue⟩ := Passes.seq_iff.1 h
    rw [Passes.take_cons_iff] at htake
    subst htake
    obtain ⟨mid, hoperand, htails⟩ := derives_operand_of_value (hn _ _ _ hvalue)
    exact .tails (.operation hinfix hoperand) htails

/-- The loop over the operators passes tails, one for each round. -/
theorem derives_tails (hn : Sound n) {power : Nat}
    (h : Passes n (.repeatWhile (Grammar.extendsValue power) Grammar.operation) ts rest) :
    Derives .tails ts rest := by
  refine Passes.repeatWhile_induction (fun _ _ => .noTail) ?_ h
  intro ts mid rest hp hbody ih
  obtain ⟨t, us, rfl, ht⟩ := State.passes_one_iff.1 hp
  exact (derives_operation hn ht hbody).tails_trans ih

/-- The value rule passes only values, however many levels of nesting are left. The induction is on
the levels; inside, each rule of the grammar has a lemma. -/
theorem derives_value (n : Nat) : Sound n := by
  induction n with
  | zero =>
      intro power ts rest h
      exact absurd h Passes.not_value_zero
  | succ n ih =>
      intro power ts rest h
      rw [Passes.value_iff] at h
      obtain ⟨_, hoperand, hloop⟩ := Passes.seq_iff.1 h
      obtain ⟨mid, hfirst, htails⟩ := derives_operand ih hoperand
      exact .value hfirst (htails.tails_trans (derives_tails ih hloop))

end GeneratedKeys
