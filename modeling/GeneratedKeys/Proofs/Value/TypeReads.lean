import GeneratedKeys.Proofs.Recovery.DataType
import GeneratedKeys.Proofs.Value.TypeWords

/-!
# `GeneratedKeys.Proofs.Value.TypeReads`: every word of the grammar is read as a data type

The other direction of `TypeWords`. A rule passes a word only if nothing behind the word could
go on with it, so what is proved of a rule says which tokens may stand there (`Takes`). Two
rules in a row take the words of both if the words of the second open with what may stand
behind those of the first (`Opens`). No rule of a data type has to look further than one token,
and the attempt at an array finds the bracket, or the closing parenthesis behind the type.

* `takes_seq`, `takes_branch`, `takes_repeat`: the words that rules put together take.
* `takes_scalarType`, `takes_ranges`, `takes_dataType`: the rules of data types.
* `dataType_reads_words`: what is read as a data type is a word of the grammar, and every word
  of it is read in front of a closing parenthesis; the one place where the grammar as described
  says less.
-/

set_option autoImplicit false

namespace GeneratedKeys

open Rule Grammar Computability

open TypeWords (one mark opt)

/-! ### What may stand behind a word -/

/-- The rule passes every word of the language in front of a token that the test accepts. -/
def Takes (n : Nat) (r : Rule) (l : Language TokenKind) (behind : TokenKind → Bool) : Prop :=
  ∀ passed rest : List Token, passed.map Token.kind ∈ l →
    State.passes [behind] rest = true → Passes n r (passed ++ rest) rest

/-- In front of what `behind` accepts, the words of the language open with what `front` accepts.
The empty word opens with what stands behind it. -/
def Opens (l : Language TokenKind) (behind front : TokenKind → Bool) : Prop :=
  ∀ w ∈ l, ∀ kind, behind kind = true → front (w.headD kind) = true

/-- What a test does not accept, as a test by itself. -/
def others (test : TokenKind → Bool) (kind : TokenKind) : Bool :=
  !test kind

/-- The others are the kinds for which the test fails. -/
theorem others_iff {test : TokenKind → Bool} {kind : TokenKind} :
    others test kind = true ↔ test kind = false := by
  rw [others, Bool.not_eq_true']

section Opens

variable {p : TokenKind → Prop} {behind middle front : TokenKind → Bool}
  {l m : Language TokenKind}

/-- Words that open with what a test accepts pass the test, and so do the tokens behind the empty
word. -/
theorem Opens.passes {passed rest : List Token} (h : Opens l behind front)
    (hpassed : passed.map Token.kind ∈ l) (hrest : State.passes [behind] rest = true) :
    State.passes [front] (passed ++ rest) = true := by
  obtain ⟨t, us, rfl, ht⟩ := State.passes_one_iff.1 hrest
  have hfront := h _ hpassed t.kind ht
  cases passed with
  | nil => exact State.passes_one_cons.trans hfront
  | cons u passed => exact State.passes_one_cons.trans hfront

/-- Any token may be next, which says nothing and serves where nothing has to be told apart. -/
theorem opens_any : Opens l behind fun _ => true := fun _ _ _ _ => rfl

/-- There are no words in the empty language, so they open with anything. -/
theorem opens_zero : Opens 0 behind front := fun _ hw => absurd hw (Set.notMem_empty _)

/-- The empty word opens with what stands behind it, so that has to pass the test instead. -/
theorem opens_empty (h : ∀ kind, behind kind = true → front kind = true) :
    Opens 1 behind front := by
  rintro w rfl kind hkind
  exact h kind hkind

/-- A word of one token opens with that token, whatever stands behind it. -/
theorem opens_one (h : ∀ kind, p kind → front kind = true) : Opens (one p) behind front := by
  rintro w ⟨kind, hkind, rfl⟩ _ -
  exact h kind hkind

/-- A mark opens with itself, so the test for its kind announces it. -/
theorem opens_mark {kind : TokenKind} (h : front kind = true) :
    Opens (mark kind) behind front :=
  opens_one fun _ hkind => hkind ▸ h

/-- One of some words opens with itself. The test is computed for each of them. -/
theorem opens_words {ks : List Keyword} (h : ks.all (fun k => front (.keyword k)) = true) :
    Opens (TypeWords.words ks) behind front := by
  refine opens_one ?_
  rintro _ ⟨k, hk, rfl⟩
  exact List.all_eq_true.1 h k hk

/-- A choice opens with what either language opens with, so both have to pass the test. -/
theorem opens_add (hl : Opens l behind front) (hm : Opens m behind front) :
    Opens (l + m) behind front := by
  rintro w (hw | hw)
  · exact hl w hw
  · exact hm w hw

/-- What may be left out opens with its first token, or with what stands behind it. -/
theorem opens_opt (hl : Opens l behind front)
    (hbehind : ∀ kind, behind kind = true → front kind = true) : Opens (opt l) behind front :=
  opens_add hl (opens_empty hbehind)

/-- One language after another opens with the first one, which may open with the second. -/
theorem opens_mul (hl : Opens l middle front) (hm : Opens m behind middle) :
    Opens (l * m) behind front := by
  intro w hw kind hkind
  obtain ⟨u, hu, v, hv, rfl⟩ := Language.mem_mul.1 hw
  have hfront := hl u hu _ (hm v hv kind hkind)
  cases u with
  | nil => exact hfront
  | cons kind' u => exact hfront

/-- What stands behind words that are not empty does not matter, as they open with a token of their
own. -/
theorem opens_left (hl : Opens l (fun _ => true) front) : Opens (l * m) behind front :=
  opens_mul hl opens_any

/-- What is repeated opens with the first round, or with what stands behind it. -/
theorem opens_star (hl : Opens l (fun _ => true) front)
    (hbehind : ∀ kind, behind kind = true → front kind = true) : Opens l∗ behind front := by
  rw [← Language.one_add_self_mul_kstar_eq_kstar]
  exact opens_add (opens_empty hbehind) (opens_left hl)

end Opens

/-! ### Rules and languages -/

section Takes

variable {n : Nat} {test : TokenKind → Bool} {p : TokenKind → Prop}
  {behind middle : TokenKind → Bool} {first second yes no body : Rule}
  {l m : Language TokenKind}

/-- A rule that passes every token of some kinds takes the words of one such token. -/
theorem takes_one {r : Rule}
    (h : ∀ (t : Token) (rest : List Token), p t.kind → Passes n r (t :: rest) rest) :
    Takes n r (one p) behind := by
  rintro passed rest ⟨kind, hkind, heq⟩ -
  obtain ⟨t, rfl, rfl⟩ := List.map_eq_singleton_iff.1 heq
  exact h t rest hkind

/-- The empty rule takes the empty word, whatever stands behind it. -/
theorem takes_empty : Takes n .empty 1 behind := by
  intro passed rest hpassed _
  obtain rfl := List.map_eq_nil_iff.1 hpassed
  exact Passes.empty_iff.2 rfl

/-- A rule that fails takes the words of the empty language, of which there are none. -/
theorem takes_fail (wanted : String) : Takes n (.fail wanted) 0 behind :=
  fun _ _ hpassed => absurd hpassed (Set.notMem_empty _)

/-- Taking a token takes every word of one token. -/
theorem takes_take : Takes n .take (one p) behind :=
  takes_one fun _ _ _ => Passes.take_cons_iff.2 rfl

/-- A wanted token is taken. Its kind has no value, so there is only one token that fits. -/
theorem takes_expect {kind : TokenKind} (hkind : kind.hasValue = false) :
    Takes n (.expect kind) (mark kind) behind :=
  takes_one fun t _ ht => (Passes.expect_kind_iff hkind).2 ⟨t, rfl, ht⟩

/-- A wanted word is taken, by the kind of its token. -/
theorem takes_word (k : Keyword) : Takes n (Rule.word k) (TypeWords.word k) behind :=
  takes_expect rfl

/-- A wanted number is taken, whichever it is and whether it has a sign or not. -/
theorem takes_number : Takes n (.expect number) TypeWords.int behind :=
  takes_one fun t _ ht => Passes.expect_iff.2 ⟨t, rfl, TokenKind.sameClass_integer.2 ht⟩

/-- A wanted name is taken, whichever it is and whether it is quoted or not. -/
theorem takes_name : Takes n Rule.name TypeWords.ident behind :=
  takes_one fun t _ ht => Passes.name_iff.2 ⟨t, rfl, isName_iff.2 ht⟩

/-- Two rules take a word of the one language and then one of the other. The first rule stops in
time if what the second language opens with is accepted behind it. -/
theorem takes_seq (h₁ : Takes n first l middle) (h₂ : Takes n second m behind)
    (hopens : Opens m behind middle) : Takes n (.seq first second) (l * m) behind := by
  intro passed rest hpassed hrest
  obtain ⟨u, hu, v, hv, huv⟩ := Language.mem_mul.1 hpassed
  obtain ⟨passed₁, passed₂, rfl, rfl, rfl⟩ := List.map_eq_append_iff.1 huv.symm
  rw [List.append_assoc]
  exact Passes.seq_iff.2 ⟨passed₂ ++ rest, h₁ _ _ hu (hopens.passes hv hrest), h₂ _ _ hv hrest⟩

/-- Words that open with what a test accepts, or words that open with others. The next token then
decides which of the two languages a word is from. -/
theorem takes_branch (hyes : Takes n yes l behind) (hno : Takes n no m behind)
    (hin : Opens l behind test) (hout : Opens m behind (others test)) :
    Takes n (.branch [test] yes no) (l + m) behind := by
  rintro passed rest (hpassed | hpassed) hrest
  · rw [Passes.branch_iff, if_pos (hin.passes hpassed hrest)]
    exact hyes passed rest hpassed hrest
  · obtain ⟨t, us, heq, ht⟩ := State.passes_one_iff.1 (hout.passes hpassed hrest)
    have hpasses : State.passes [test] (passed ++ rest) = false := by
      rw [heq, State.passes_one_cons, others_iff.1 ht]
    rw [Passes.branch_iff, if_neg (by simp [hpasses])]
    exact hno passed rest hpassed hrest

/-- A choice by the next token, which is then taken. The other side must not open with a token that
passes the test. -/
theorem takes_branch_take (htest : ∀ kind, p kind → test kind = true)
    (hyes : Takes n yes l behind) (hno : Takes n no m behind)
    (hout : Opens m behind (others test)) :
    Takes n (.branch [test] (.seq .take yes) no) (one p * l + m) behind :=
  takes_branch (takes_seq takes_take hyes opens_any) hno (opens_left (opens_one htest)) hout

/-- The same with nothing behind the token: the choice takes it, or the other side is taken. -/
theorem takes_branch_take_only (htest : ∀ kind, p kind → test kind = true)
    (hno : Takes n no m behind) (hout : Opens m behind (others test)) :
    Takes n (.branch [test] .take no) (one p + m) behind :=
  takes_branch takes_take hno (opens_one htest) hout

/-- What may be left out, behind a token that announces it. What stands behind must not announce it
as well. -/
theorem takes_optional (htest : ∀ kind, p kind → test kind = true)
    (hyes : Takes n yes l behind) (hstop : ∀ kind, behind kind = true → test kind = false) :
    Takes n (optional test (.seq .take yes)) (opt (one p * l)) behind :=
  takes_branch_take htest hyes takes_empty
    (opens_empty fun kind hkind => others_iff.2 (hstop kind hkind))

/-- What is repeated behind a token that announces it. The repetition ends where something stands
that does not announce more. -/
theorem takes_repeat (htest : ∀ kind, p kind → test kind = true)
    (hbody : Takes n body l middle) (hopens : Opens (one p * l)∗ behind middle)
    (hstop : ∀ kind, behind kind = true → test kind = false) :
    Takes n (.repeatWhile test (.seq .take body)) (one p * l)∗ behind := by
  intro passed rest hpassed hrest
  obtain ⟨rounds, hw, hrounds⟩ := Language.mem_kstar.1 hpassed
  clear hpassed
  induction rounds generalizing passed with
  | nil =>
      obtain rfl := List.map_eq_nil_iff.1 hw
      obtain ⟨t, us, rfl, ht⟩ := State.passes_one_iff.1 hrest
      rw [Passes.repeatWhile_iff, if_neg (by simp [hstop _ ht])]
      rfl
  | cons round rounds ih =>
      obtain ⟨u, v, rfl, rfl, hv⟩ := List.map_eq_append_iff.1 hw
      have hround := hrounds _ List.mem_cons_self
      have hothers : ∀ y ∈ rounds, y ∈ one p * l := fun y hy =>
        hrounds y (List.mem_cons_of_mem _ hy)
      -- Behind a round stands another one, or what stands behind them all.
      have hmid : State.passes [middle] (v ++ rest) = true :=
        hopens.passes (Language.mem_kstar.2 ⟨rounds, hv, hothers⟩) hrest
      have hannounced := (opens_left (opens_one htest)).passes hround hmid
      rw [List.append_assoc, Passes.repeatWhile_iff, if_pos hannounced]
      exact ⟨v ++ rest, takes_seq takes_take hbody opens_any u _ hround hmid, ih v hv hothers⟩

/-- A choice by a word, which is then taken. -/
theorem takes_branch_word (k : Keyword) (hyes : Takes n yes l behind)
    (hno : Takes n no m behind) (hout : Opens m behind (others (isWord k))) :
    Takes n (.branch [isWord k] (.seq .take yes) no) (TypeWords.word k * l + m) behind :=
  takes_branch_take (fun _ => isWord_iff.2) hyes hno hout

/-- A choice by one of several words, which is then taken. -/
theorem takes_branch_words (ks : List Keyword) (hyes : Takes n yes l behind)
    (hno : Takes n no m behind) (hout : Opens m behind (others (isWordOf ks))) :
    Takes n (.branch [isWordOf ks] (.seq .take yes) no) (TypeWords.words ks * l + m) behind :=
  takes_branch_take (fun _ => isWordOf_iff.2) hyes hno hout

/-- The same with nothing behind the word, where several words lead to the same side. -/
theorem takes_branch_words_only (ks : List Keyword) (hno : Takes n no m behind)
    (hout : Opens m behind (others (isWordOf ks))) :
    Takes n (.branch [isWordOf ks] .take no) (TypeWords.words ks + m) behind :=
  takes_branch_take_only (fun _ => isWordOf_iff.2) hno hout

/-- A choice by a mark, which is then taken. -/
theorem takes_branch_mark (kind : TokenKind) (hkind : kind.hasValue = false)
    (hyes : Takes n yes l behind) (hno : Takes n no m behind)
    (hout : Opens m behind (others (isA kind))) :
    Takes n (.branch [isA kind] (.seq .take yes) no) (mark kind * l + m) behind :=
  takes_branch_take (fun _ => (isA_iff hkind).2) hyes hno hout

/-- A choice by a number, which is all that is then taken. -/
theorem takes_branch_number (hno : Takes n no m behind)
    (hout : Opens m behind (others (isA number))) :
    Takes n (.branch [isA number] .take no) (TypeWords.int + m) behind :=
  takes_branch_take_only (fun _ => TokenKind.sameClass_integer.2) hno hout

/-- What may be left out and begins with a word. -/
theorem takes_optional_word (k : Keyword) (hyes : Takes n yes l behind)
    (hstop : ∀ kind, behind kind = true → isWord k kind = false) :
    Takes n (optional (isWord k) (.seq .take yes)) (opt (TypeWords.word k * l)) behind :=
  takes_optional (fun _ => isWord_iff.2) hyes hstop

/-- What may be left out and begins with a mark. -/
theorem takes_optional_mark {kind : TokenKind} (hkind : kind.hasValue = false)
    (hyes : Takes n yes l behind) (hstop : ∀ k, behind k = true → isA kind k = false) :
    Takes n (optional (isA kind) (.seq .take yes)) (opt (mark kind * l)) behind :=
  takes_optional (fun _ => (isA_iff hkind).2) hyes hstop

/-! ### The rules of data types -/

/-- What ends a type does not begin with the test of a part that may be left out. -/
theorem others_of_endsType (hbracket : test .leftBracket = false)
    (hparen : test .rightParen = false) :
    ∀ kind, endsType kind = true → others test kind = true := fun kind hkind =>
  others_iff.2 (not_of_endsType hbracket hparen kind hkind)

/-- A character set or none is taken in front of what ends a type. -/
theorem takes_charset : Takes n charset (opt TypeWords.characterSet) endsType := by
  rw [opt, TypeWords.characterSet, mul_assoc]
  exact takes_optional_word .character (takes_seq (takes_word .set) takes_name opens_any)
    (not_of_endsType rfl rfl)

/-- What begins with a character set, or with what ends a type, passes no test that these fail. -/
theorem opens_charset (h : test (.keyword .character) = false)
    (hbracket : test .leftBracket = false) (hparen : test .rightParen = false) :
    Opens (opt TypeWords.characterSet) endsType (others test) :=
  opens_opt (opens_left (opens_left (opens_mark (others_iff.2 h))))
    (others_of_endsType hbracket hparen)

/-- A length or none is taken, if what follows is no parenthesis. -/
theorem takes_length (hstop : ∀ kind, behind kind = true → isA .leftParen kind = false) :
    Takes n length (opt TypeWords.length) behind := by
  rw [opt, TypeWords.length, mul_assoc]
  exact takes_optional_mark rfl (takes_seq takes_number (takes_expect rfl) opens_any) hstop

/-- A further number behind a comma, or none, and the closing parenthesis. -/
theorem takes_commaNumber :
    Takes n (.seq (optional (isA .comma) (.seq .take (.expect number))) (.expect .rightParen))
      (opt (mark .comma * TypeWords.int) * mark .rightParen) behind :=
  takes_seq (takes_optional_mark rfl takes_number fun _ => others_iff.1) (takes_expect rfl)
    (opens_mark rfl)

/-- A precision with its scale, or none, is taken in front of what ends a type. -/
theorem takes_precision : Takes n precision (opt TypeWords.sizes) endsType := by
  rw [opt, TypeWords.sizes, mul_assoc, mul_assoc]
  exact takes_optional_mark rfl (takes_seq takes_number takes_commaNumber opens_any)
    (not_of_endsType rfl rfl)

/-- What stands in the parentheses behind BLOB is taken, up to and with the closing one. Either
number may be missing. -/
theorem takes_blobSizes :
    Takes n (inOrder [optional (isA number) .take,
        optional (isA .comma) (.seq .take (.expect number)), .expect .rightParen])
      (opt TypeWords.int * (opt (mark .comma * TypeWords.int) * mark .rightParen)) behind :=
  takes_seq (takes_branch_number takes_empty (opens_empty fun _ hkind => hkind)) takes_commaNumber
    (opens_mul (opens_opt (opens_left (opens_mark rfl)) fun _ hkind => hkind) (opens_mark rfl))

/-- What begins with SEGMENT, with a character set or with what ends a type passes no test that
these fail. -/
theorem opens_segment (hsegment : test (.keyword .segment) = false)
    (hcharacter : test (.keyword .character) = false) (hbracket : test .leftBracket = false)
    (hparen : test .rightParen = false) :
    Opens (opt (TypeWords.word .segment * l) * opt TypeWords.characterSet) endsType
      (others test) :=
  opens_mul (opens_opt (opens_left (opens_mark (others_iff.2 hsegment))) fun _ hkind => hkind)
    (opens_charset hcharacter hbracket hparen)

/-- The options of a BLOB are taken, each of them or none, in their order. -/
theorem takes_blobOptions :
    Takes n (inOrder
        [optional (isWord .subType) (.seq .take (.branch [isA number] .take name)),
          optional (isWord .segment) (inOrder [.take, word .size, .expect number]), charset])
      TypeWords.blobOptions endsType := by
  -- Behind SUB_TYPE stands a number or a name, told apart by the test for a number.
  have hname : Opens TypeWords.ident (others (isWord .subType)) (others (isA number)) :=
    opens_one fun kind hkind => by cases hkind <;> rfl
  have hsubType := takes_optional_word .subType
    (takes_branch_number (takes_name (n := n)) hname) fun _ => others_iff.1
  have hsize : Takes n (.seq (word .size) (.expect number)) (TypeWords.word .size * TypeWords.int)
      (others (isWord .segment)) :=
    takes_seq (takes_word .size) takes_number opens_any
  have hsegment := takes_optional_word .segment hsize fun _ => others_iff.1
  simp only [TypeWords.blobOptions, mul_assoc]
  exact takes_seq hsubType (takes_seq hsegment takes_charset (opens_charset rfl rfl rfl))
    (opens_segment rfl rfl rfl rfl)

/-- The options of a BLOB open with no parenthesis, so its sizes and its options are told apart. -/
theorem opens_blobOptions : Opens TypeWords.blobOptions endsType (others (isA .leftParen)) := by
  simp only [TypeWords.blobOptions, mul_assoc]
  exact opens_mul (opens_opt (opens_left (opens_mark rfl)) fun _ hkind => hkind)
    (opens_segment rfl rfl rfl rfl)

/-- Either number in the parentheses behind BLOB may be left out, which is where the grammar that is
read is the larger one. -/
theorem takes_blobType :
    Takes n (.branch [isWord .blob] blobType (.fail "data type"))
      (TypeWords.word .blob * (TypeWords.looseSizes + TypeWords.blobOptions)) endsType := by
  have hsizes := takes_branch_mark .leftParen rfl (takes_blobSizes (n := n)) takes_blobOptions
    opens_blobOptions
  have hblob := takes_branch_word .blob hsizes (takes_fail "data type") opens_zero
  rw [add_zero] at hblob
  simp only [TypeWords.looseSizes, mul_assoc]
  exact hblob

/-- A character type has a character set only if one is read behind it. -/
theorem takes_scalarType (withCharset : Bool)
    (hcharset : Takes n (if withCharset then charset else .empty) l endsType)
    (hopens : Opens l endsType (others (isA .leftParen))) :
    Takes n (scalarType withCharset)
      (TypeWords.textType * l + TypeWords.plainType TypeWords.looseSizes) endsType := by
  -- The rule is a chain of choices by words. It is built from its end.
  have hdouble := takes_branch_word .double (takes_word .precision) (takes_blobType (n := n))
    (opens_left (opens_mark rfl))
  have hplain := takes_branch_words_only
    [.bigint, .integer, .int, .smallint, .float, .date, .time, .timestamp] hdouble
    (opens_add (opens_left (opens_mark rfl)) (opens_left (opens_mark rfl)))
  have hdecimal := takes_branch_words [.decimal, .numeric] takes_precision hplain
    (opens_add (opens_words rfl)
      (opens_add (opens_left (opens_mark rfl)) (opens_left (opens_mark rfl))))
  have htext := takes_branch_words [.char, .varchar]
    (takes_seq (takes_length fun _ => others_iff.1) hcharset hopens) hdecimal
    (opens_add (opens_left (opens_words rfl)) (opens_add (opens_words rfl)
      (opens_add (opens_left (opens_mark rfl)) (opens_left (opens_mark rfl)))))
  simp only [TypeWords.textType, TypeWords.plainType, TypeWords.simpleType, mul_assoc, add_assoc]
  exact htext

/-- What is wanted behind a range: a comma in front of the next one, or the closing bracket. -/
def endsRange : TokenKind → Bool
  | .comma | .rightBracket => true
  | _ => false

/-- What ends a range does not begin with the test of a part that may be left out. -/
theorem others_of_endsRange (hcomma : test .comma = false)
    (hbracket : test .rightBracket = false) :
    ∀ kind, endsRange kind = true → others test kind = true := by
  intro kind hkind
  cases kind with
  | comma => exact others_iff.2 hcomma
  | rightBracket => exact others_iff.2 hbracket
  | _ => cases hkind

/-- A range of an array is taken, with its upper bound in either form or without one. -/
theorem takes_range : Takes n range TypeWords.range endsRange := by
  have hglued : Takes n (optional isColonBound .take) (opt TypeWords.gluedBound) endsRange :=
    takes_branch_take_only (fun _ => isColonBound_iff.2) takes_empty
      (opens_empty (others_of_endsRange rfl rfl))
  have hout : Opens (opt TypeWords.gluedBound) endsRange (others (isA .colon)) := by
    refine opens_opt (opens_one ?_) (others_of_endsRange rfl rfl)
    rintro _ ⟨digits, -, -, rfl⟩
    rfl
  have hbound := takes_branch_mark .colon rfl takes_number hglued hout
  rw [TypeWords.range, opt, add_assoc]
  exact takes_seq takes_number hbound opens_any

/-- The ranges of an array are taken in their brackets, whatever stands behind them. -/
theorem takes_ranges : Takes n ranges TypeWords.ranges behind := by
  have hends : Opens (mark .comma * TypeWords.range)∗ (isA .rightBracket) endsRange := by
    refine opens_star (opens_left (opens_mark rfl)) fun kind hkind => ?_
    rw [(isA_iff rfl).1 hkind]
    rfl
  have hfurther : Takes n (.repeatWhile (isA .comma) (.seq .take range))
      (mark .comma * TypeWords.range)∗ (isA .rightBracket) :=
    takes_repeat (fun _ => (isA_iff rfl).2) takes_range hends (not_of_isA rfl rfl)
  simp only [TypeWords.ranges, mul_assoc]
  rw [← mul_assoc TypeWords.range]
  exact takes_seq (takes_expect rfl)
    (takes_seq (takes_seq takes_range hfurther hends) (takes_expect rfl) (opens_mark rfl))
    opens_any

/-- The attempt at an array succeeds where an array is read, so the rule for arrays is the one that
is chosen. -/
theorem foreseen_of_passes {ts rest : List Token}
    (h : Passes n (inOrder [scalarType false, ranges, charset]) ts rest) :
    (Rule.strict (.seq (scalarType false) (.expect .leftBracket)) ts).isSome = true := by
  obtain ⟨mid, ⟨ms, ks, hread, hclean⟩, hbounds⟩ := Passes.seq_iff.1 h
  obtain ⟨us, hranges, -⟩ := Passes.seq_iff.1 hbounds
  obtain ⟨vs, hbracket, -⟩ := Passes.seq_iff.1 hranges
  obtain ⟨t, rfl, ht⟩ := Passes.expect_iff.1 hbracket
  rw [Rule.strict, hread.strict_of_clean rfl hclean, Option.bind_some, Rule.strict, if_pos ht]
  rfl

/-- Every data type of the language is taken in front of a closing parenthesis. Whether it is read
as an array is decided by the attempt, which succeeds for the words of arrays and for no others. -/
theorem takes_dataType :
    Takes n dataType (TypeWords.dataType TypeWords.looseSizes) (isA .rightParen) := by
  -- An array type: a type, its ranges and a character set.
  have harray := takes_seq
    (takes_scalarType (n := n) false takes_empty (opens_empty (others_of_endsType rfl rfl)))
    (takes_seq takes_ranges takes_charset opens_any)
    (opens_left (opens_left (opens_left (opens_left (opens_mark rfl)))))
  intro passed rest hpassed hrest
  obtain ⟨t, us, rfl, ht⟩ := State.passes_one_iff.1 hrest
  have hends : State.passes [endsType] (t :: us) = true := by
    rw [State.passes_one_cons, (isA_iff rfl).1 ht]
    rfl
  -- The languages of types and of arrays are the two summands.
  rcases hpassed with hpassed | hpassed
  · obtain ⟨ms, ks, hread, hclean⟩ := takes_scalarType true takes_charset
      (opens_charset rfl rfl rfl) passed (t :: us) hpassed hends
    exact ⟨ms, ks, .unforeseen (not_foreseen hread hclean ⟨t, us, rfl, ht⟩) hread, hclean⟩
  · rw [mul_one, ← mul_assoc] at harray
    have hforeseen := foreseen_of_passes (harray passed (t :: us) hpassed hends)
    obtain ⟨ms, ks, hread, hclean⟩ := harray passed (t :: us) hpassed hends
    exact ⟨ms, ks, .foreseen hforeseen hread, hclean⟩

end Takes

/-! ### Reading a data type -/

/-- What reading a data type consumes without a repair is a word of the grammar, where a BLOB may
leave out the first number behind its parenthesis. It is a word of the grammar as described
exactly if none is left out. Nothing more is refused than what the grammar refuses: every word of
it, in front of the closing parenthesis of a CAST, is read without a repair. -/
theorem dataType_reads_words {levels : Nat} {s : State} (h0 : s.attempts = 0) :
    (∀ t, dataType.run (readValue levels) s = .ok t → t.repairs = s.repairs →
      ∃ passed, s.after = passed ++ t.after ∧
        passed.map Token.kind ∈ TypeWords.dataType TypeWords.looseSizes ∧
        (passed.map Token.kind ∈ TypeWords.dataType TypeWords.sizes ↔
          ¬ Sizeless (passed.map Token.kind))) ∧
    ∀ (passed rest : List Token) (r : Token), s.after = passed ++ r :: rest →
      r.kind = .rightParen →
      passed.map Token.kind ∈ TypeWords.dataType TypeWords.looseSizes →
      ∃ t, dataType.run (readValue levels) s = .ok t ∧ t.after = r :: rest ∧
        t.repairs = s.repairs := by
  constructor
  -- What was read is spelled by the rule, so it is a word of the loose grammar.
  · intro t hrun hrepairs
    have hpasses : Passes levels dataType s.after t.after :=
      (passes_iff_run rfl rfl h0).2 ⟨t, hrun, rfl, hrepairs⟩
    obtain ⟨passed, hpassed, hmem⟩ := spells_dataType _ _ hpasses
    exact ⟨passed, hpassed, hmem, TypeWords.not_sizeless_of_mem,
      TypeWords.mem_of_not_sizeless hmem⟩
  -- The word is passed in front of the parenthesis, and passing is reading without a repair.
  · intro passed rest r hafter hr hmem
    have hpasses := takes_dataType (n := levels) passed (r :: rest) hmem
      (State.passes_one_cons.trans ((isA_iff rfl).2 hr))
    rw [← hafter] at hpasses
    exact (passes_iff_run rfl rfl h0).1 hpasses

/-- `VARCHAR(3)[1:10, -2] CHARACTER SET UTF8`, an array with two dimensions and a character set
behind them. -/
def textArray : List Token :=
  [⟨.keyword .varchar, "VARCHAR".toList, 0⟩, ⟨.leftParen, ['('], 7⟩, ⟨.integer false, ['3'], 8⟩,
    ⟨.rightParen, [')'], 9⟩, ⟨.leftBracket, ['['], 10⟩, ⟨.integer false, ['1'], 11⟩,
    ⟨.identifier ":10".toList, ":10".toList, 12⟩, ⟨.comma, [','], 15⟩,
    ⟨.integer true, ['-', '2'], 17⟩, ⟨.rightBracket, [']'], 19⟩,
    ⟨.keyword .character, "CHARACTER".toList, 21⟩, ⟨.keyword .set, "SET".toList, 31⟩,
    ⟨.identifier "UTF8".toList, "UTF8".toList, 35⟩]

/-- An array of texts, one of whose upper bounds is glued to its colon, is a type as described. -/
theorem dataType_reads_words_array :
    textArray.map Token.kind ∈ TypeWords.dataType TypeWords.sizes := by
  have hrun : dataType.run (readValue 0) (.initial (textArray ++ [⟨.rightParen, [')'], 39⟩]) 40)
      = .ok (.takeMany 13 (.initial (textArray ++ [⟨.rightParen, [')'], 39⟩]) 40)) := by
    decide +kernel
  obtain ⟨passed, hpassed, -, hiff⟩ := (dataType_reads_words rfl).1 _ hrun rfl
  have htext : textArray = passed := List.append_cancel_right hpassed
  rw [htext, hiff, ← htext]
  rintro ⟨u, hu, -⟩
  cases hu

/-- `BLOB()` in front of a closing parenthesis, which the documented grammar of types does not have.
-/
def bareBlob : List Token :=
  [⟨.keyword .blob, "BLOB".toList, 0⟩, ⟨.leftParen, ['('], 4⟩, ⟨.rightParen, [')'], 5⟩,
    ⟨.rightParen, [')'], 6⟩]

/-- A BLOB with nothing in its parentheses is read without a repair, and the statement that it
stands in is clean, but it is no type as described. -/
theorem bare_blob_is_read :
    (∃ p, parse "INSERT INTO T (A) VALUES (CAST(1 AS BLOB()))".toList = .ok p ∧
      p.isClean = true) ∧
    ∃ t passed, dataType.run (readValue nestingLimit) (.initial bareBlob 7) = .ok t ∧
      t.repairs = [] ∧ bareBlob = passed ++ t.after ∧
      passed.map Token.kind ∉ TypeWords.dataType TypeWords.sizes := by
  have hparse : parse "INSERT INTO T (A) VALUES (CAST(1 AS BLOB()))".toList
      = .ok ⟨⟨some .insert, some ['T'], [['A']], ["CAST(1 AS BLOB())".toList], [], false⟩,
        .none⟩ := by rfl
  refine ⟨⟨_, hparse, rfl⟩, State.takeMany 3 (.initial bareBlob 7), bareBlob.take 3, ?_, rfl, rfl,
    fun h => ?_⟩
  · decide +kernel
  · refine TypeWords.not_sizeless_of_mem h ⟨[.rightParen], rfl, ?_⟩
    rintro negative v ⟨⟩

end GeneratedKeys
