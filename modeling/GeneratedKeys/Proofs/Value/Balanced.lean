import GeneratedKeys.Proofs.Value.Sound

/-!
# `GeneratedKeys.Proofs.Value.Balanced`: values close what they open

A value closes every parenthesis and every bracket that it opens, and it closes none that was
opened in front of it. The commas in it stand inside of them. So a comma or a closing
parenthesis outside is the end of the value, and a list of values can be taken apart by counting.

* `Balanced`: tokens that close what they open, with commas outside or without.
* `Derives.balanced`: what is derived from the grammar of values is balanced.
* `balanced_of_dataType`: a data type is balanced, too. Its commas stand inside the parentheses
  of a CAST.
-/

set_option autoImplicit false

namespace GeneratedKeys

open Rule Grammar

namespace TokenKind

/-- Whether a token of the kind opens parentheses or brackets. Which of the two does not matter for
counting. -/
def opens : TokenKind → Bool
  | .leftParen | .leftBracket => true
  | _ => false

/-- Whether a token of the kind closes parentheses or brackets. Which of them it fits is `closedBy`.
-/
def closes : TokenKind → Bool
  | .rightParen | .rightBracket => true
  | _ => false

/-- Whether a token of the second kind closes what one of the first kind opens: a parenthesis by a
parenthesis, a bracket by a bracket. -/
def closedBy : TokenKind → TokenKind → Bool
  | .leftParen, .rightParen | .leftBracket, .rightBracket => true
  | _, _ => false

/-- Whether a token of the kind may stand outside parentheses and brackets. A comma may do so if
`commas` is set. -/
def isPlain (commas : Bool) : TokenKind → Bool
  | .leftParen | .leftBracket | .rightParen | .rightBracket => false
  | .comma => commas
  | _ => true

/-- A closing parenthesis closes an opening one, a closing bracket an opening bracket, and nothing
else closes anything. -/
theorem closedBy_iff {left right : TokenKind} :
    left.closedBy right = true ↔
      left = .leftParen ∧ right = .rightParen ∨ left = .leftBracket ∧ right = .rightBracket := by
  cases left <;> cases right <;> simp [closedBy]

/-- What something closes opens something, so pairs are made of an opening and a closing token. -/
theorem opens_of_closedBy {left right : TokenKind} (h : left.closedBy right = true) :
    left.opens = true := by
  rcases closedBy_iff.1 h with ⟨rfl, -⟩ | ⟨rfl, -⟩ <;> rfl

/-- What closes something is a closing token, of the same sort as the opening one. -/
theorem closes_of_closedBy {left right : TokenKind} (h : left.closedBy right = true) :
    right.closes = true := by
  rcases closedBy_iff.1 h with ⟨-, rfl⟩ | ⟨-, rfl⟩ <;> rfl

/-- What opens something closes nothing, so each token changes the count in one direction at most.
-/
theorem closes_of_opens {kind : TokenKind} (h : kind.opens = true) : kind.closes = false := by
  cases kind <;> first | rfl | cases h

/-- What closes something opens nothing, which is the same said of the other token. -/
theorem opens_of_closes {kind : TokenKind} (h : kind.closes = true) : kind.opens = false := by
  cases kind <;> first | rfl | cases h

/-- What opens something is no comma, so it never separates items. -/
theorem ne_comma_of_opens {kind : TokenKind} (h : kind.opens = true) : kind ≠ .comma := by
  rintro rfl
  cases h

/-- A kind may stand outside if it neither opens nor closes anything and is no comma where none are
allowed. -/
theorem isPlain_iff {commas : Bool} {kind : TokenKind} :
    kind.isPlain commas = true ↔
      kind.opens = false ∧ kind.closes = false ∧ (kind = .comma → commas = true) := by
  cases kind <;> simp [isPlain, opens, closes]

end TokenKind

/-- The tokens of `ts` in front of `rest` close what they open and nothing else. Outside
parentheses and brackets there are no commas among them, unless `commas` is set. -/
inductive Balanced : Bool → List Token → List Token → Prop where
  | nil {commas : Bool} {ts : List Token} : Balanced commas ts ts
  | token {commas : Bool} {t : Token} {ts rest : List Token} :
      t.kind.isPlain commas = true → Balanced commas ts rest → Balanced commas (t :: ts) rest
  | enclosed {commas : Bool} {l r : Token} {ts mid rest : List Token} :
      l.kind.closedBy r.kind = true → Balanced true ts (r :: mid) →
        Balanced commas mid rest → Balanced commas (l :: ts) rest

namespace Balanced

variable {commas : Bool} {t l r : Token} {ts mid rest : List Token}

/-- Balanced tokens with balanced tokens behind them are balanced. The induction is on the first
ones. -/
theorem trans (h : Balanced commas ts mid) (h' : Balanced commas mid rest) :
    Balanced commas ts rest := by
  induction h with
  | nil => exact h'
  | token ht _ ih => exact .token ht (ih h')
  | enclosed hends hinside _ _ ih => exact .enclosed hends hinside (ih h')

/-- Without commas outside, tokens are balanced also where commas are allowed, so values can be
items of a list. -/
theorem loosen (h : Balanced commas ts rest) : Balanced true ts rest := by
  induction h with
  | nil => exact .nil
  | token ht _ ih =>
      rw [TokenKind.isPlain_iff] at ht
      exact .token (TokenKind.isPlain_iff.2 ⟨ht.1, ht.2.1, fun _ => rfl⟩) ih
  | enclosed hends hinside _ _ ih => exact .enclosed hends hinside ih

/-- A word in front of balanced tokens. Words open and close nothing. -/
theorem word {k : Keyword} (ht : t.kind = .keyword k) (h : Balanced commas ts rest) :
    Balanced commas (t :: ts) rest := by
  refine .token ?_ h
  rw [ht]
  rfl

/-- A name in front of balanced tokens leaves them balanced, as it neither opens nor closes. -/
theorem name (ht : Name t.kind) (h : Balanced commas ts rest) :
    Balanced commas (t :: ts) rest := by
  refine .token ?_ h
  cases hkind : t.kind <;> rw [hkind] at ht <;> first | rfl | cases ht

/-- Tokens between parentheses are balanced together with these. Commas between them are inside
then. -/
theorem parens (hl : l.kind = .leftParen) (h : Balanced true ts (r :: rest))
    (hr : r.kind = .rightParen) : Balanced commas (l :: ts) rest := by
  refine .enclosed ?_ h .nil
  rw [hl, hr]
  rfl

/-- Tokens between brackets are balanced together with these, just like tokens between parentheses.
-/
theorem brackets (hl : l.kind = .leftBracket) (h : Balanced true ts (r :: rest))
    (hr : r.kind = .rightBracket) : Balanced commas (l :: ts) rest := by
  refine .enclosed ?_ h .nil
  rw [hl, hr]
  rfl

/-- A function that goes through the tokens and keeps count of what is open treats balanced tokens
one by one, and behind them it is where it was in front of them. It may treat a comma otherwise
where nothing is open. -/
theorem foldr_eq {σ β : Type} {f : σ → List Token → β} {absorb : Token → β → β}
    (enter : Token → σ → σ) (inside : σ → Prop)
    (plain : ∀ {commas : Bool} {t : Token} (state : σ) (us : List Token),
      t.kind.isPlain commas = true → (commas = true → inside state) →
        f state (t :: us) = absorb t (f state us))
    (opening : ∀ {l : Token} (state : σ) (us : List Token), l.kind.opens = true →
      inside (enter l state) ∧ f state (l :: us) = absorb l (f (enter l state) us))
    (closing : ∀ {l r : Token} (state : σ) (us : List Token), l.kind.closedBy r.kind = true →
      f (enter l state) (r :: us) = absorb r (f state us))
    (h : Balanced commas ts rest) :
    ∃ w, ts = w ++ rest ∧ ∀ (state : σ) (us : List Token), (commas = true → inside state) →
      f state (w ++ us) = w.foldr absorb (f state us) := by
  induction h with
  | nil => exact ⟨[], rfl, fun _ _ _ => rfl⟩
  | @token _ t _ _ ht _ ih =>
      obtain ⟨w, rfl, hw⟩ := ih
      refine ⟨t :: w, rfl, fun state us hinside => ?_⟩
      rw [List.cons_append, plain state _ ht hinside, hw state us hinside]
      rfl
  | @enclosed _ l r _ _ _ hends _ _ ihinside ihbehind =>
      obtain ⟨v, rfl, hv⟩ := ihinside
      obtain ⟨w, rfl, hw⟩ := ihbehind
      refine ⟨l :: (v ++ r :: w), by simp, fun state us hinside => ?_⟩
      -- Inside one more is open, and the closing token leads back.
      obtain ⟨hentered, hl⟩ := opening state (v ++ (r :: (w ++ us)))
        (TokenKind.opens_of_closedBy hends)
      have hinner := hv (enter l state) (r :: (w ++ us)) fun _ => hentered
      rw [closing state _ hends, hw state us hinside] at hinner
      simp only [List.cons_append, List.append_assoc, List.foldr_cons, List.foldr_append]
      rw [hl, hinner]

end Balanced

/-! ### Data types -/

section

variable {n : Nat} {test : TokenKind → Bool} {first second yes no body : Rule}

/-- Whatever the rule passes is balanced. Commas may stand outside, as between the values of a list.
-/
def Evens (n : Nat) (r : Rule) : Prop :=
  ∀ ts rest : List Token, Passes n r ts rest → Balanced true ts rest

/-- Whatever the rule passes is balanced up to its last token, which closes something that was
opened in front of it. -/
def EvensToClosing (n : Nat) (r : Rule) (kind : TokenKind) : Prop :=
  ∀ ts rest : List Token, Passes n r ts rest →
    ∃ t : Token, t.kind = kind ∧ Balanced true ts (t :: rest)

/-- The empty rule passes nothing, which is balanced. -/
theorem evens_empty : Evens n .empty := by
  intro ts rest h
  obtain rfl := Passes.empty_iff.1 h
  exact .nil

/-- A rule that fails passes nothing at all, so there is nothing to be balanced. -/
theorem evens_fail (wanted : String) : Evens n (.fail wanted) := by
  intro ts rest h
  exact absurd h Passes.not_fail

/-- Two rules that pass balanced tokens do so one after the other. -/
theorem evens_seq (h₁ : Evens n first) (h₂ : Evens n second) : Evens n (.seq first second) := by
  intro ts rest h
  obtain ⟨mid, hfirst, hsecond⟩ := Passes.seq_iff.1 h
  exact (h₁ ts mid hfirst).trans (h₂ mid rest hsecond)

/-- A token that is wanted and is none of the parentheses and brackets. -/
theorem evens_expect {kind : TokenKind}
    (hkind : ∀ found : TokenKind, found.sameClass kind = true → found.isPlain true = true) :
    Evens n (.expect kind) := by
  intro ts rest h
  obtain ⟨t, rfl, ht⟩ := Passes.expect_iff.1 h
  exact .token (hkind t.kind ht) .nil

/-- A number is balanced by itself, as one token that neither opens nor closes. -/
theorem evens_number : Evens n (.expect number) := by
  refine evens_expect fun found h => ?_
  obtain ⟨sign, rfl⟩ := TokenKind.sameClass_integer.1 h
  rfl

/-- So is a word, whichever keyword it is. -/
theorem evens_word (k : Keyword) : Evens n (word k) := by
  refine evens_expect fun found h => ?_
  obtain rfl := (TokenKind.sameClass_iff rfl).1 h
  rfl

/-- So is a name, quoted or not. -/
theorem evens_name : Evens n Rule.name := by
  intro ts rest h
  obtain ⟨t, rfl, ht⟩ := Passes.name_iff.1 h
  exact .name (isName_iff.1 ht) .nil

/-- A token that is taken behind a test for none of the parentheses and brackets. -/
theorem evens_take (htest : ∀ kind : TokenKind, test kind = true → kind.isPlain true = true)
    (hyes : Evens n yes) (hno : Evens n no) : Evens n (.branch [test] (.seq .take yes) no) := by
  intro ts rest h
  rw [Passes.branch_iff] at h
  split at h
  · next hp =>
    obtain ⟨t, us, rfl, ht⟩ := State.passes_one_iff.1 hp
    obtain ⟨mid, htake, hothers⟩ := Passes.seq_iff.1 h
    obtain rfl := Passes.take_cons_iff.1 htake
    exact .token (htest t.kind ht) (hyes mid rest hothers)
  · exact hno ts rest h

/-- A token that is all that is taken behind such a test. -/
theorem evens_take_only (htest : ∀ kind : TokenKind, test kind = true → kind.isPlain true = true)
    (hno : Evens n no) : Evens n (.branch [test] .take no) := by
  intro ts rest h
  have htaken := evens_take htest (evens_empty (n := n)) hno ts rest
  rw [Passes.branch_iff] at h htaken
  apply htaken
  split at h
  · next hp =>
    rw [if_pos hp]
    exact Passes.seq_iff.2 ⟨rest, h, Passes.empty_iff.2 rfl⟩
  · next hp =>
    rw [if_neg hp]
    exact h

/-- A closing token by itself has nothing in front of it, which is balanced. -/
theorem closing_expect {kind : TokenKind} (hkind : kind.hasValue = false) :
    EvensToClosing n (.expect kind) kind := by
  intro ts rest h
  obtain ⟨t, rfl, ht⟩ := (Passes.expect_kind_iff hkind).1 h
  exact ⟨t, ht, .nil⟩

/-- A rule that passes balanced tokens may stand in front of one that ends with a closing token. -/
theorem closing_seq {kind : TokenKind} (h₁ : Evens n first)
    (h₂ : EvensToClosing n second kind) : EvensToClosing n (.seq first second) kind := by
  intro ts rest h
  obtain ⟨mid, hfirst, hsecond⟩ := Passes.seq_iff.1 h
  obtain ⟨t, ht, hmid⟩ := h₂ mid rest hsecond
  exact ⟨t, ht, (h₁ ts mid hfirst).trans hmid⟩

/-- What stands between parentheses, or what the other side of the choice passes. The opening one is
taken by the choice, and the closing one by the rule inside. -/
theorem evens_parens (hbody : EvensToClosing n body .rightParen) (hno : Evens n no) :
    Evens n (.branch [isA .leftParen] (.seq .take body) no) := by
  intro ts rest h
  rw [Passes.branch_iff] at h
  split at h
  · next hp =>
    obtain ⟨l, us, rfl, hl⟩ := State.passes_one_iff.1 hp
    obtain ⟨mid, htake, hothers⟩ := Passes.seq_iff.1 h
    obtain rfl := Passes.take_cons_iff.1 htake
    obtain ⟨r, hr, hinside⟩ := hbody mid rest hothers
    exact .parens ((isA_iff rfl).1 hl) hinside hr
  · exact hno ts rest h

/-- What passes the test for a word may stand outside. -/
theorem isPlain_of_isWord {k : Keyword} (kind : TokenKind) (h : isWord k kind = true) :
    kind.isPlain true = true := by
  obtain rfl := isWord_iff.1 h
  rfl

/-- What passes the test for one of several words may stand outside. -/
theorem isPlain_of_isWordOf {ks : List Keyword} (kind : TokenKind)
    (h : isWordOf ks kind = true) : kind.isPlain true = true := by
  obtain ⟨k, -, rfl⟩ := isWordOf_iff.1 h
  rfl

/-- What passes the test for a number may stand outside. -/
theorem isPlain_of_number (kind : TokenKind) (h : isA number kind = true) :
    kind.isPlain true = true := by
  obtain ⟨sign, rfl⟩ := TokenKind.sameClass_integer.1 h
  rfl

/-- A comma may stand outside where commas are allowed. Inside a pair they always are. -/
theorem isPlain_of_comma (kind : TokenKind) (h : isA .comma kind = true) :
    kind.isPlain true = true := by
  obtain rfl := (isA_iff rfl).1 h
  rfl

/-- An upper bound that is glued to its colon is a name, so it may stand outside. -/
theorem isPlain_of_colonBound (kind : TokenKind) (h : isColonBound kind = true) :
    kind.isPlain true = true := by
  cases kind <;> first | rfl | cases h

/-- A character set is balanced. -/
theorem evens_charset : Evens n charset :=
  evens_take isPlain_of_isWord (evens_seq (evens_word .set) evens_name) evens_empty

/-- A length in its parentheses is balanced, and so is none. -/
theorem evens_length : Evens n length :=
  evens_parens (closing_seq evens_number (closing_expect rfl)) evens_empty

/-- A further number behind a comma, or none. The comma is inside the parentheses of whatever has
the number. -/
theorem evens_commaNumber : Evens n (optional (isA .comma) (.seq .take (.expect number))) :=
  evens_take isPlain_of_comma evens_number evens_empty

/-- A precision with its scale is balanced. -/
theorem evens_precision : Evens n precision :=
  evens_parens
    (closing_seq evens_number (closing_seq evens_commaNumber (closing_expect rfl))) evens_empty

/-- What may follow the word BLOB: sizes in parentheses, or the options that are written in words.
-/
theorem evens_blobBounds : Evens n (.branch [isA .leftParen]
    (inOrder [.take, optional (isA number) .take,
      optional (isA .comma) (.seq .take (.expect number)), .expect .rightParen])
    (inOrder
      [optional (isWord .subType) (.seq .take (.branch [isA number] .take Rule.name)),
        optional (isWord .segment) (inOrder [.take, word .size, .expect number]),
        charset])) := by
  refine evens_parens ?_ ?_
  · exact closing_seq (evens_take_only isPlain_of_number evens_empty)
      (closing_seq evens_commaNumber (closing_expect rfl))
  · have hsubType := evens_take_only (n := n) isPlain_of_number evens_name
    have hsegment := evens_seq (evens_word (n := n) .size) evens_number
    exact evens_seq (evens_take isPlain_of_isWord hsubType evens_empty)
      (evens_seq (evens_take isPlain_of_isWord hsegment evens_empty) evens_charset)

/-- A type without array bounds is balanced, whichever it is and whether or not its character set is
read. -/
theorem evens_scalarType (withCharset : Bool) : Evens n (scalarType withCharset) := by
  have hcharset : Evens n (if withCharset then charset else .empty) := by
    cases withCharset
    · exact evens_empty
    · exact evens_charset
  refine evens_take isPlain_of_isWordOf (evens_seq evens_length hcharset) ?_
  refine evens_take isPlain_of_isWordOf evens_precision ?_
  refine evens_take_only isPlain_of_isWordOf ?_
  refine evens_take isPlain_of_isWord (evens_word .precision) ?_
  exact evens_take isPlain_of_isWord evens_blobBounds (evens_fail _)

/-- A range of an array is balanced, with its upper bound or without. -/
theorem evens_range : Evens n range := by
  refine evens_seq evens_number (evens_take ?_ evens_number ?_)
  · intro kind h
    obtain rfl := (isA_iff rfl).1 h
    rfl
  · exact evens_take_only isPlain_of_colonBound evens_empty

/-- So are further ones behind commas, if commas may stand outside. The induction is over the
rounds. -/
theorem evens_further (hbody : Evens n body) :
    Evens n (.repeatWhile (isA .comma) (.seq .take body)) := by
  intro ts rest h
  refine Passes.repeatWhile_induction (fun _ _ => .nil) ?_ h
  intro ts mid rest hp hround ih
  -- A round is what would be read behind a comma that is optional.
  refine (evens_take isPlain_of_comma hbody evens_empty ts mid ?_).trans ih
  rw [Passes.branch_iff, if_pos hp]
  exact hround

/-- The ranges of an array in their brackets are balanced, with the commas between them inside. -/
theorem evens_ranges : Evens n ranges := by
  intro ts rest h
  obtain ⟨mid, hopening, hothers⟩ := Passes.seq_iff.1 h
  obtain ⟨l, rfl, hl⟩ := (Passes.expect_kind_iff rfl).1 hopening
  obtain ⟨r, hr, hinside⟩ := closing_seq (evens_seq evens_range (evens_further evens_range))
    (closing_expect rfl) mid rest hothers
  exact .brackets hl hinside hr

/-- A data type is balanced. Its sizes stand in parentheses, its ranges in brackets, and neither has
others inside. -/
theorem balanced_of_dataType {ts rest : List Token} (h : Passes n dataType ts rest) :
    Balanced true ts rest := by
  have harray : Evens n (inOrder [scalarType false, ranges, charset]) :=
    evens_seq (evens_scalarType false) (evens_seq evens_ranges evens_charset)
  obtain ⟨ms, ks, hread, hclean⟩ := h
  cases hread with
  | foreseen _ hread => exact harray ts rest ⟨ms, ks, hread, hclean⟩
  | unforeseen _ hread => exact evens_scalarType true ts rest ⟨ms, ks, hread, hclean⟩

end

/-! ### Values -/

/-- Whether what is derived from the nonterminal has commas outside parentheses and brackets, which
only lists of values have. -/
def Nonterminal.commas : Nonterminal → Bool
  | .values | .furtherValues => true
  | _ => false

/-- What is derived from the grammar of values is balanced. The induction is on the derivation, with
one case for each production. -/
theorem Derives.balanced {x : Nonterminal} {ts rest : List Token} (h : Derives x ts rest) :
    Balanced x.commas ts rest := by
  induction h with
  | value _ _ ihoperand ihtails => exact ihoperand.trans ihtails
  | signed ht _ ih =>
      refine .token ?_ ih
      rcases ht with ht | ht <;> rw [ht] <;> rfl
  | unsigned _ ih => exact ih
  | noTail | lastValue | absent => exact .nil
  | tails _ _ ihtail ihtails => exact ihtail.trans ihtails
  | collation ht hname => exact .word ht (.name hname .nil)
  -- No operator opens or closes anything, and none is a comma.
  | @operation t _ _ ht _ ih =>
      refine .token ?_ ih
      cases hkind : t.kind <;> rw [hkind] at ht <;> first | rfl | cases ht
  | subtraction ht =>
      refine .token ?_ .nil
      rcases ht with ht | ht <;> rw [ht] <;> rfl
  | @literal t _ ht =>
      refine .token ?_ .nil
      cases hkind : t.kind <;> rw [hkind] at ht <;> first | rfl | cases ht
  -- Inside parentheses commas count no more, so what is balanced without them is so with them.
  | enclosed hl _ hr ih => exact .parens hl ih.loosen hr
  | substring hf hl _ hm _ _ hr ihfirst ihsecond ihoption =>
      exact .word hf (.parens hl (ihfirst.trans (.word hm (ihsecond.trans ihoption))).loosen hr)
  | trim hf hl _ _ hr ihvalue ihoption =>
      exact .word hf (.parens hl (ihvalue.trans ihoption).loosen hr)
  | extract hf hl _ hm _ hr ihfirst ihsecond =>
      exact .word hf (.parens hl (ihfirst.trans (.word hm ihsecond)).loosen hr)
  | countAll hf hl hs hr =>
      refine .word hf (.parens hl (.token ?_ .nil) hr)
      rw [hs]
      rfl
  | aggregate hf _ hl _ hr ih => exact .word hf (.parens hl ih.loosen hr)
  | nextValue hf hv ho hname => exact .word hf (.word hv (.word ho (.name hname .nil)))
  | genId hf hl hname hc hi hr =>
      refine .word hf (.parens hl
        (.name hname (.token ?_ (.token ?_ .nil))) hr)
      · rw [hc]
        rfl
      · rw [hi]
        rfl
  -- The data type is read by its own rule, which passes balanced tokens.
  | cast hf hl _ ha htype hr ihvalue =>
      have hinside := balanced_of_dataType (n := nestingLimit) (typeRange_iff.1 htype)
      exact .word hf (.parens hl (ihvalue.loosen.trans (.word ha hinside)) hr)
  | call hname hl _ hr ih => exact .name hname (.parens hl ih hr)
  | emptyCall hname hl hr => exact .name hname (.parens hl .nil hr)
  | element hname hl _ hr ih => exact .name hname (.brackets hl ih hr)
  | rowKey hname hd hk =>
      refine .name hname (.token ?_ (.word hk .nil))
      rw [hd]
      rfl
  | qualifiedColumn hname hd hcolumn =>
      refine .name hname (.token ?_ (.name hcolumn .nil))
      rw [hd]
      rfl
  | column hname => exact .name hname .nil
  -- Several values have commas between them.
  | values _ _ ihvalue ihothers => exact ihvalue.loosen.trans ihothers
  | furtherValue hc _ _ ihvalue ihothers =>
      refine .token ?_ (ihvalue.loosen.trans ihothers)
      rw [hc]
      rfl
  | unqualified _ ih => exact ih
  | qualifier ht _ _ ih => exact .word ht ih
  | present ht _ ih => exact .word ht ih

end GeneratedKeys
