import GeneratedKeys.Proofs.Value.Sound
import Mathlib.Computability.Language

/-!
# `GeneratedKeys.Proofs.Value.TypeWords`: the grammar of data types

The data types of a CAST as a language over kinds of tokens. What is read as a data type without
a repair is a word of it. The size of a BLOB is the one place where more is read than is
described: the first number may be left out there, and only there.

* `spells_seq`, `spells_branch_take`, …: a rule passes only words of a language, one lemma for
  each way of putting rules together.
* `spells_scalarType`, `spells_ranges`, `spells_dataType`: the rules of data types.
* `not_sizeless_of_mem`, `mem_of_not_sizeless`: what the sizes of a BLOB have to do with it.
-/

set_option autoImplicit false

namespace GeneratedKeys

open Rule Grammar Computability

/-! ### Languages of kinds -/

namespace TypeWords

/-- One token whose kind is one of some. All words of one token are such. -/
def one (p : TokenKind → Prop) : Language TokenKind :=
  {w | ∃ kind, p kind ∧ w = [kind]}

/-- One token of a kind, for kinds that carry no value. -/
def mark (kind : TokenKind) : Language TokenKind :=
  one (· = kind)

/-- One of some words, each of them a keyword. -/
def words (ks : List Keyword) : Language TokenKind :=
  one fun kind => ∃ k ∈ ks, kind = .keyword k

/-- A word, which is one keyword. -/
def word (k : Keyword) : Language TokenKind :=
  mark (.keyword k)

/-- A whole number, with a minus sign or without, as the token carries it. -/
def int : Language TokenKind :=
  one fun kind => ∃ negative, kind = .integer negative

/-- A name, quoted or not. -/
def ident : Language TokenKind :=
  one Name

/-- An upper bound written without a blank behind its colon. The lexer takes the colon and the
digits for one name. -/
def gluedBound : Language TokenKind :=
  one fun kind => ∃ digits, digits ≠ [] ∧ (∀ d ∈ digits, d.isDigit = true) ∧
    kind = .identifier (':' :: digits)

/-- What may be left out: the words of the language, and the empty one. -/
def opt (l : Language TokenKind) : Language TokenKind :=
  l + 1

/-- `CHARACTER SET ident`, behind a character type or behind the ranges of an array. -/
def characterSet : Language TokenKind :=
  word .character * word .set * ident

/-- `'(' int ')'`, the length of a character type. -/
def length : Language TokenKind :=
  mark .leftParen * int * mark .rightParen

/-- `'(' int [',' int] ')'`, the precision and scale of a number. -/
def sizes : Language TokenKind :=
  mark .leftParen * int * opt (mark .comma * int) * mark .rightParen

/-- `'(' [int] [',' int] ')'`, as the parentheses behind BLOB are read: the first number may be
missing. -/
def looseSizes : Language TokenKind :=
  mark .leftParen * opt int * opt (mark .comma * int) * mark .rightParen

/-- `CHAR | VARCHAR ['(' int ')']`, the types that may have a character set. -/
def textType : Language TokenKind :=
  words [.char, .varchar] * opt length

/-- The types that are no character types, no BLOB and no arrays. Only the decimal ones have sizes.
-/
def simpleType : Language TokenKind :=
  words [.decimal, .numeric] * opt sizes +
    words [.bigint, .integer, .int, .smallint, .float, .date, .time, .timestamp] +
    word .double * word .precision

/-- `[SUB_TYPE (int | ident)] [SEGMENT SIZE int] [CHARACTER SET ident]`, in this order, each of them
optional. -/
def blobOptions : Language TokenKind :=
  opt (word .subType * (int + ident)) * opt (word .segment * word .size * int) *
    opt characterSet

/-- The types that are no character types and no arrays, with what may stand in the parentheses
behind BLOB. -/
def plainType (blobSizes : Language TokenKind) : Language TokenKind :=
  simpleType + word .blob * (blobSizes + blobOptions)

/-- `int [':' int]`, where the second number may be glued to its colon. -/
def range : Language TokenKind :=
  int * opt (mark .colon * int + gluedBound)

/-- `'[' range (',' range)* ']'`, one range for each dimension. -/
def ranges : Language TokenKind :=
  mark .leftBracket * range * (mark .comma * range)∗ * mark .rightBracket

/-- The data types, with what may stand in the parentheses behind BLOB. The parameter is where the
documented grammar and the one that is read differ. -/
def dataType (blobSizes : Language TokenKind) : Language TokenKind :=
  textType * opt characterSet + plainType blobSizes +
    (textType + plainType blobSizes) * ranges * opt characterSet

end TypeWords

open TypeWords (one mark opt)

/-- The kinds begin with `BLOB '('`, and no number is next. These are the words that only the
grammar that is read has. -/
def Sizeless (w : List TokenKind) : Prop :=
  ∃ u, w = .keyword .blob :: .leftParen :: u ∧ ∀ negative v, u ≠ .integer negative :: v

/-! ### Rules and languages -/

/-- Whatever the rule passes is a word of the language, told by the kinds of its tokens. -/
def Spells (n : Nat) (r : Rule) (l : Language TokenKind) : Prop :=
  ∀ ts rest : List Token, Passes n r ts rest →
    ∃ passed, ts = passed ++ rest ∧ passed.map Token.kind ∈ l

section Spells

variable {n : Nat} {test : TokenKind → Bool} {p : TokenKind → Prop}
  {first second yes no body : Rule} {l m : Language TokenKind}

/-- A token of one of the kinds spells a word of one token. -/
theorem TypeWords.mem_one_of {t : Token} (h : p t.kind) : [t].map Token.kind ∈ one p :=
  ⟨t.kind, h, rfl⟩

/-- The empty rule spells the empty word and nothing else. -/
theorem spells_empty : Spells n .empty 1 := by
  intro ts rest h
  obtain rfl := Passes.empty_iff.1 h
  exact ⟨[], rfl, rfl⟩

/-- A rule that fails spells nothing, which is the language without words. -/
theorem spells_fail (wanted : String) : Spells n (.fail wanted) 0 := by
  intro ts rest h
  exact absurd h Passes.not_fail

/-- Two rules spell a word of the one language and then one of the other, so a sequence of rules is
a product of languages. -/
theorem spells_seq (h₁ : Spells n first l) (h₂ : Spells n second m) :
    Spells n (.seq first second) (l * m) := by
  intro ts rest h
  obtain ⟨mid, hfirst, hsecond⟩ := Passes.seq_iff.1 h
  obtain ⟨w, rfl, hw⟩ := h₁ ts mid hfirst
  obtain ⟨v, rfl, hv⟩ := h₂ mid rest hsecond
  refine ⟨w ++ v, by rw [List.append_assoc], ?_⟩
  rw [List.map_append]
  exact Language.append_mem_mul hw hv

/-- A choice by the next token, which is then taken, spells that token in front of the one language,
or a word of the other. -/
theorem spells_branch_take (htest : ∀ kind, test kind = true → p kind) (hyes : Spells n yes l)
    (hno : Spells n no m) : Spells n (.branch [test] (.seq .take yes) no) (one p * l + m) := by
  intro ts rest h
  rw [Passes.branch_iff] at h
  split at h
  · next hp =>
    obtain ⟨t, us, rfl, ht⟩ := State.passes_one_iff.1 hp
    obtain ⟨mid, htake, hyes'⟩ := Passes.seq_iff.1 h
    obtain rfl := Passes.take_cons_iff.1 htake
    obtain ⟨w, rfl, hw⟩ := hyes mid rest hyes'
    exact ⟨t :: w, rfl, Or.inl (Language.append_mem_mul (TypeWords.mem_one_of (htest _ ht)) hw)⟩
  · obtain ⟨w, hts, hw⟩ := hno ts rest h
    exact ⟨w, hts, Or.inr hw⟩

/-- The same with nothing behind the token that was tested. -/
theorem spells_branch_take_only (htest : ∀ kind, test kind = true → p kind)
    (hno : Spells n no m) : Spells n (.branch [test] .take no) (one p + m) := by
  intro ts rest h
  have htaken := spells_branch_take htest (spells_empty (n := n)) hno ts rest
  rw [mul_one] at htaken
  rw [Passes.branch_iff] at h htaken
  apply htaken
  split at h
  · next hp =>
    rw [if_pos hp]
    exact Passes.seq_iff.2 ⟨rest, h, Passes.empty_iff.2 rfl⟩
  · next hp =>
    rw [if_neg hp]
    exact h

/-- What is repeated behind a token that announces it spells so many words, one after the other. -/
theorem spells_repeat (htest : ∀ kind, test kind = true → p kind) (hbody : Spells n body l) :
    Spells n (.repeatWhile test (.seq .take body)) (one p * l)∗ := by
  intro ts rest h
  refine Passes.repeatWhile_induction
    (motive := fun ts rest => ∃ passed, ts = passed ++ rest ∧ passed.map Token.kind ∈ (one p * l)∗)
    (fun ts _ => ⟨[], rfl, Language.nil_mem_kstar _⟩) ?_ h
  intro ts mid rest hp hround ih
  -- A round is what would be read if it were optional.
  have hround' : Passes n (.branch [test] (.seq .take body) (.fail "")) ts mid := by
    rwa [Passes.branch_iff, if_pos hp]
  obtain ⟨w, rfl, hw⟩ := spells_branch_take htest hbody (spells_fail "") ts mid hround'
  rw [add_zero] at hw
  obtain ⟨v, rfl, hv⟩ := ih
  refine ⟨w ++ v, by rw [List.append_assoc], ?_⟩
  rw [List.map_append, ← Language.one_add_self_mul_kstar_eq_kstar]
  exact Or.inr (Language.append_mem_mul hw hv)

/-- A wanted token spells itself, if no repair is made. -/
theorem spells_expect (kind : TokenKind) (hkind : kind.hasValue = false) :
    Spells n (.expect kind) (mark kind) := by
  intro ts rest h
  obtain ⟨t, rfl, ht⟩ := (Passes.expect_kind_iff hkind).1 h
  exact ⟨[t], rfl, TypeWords.mem_one_of ht⟩

/-- A wanted number spells a number, with a sign or without. -/
theorem spells_number : Spells n (.expect number) TypeWords.int := by
  intro ts rest h
  obtain ⟨t, rfl, ht⟩ := Passes.expect_iff.1 h
  exact ⟨[t], rfl, TypeWords.mem_one_of (TokenKind.sameClass_integer.1 ht)⟩

/-- A wanted word spells itself. -/
theorem spells_word (k : Keyword) : Spells n (Rule.word k) (TypeWords.word k) :=
  spells_expect _ rfl

/-- A wanted name spells a name, quoted or not. -/
theorem spells_name : Spells n Rule.name TypeWords.ident := by
  intro ts rest h
  obtain ⟨t, rfl, ht⟩ := Passes.name_iff.1 h
  exact ⟨[t], rfl, TypeWords.mem_one_of (isName_iff.1 ht)⟩

/-- A choice by a word, which is then taken. -/
theorem spells_branch_word (k : Keyword) (hyes : Spells n yes l) (hno : Spells n no m) :
    Spells n (.branch [isWord k] (.seq .take yes) no) (TypeWords.word k * l + m) :=
  spells_branch_take (fun _ => isWord_iff.1) hyes hno

/-- A choice by one of several words, which is then taken. -/
theorem spells_branch_words (ks : List Keyword) (hyes : Spells n yes l) (hno : Spells n no m) :
    Spells n (.branch [isWordOf ks] (.seq .take yes) no) (TypeWords.words ks * l + m) :=
  spells_branch_take (fun _ => isWordOf_iff.1) hyes hno

/-- The same with nothing behind the word, where several words lead to the same side. -/
theorem spells_branch_words_only (ks : List Keyword) (hno : Spells n no m) :
    Spells n (.branch [isWordOf ks] .take no) (TypeWords.words ks + m) :=
  spells_branch_take_only (fun _ => isWordOf_iff.1) hno

/-- A choice by a mark, which is then taken. -/
theorem spells_branch_mark (kind : TokenKind) (hkind : kind.hasValue = false)
    (hyes : Spells n yes l) (hno : Spells n no m) :
    Spells n (.branch [isA kind] (.seq .take yes) no) (mark kind * l + m) :=
  spells_branch_take (fun _ => (isA_iff hkind).1) hyes hno

/-- A choice by a number, which is all that is then taken. -/
theorem spells_branch_number (hno : Spells n no m) :
    Spells n (.branch [isA number] .take no) (TypeWords.int + m) :=
  spells_branch_take_only (fun _ => TokenKind.sameClass_integer.1) hno

/-! ### The rules of data types -/

/-- A character set or none. All three of its tokens belong to it. -/
theorem spells_charset : Spells n charset (opt TypeWords.characterSet) := by
  rw [opt, TypeWords.characterSet, mul_assoc]
  exact spells_branch_word .character (spells_seq (spells_word .set) spells_name) spells_empty

/-- A length in parentheses or none, decided by the opening one. -/
theorem spells_length : Spells n length (opt TypeWords.length) := by
  rw [opt, TypeWords.length, mul_assoc]
  exact spells_branch_mark _ rfl (spells_seq spells_number (spells_expect _ rfl)) spells_empty

/-- A further number behind a comma, or none, decided by the comma. -/
theorem spells_commaNumber : Spells n (optional (isA .comma) (.seq .take (.expect number)))
    (opt (mark .comma * TypeWords.int)) :=
  spells_branch_mark _ rfl spells_number spells_empty

/-- A precision with its scale, or without it, or none of the two. -/
theorem spells_precision : Spells n precision (opt TypeWords.sizes) := by
  rw [opt, TypeWords.sizes, mul_assoc, mul_assoc]
  exact spells_branch_mark _ rfl
    (spells_seq spells_number (spells_seq spells_commaNumber (spells_expect _ rfl))) spells_empty

/-- Either number in the parentheses behind BLOB may be left out, or words may stand there instead.
-/
theorem spells_blobType :
    Spells n (.branch [isWord .blob] blobType (.fail "data type"))
      (TypeWords.word .blob * (TypeWords.looseSizes + TypeWords.blobOptions)) := by
  -- The parentheses: a number if one is next, and a further one if a comma is.
  have hsizes := spells_seq (spells_branch_number (spells_empty (n := n)))
    (spells_seq spells_commaNumber (spells_expect .rightParen rfl))
  -- The options, each behind the word that announces it.
  have hsubType := spells_branch_word .subType (spells_branch_number (spells_name (n := n)))
    spells_empty
  have hsegment := spells_branch_word .segment
    (spells_seq (spells_word (n := n) .size) spells_number) spells_empty
  have hblob := spells_branch_word .blob
    (spells_branch_mark .leftParen rfl hsizes
      (spells_seq hsubType (spells_seq hsegment spells_charset)))
    (spells_fail "data type")
  rw [add_zero] at hblob
  simp only [TypeWords.looseSizes, TypeWords.blobOptions, mul_assoc]
  exact hblob

/-- A character type has a character set only if one is read behind it. -/
theorem spells_scalarType (withCharset : Bool)
    (hcharset : Spells n (if withCharset then charset else .empty) l) :
    Spells n (scalarType withCharset)
      (TypeWords.textType * l + TypeWords.plainType TypeWords.looseSizes) := by
  have hdouble := spells_branch_word .double (spells_word (n := n) .precision) spells_blobType
  have hplain := spells_branch_words_only
    [.bigint, .integer, .int, .smallint, .float, .date, .time, .timestamp] hdouble
  have hdecimal := spells_branch_words [.decimal, .numeric] spells_precision hplain
  have htext := spells_branch_words [.char, .varchar] (spells_seq spells_length hcharset) hdecimal
  simp only [TypeWords.textType, TypeWords.plainType, TypeWords.simpleType, mul_assoc, add_assoc]
  exact htext

/-- The test for an upper bound without a blank behind its colon. -/
theorem isColonBound_iff {kind : TokenKind} : isColonBound kind = true ↔
    ∃ digits, digits ≠ [] ∧ (∀ d ∈ digits, d.isDigit = true) ∧
      kind = .identifier (':' :: digits) := by
  constructor
  · intro h
    unfold isColonBound at h
    split at h
    -- The name is a colon and digits.
    · next digits =>
      simp only [Bool.and_eq_true, Bool.not_eq_true', List.isEmpty_eq_false_iff,
        List.all_eq_true] at h
      exact ⟨digits, h.1, h.2, rfl⟩
    · cases h
  · rintro ⟨digits, hne, hdigits, rfl⟩
    simp only [isColonBound, Bool.and_eq_true, Bool.not_eq_true', List.isEmpty_eq_false_iff,
      List.all_eq_true]
    exact ⟨hne, hdigits⟩

/-- A range of an array, with its upper bound in either form or without one. -/
theorem spells_range : Spells n range TypeWords.range := by
  have hglued : Spells n (optional isColonBound .take) (opt TypeWords.gluedBound) :=
    spells_branch_take_only (fun _ => isColonBound_iff.1) spells_empty
  have hbound := spells_branch_mark .colon rfl spells_number hglued
  rw [TypeWords.range, opt, add_assoc]
  exact spells_seq spells_number hbound

/-- The ranges of an array in their brackets, with one range at least. -/
theorem spells_ranges : Spells n ranges TypeWords.ranges := by
  have hfurther : Spells n (.repeatWhile (isA .comma) (.seq .take range))
      (mark .comma * TypeWords.range)∗ :=
    spells_repeat (fun _ => (isA_iff rfl).1) spells_range
  simp only [TypeWords.ranges, mul_assoc]
  rw [← mul_assoc TypeWords.range]
  exact spells_seq (spells_expect _ rfl)
    (spells_seq (spells_seq spells_range hfurther) (spells_expect _ rfl))

/-- An array is read if a type and an opening bracket are foreseen, and a type that is none
otherwise. -/
theorem spells_dataType : Spells n dataType (TypeWords.dataType TypeWords.looseSizes) := by
  have hscalar := spells_scalarType true (spells_charset (n := n))
  have harray := spells_seq (spells_scalarType false (spells_empty (n := n)))
    (spells_seq spells_ranges spells_charset)
  rintro ts rest ⟨ms, ks, hread, hclean⟩
  cases hread with
  | foreseen _ hread =>
      obtain ⟨w, hts, hw⟩ := harray ts rest ⟨ms, ks, hread, hclean⟩
      rw [mul_one, ← mul_assoc] at hw
      exact ⟨w, hts, Or.inr hw⟩
  | unforeseen _ hread =>
      obtain ⟨w, hts, hw⟩ := hscalar ts rest ⟨ms, ks, hread, hclean⟩
      exact ⟨w, hts, Or.inl hw⟩

end Spells

/-! ### Sizes that are left out -/

namespace TypeWords

variable {p : TokenKind → Prop} {l m : Language TokenKind} {u w : List TokenKind}

/-- A word that begins with one token of some kinds: that token, and a word of the other language.
-/
theorem mem_one_mul : w ∈ one p * l ↔ ∃ kind v, p kind ∧ v ∈ l ∧ w = kind :: v := by
  rw [Language.mem_mul]
  constructor
  · rintro ⟨_, ⟨kind, hkind, rfl⟩, v, hv, rfl⟩
    exact ⟨kind, v, hkind, hv, rfl⟩
  · rintro ⟨kind, v, hkind, hv, rfl⟩
    exact ⟨[kind], ⟨kind, hkind, rfl⟩, v, hv, rfl⟩

/-- No word of the language begins with a token of the kind. An optional part of it can then be
decided by one token. -/
def Avoids (kind : TokenKind) (l : Language TokenKind) : Prop :=
  ∀ u, kind :: u ∉ l

/-- The empty word begins with no token, so it leaves every choice open. -/
theorem avoids_one {kind : TokenKind} : Avoids kind 1 := fun _ h => List.cons_ne_nil _ _ h

/-- Words that begin with a token of other kinds begin with none of this one. -/
theorem avoids_one_mul {kind : TokenKind} (hp : ¬ p kind) : Avoids kind (one p * l) := by
  intro u h
  obtain ⟨kind', v, hkind, -, heq⟩ := mem_one_mul.1 h
  rw [(List.cons.inj heq).1] at hp
  exact hp hkind

/-- A choice between two languages of which neither begins so does not begin so either. -/
theorem avoids_add {kind : TokenKind} (hl : Avoids kind l) (hm : Avoids kind m) :
    Avoids kind (l + m) := by
  rintro u (h | h)
  · exact hl u h
  · exact hm u h

/-- Two languages one after the other, if neither begins so. The second counts as well, as the word
of the first may be empty. -/
theorem avoids_mul {kind : TokenKind} (hl : Avoids kind l) (hm : Avoids kind m) :
    Avoids kind (l * m) := by
  intro u h
  obtain ⟨w, hw, v, hv, hwv⟩ := Language.mem_mul.1 h
  cases w with
  | nil => exact hm u (hwv ▸ hv)
  | cons kind' w =>
      rw [List.cons_append, List.cons.injEq] at hwv
      exact hl w (hwv.1 ▸ hw)

/-- What may be left out and begins with a word. -/
theorem avoids_opt_word (k : Keyword) : Avoids .leftParen (opt (word k * l)) :=
  avoids_add (avoids_one_mul (by simp)) avoids_one

/-- A character set begins with no parenthesis, so it is not taken for sizes. -/
theorem avoids_characterSet : Avoids .leftParen (opt characterSet) := by
  rw [characterSet, mul_assoc]
  exact avoids_opt_word .character

/-- The options of a BLOB begin with no parenthesis, so one token tells them from its sizes. -/
theorem avoids_blobOptions : Avoids .leftParen blobOptions := by
  rw [blobOptions, mul_assoc (word .segment)]
  exact avoids_mul (avoids_mul (avoids_opt_word _) (avoids_opt_word _)) avoids_characterSet

/-- The ranges of an array begin with a bracket, which is no parenthesis. -/
theorem avoids_ranges : Avoids .leftParen ranges := by
  simp only [ranges, mul_assoc]
  exact avoids_one_mul (by simp)

/-- The words in front of a type that is no BLOB are others. -/
theorem avoids_blob : Avoids (.keyword .blob) ((textType + simpleType) * m) := by
  simp only [textType, simpleType, add_mul, mul_assoc]
  refine avoids_add (avoids_one_mul (by decide)) (avoids_add (avoids_add ?_ ?_) ?_)
  all_goals exact avoids_one_mul (by decide)

/-- Behind BLOB and a parenthesis stands a number in all types as described. -/
theorem number_of_mem (hm : Avoids .leftParen m)
    (h : .keyword .blob :: .leftParen :: u ∈ (textType + plainType sizes) * m) :
    ∃ negative v, u = .integer negative :: v := by
  rw [plainType, ← add_assoc, add_mul] at h
  rcases h with h | h
  -- A character type does not begin with BLOB.
  · exact absurd h (avoids_blob _)
  · rw [mul_assoc] at h
    obtain ⟨_, w, -, hw, heq⟩ := mem_one_mul.1 h
    obtain ⟨-, rfl⟩ := List.cons.inj heq
    rw [add_mul] at hw
    -- Behind BLOB stand its sizes, which begin with a parenthesis and a number, or its options,
    -- which do not begin with a parenthesis.
    rcases hw with hw | hw
    · simp only [sizes, mul_assoc] at hw
      obtain ⟨_, v, -, hv, heq⟩ := mem_one_mul.1 hw
      obtain ⟨-, rfl⟩ := List.cons.inj heq
      obtain ⟨_, v, ⟨negative, rfl⟩, -, heq⟩ := mem_one_mul.1 hv
      exact ⟨negative, v, heq⟩
    · exact absurd hw (avoids_mul avoids_blobOptions hm _)

/-- `'(' [',' int] ')'`, the parentheses behind BLOB without the first number. -/
def bareSizes : Language TokenKind :=
  mark .leftParen * opt (mark .comma * int) * mark .rightParen

/-- The loose form of the sizes is the form as described or the one without a first number. -/
theorem looseSizes_eq : looseSizes = sizes + bareSizes := by
  rw [looseSizes, sizes, bareSizes, show opt int = int + 1 from rfl, mul_add, add_mul, add_mul,
    mul_one]

/-- So the types with the loose form are those as described, and a BLOB without a first number. -/
theorem plainType_looseSizes :
    plainType looseSizes = plainType sizes + word .blob * bareSizes := by
  rw [plainType, plainType, looseSizes_eq, add_right_comm sizes, mul_add _ _ bareSizes, add_assoc]

/-- A BLOB without a first number, whatever follows its parentheses. -/
theorem sizeless_of_mem (h : w ∈ word .blob * bareSizes * m) : Sizeless w := by
  simp only [bareSizes, mul_assoc] at h
  obtain ⟨_, v, rfl, hv, rfl⟩ := mem_one_mul.1 h
  obtain ⟨_, u, rfl, hu, rfl⟩ := mem_one_mul.1 hv
  refine ⟨u, rfl, ?_⟩
  rintro negative v rfl
  -- A comma or the closing parenthesis is next.
  have havoids : Avoids (.integer negative) (opt (mark .comma * int) * (mark .rightParen * m)) := by
    rw [opt, add_mul, one_mul, mul_assoc]
    exact avoids_add (avoids_one_mul (by simp)) (avoids_one_mul (by simp))
  exact havoids v hu

/-- No type as described leaves out the first number of a BLOB. This is half of where the two
grammars differ. -/
theorem not_sizeless_of_mem (h : w ∈ dataType sizes) : ¬ Sizeless w := by
  rintro ⟨u, rfl, hu⟩
  have hnumber : ∃ negative v, u = .integer negative :: v := by
    rcases h with (h | h) | h
    · refine number_of_mem avoids_characterSet ?_
      rw [add_mul]
      exact Or.inl h
    · refine number_of_mem avoids_one ?_
      rw [mul_one]
      exact Or.inr h
    · rw [mul_assoc] at h
      exact number_of_mem (avoids_mul avoids_ranges avoids_characterSet) h
  obtain ⟨negative, v, rfl⟩ := hnumber
  exact hu negative v rfl

/-- A type that is read and does not leave it out is a type as described. So they differ in nothing
else. -/
theorem mem_of_not_sizeless (h : w ∈ dataType looseSizes) (hsizes : ¬ Sizeless w) :
    w ∈ dataType sizes := by
  rw [dataType, plainType_looseSizes, ← add_assoc, ← add_assoc, add_mul _ _ ranges,
    add_mul _ _ (opt characterSet)] at h
  rcases h with (h | h) | h | h
  · exact Or.inl h
  · rw [← mul_one (word .blob * bareSizes)] at h
    exact absurd (sizeless_of_mem h) hsizes
  · exact Or.inr h
  · rw [mul_assoc] at h
    exact absurd (sizeless_of_mem h) hsizes

end TypeWords

end GeneratedKeys
