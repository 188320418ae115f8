import GeneratedKeys.Proofs.Recovery.DataType

/-!
# `GeneratedKeys.Proofs.Recovery.Value`: values of a repaired statement

A value decides on the next token whether an operator or an argument list goes on with it.
The token that is wanted behind a value is never one of these, so dropping a stray token
there, or adding a missing parenthesis, does not make the value longer.

* `mends_value`: a value is read alike in the repaired statement. The induction is on the
  levels of nesting; the lemmas before it take nested values as they are.
-/

set_option autoImplicit false

namespace GeneratedKeys

open Rule Grammar View

/-- Whether a value ends at a token of the kind, whatever it is: no operator, and nothing that could
go on with a name. -/
def isQuiet (kind : TokenKind) : Bool :=
  (leftPower? kind).isNone && kind != .leftParen && kind != .leftBracket && kind != .dot

/-- What it means that a value ends at a token: it is no operator, opens neither a parenthesis nor a
bracket, and is no dot. -/
theorem isQuiet_iff {kind : TokenKind} :
    isQuiet kind = true ↔
      leftPower? kind = none ∧ kind ≠ .leftParen ∧ kind ≠ .leftBracket ∧ kind ≠ .dot := by
  simp [isQuiet, and_assoc]

/-- No operator is quiet, so a value ends in front of a quiet token. -/
theorem extendsValue_of_isQuiet {power : Nat} :
    ∀ kind : TokenKind, isQuiet kind = true → extendsValue power kind = false := by
  intro kind hk
  rw [extendsValue, (isQuiet_iff.1 hk).1]
  rfl

/-- A quiet token opens no parenthesis, so no arguments begin there. -/
theorem not_leftParen_of_isQuiet :
    ∀ kind : TokenKind, isQuiet kind = true → isA .leftParen kind = false := by
  intro kind hk
  rw [Bool.eq_false_iff, Ne, isA_iff rfl]
  exact (isQuiet_iff.1 hk).2.1

/-- A quiet token opens no bracket, so no index begins there. -/
theorem not_leftBracket_of_isQuiet :
    ∀ kind : TokenKind, isQuiet kind = true → isA .leftBracket kind = false := by
  intro kind hk
  rw [Bool.eq_false_iff, Ne, isA_iff rfl]
  exact (isQuiet_iff.1 hk).2.2.1

section

variable {n : Nat} {back : View}
  (hvalue : ∀ power : Nat, Mends n (.value power) (Behind isQuiet) Started)

include hvalue

/-- A value in front of a wanted token, whether that stands there or is repaired. -/
theorem mends_value_before {kind : TokenKind} (hkind : kind.hasValue = false)
    (hquiet : isQuiet kind = true) (power : Nat) :
    Mends n (.value power) (Behind (isA kind)) Started :=
  (hvalue power).behind fun h => h.of_isA hkind hquiet

/-- Values with commas between in front of a wanted token, which ends the last of them. -/
theorem mends_values (kind : TokenKind) (hkind : kind.hasValue = false)
    (hquiet : isQuiet kind = true) (hcomma : isA kind .comma = false) :
    Mends n values (Behind (isA kind)) Started :=
  mends_separated (mends_value_before hvalue hkind hquiet 0) hcomma

/-- A word with a value behind it, in front of a closing parenthesis. -/
theorem mends_optionalValue (k : Keyword) :
    Mends n (optional (isWord k) (.seq .take (.value 0))) (Behind (isA .rightParen))
      (Behind (isA .rightParen)) :=
  mends_optional (mends_seq mends_take (mends_value_before hvalue rfl rfl 0))
    (not_of_isA rfl rfl) rfl

/-- A value in parentheses, of which the closing one may be supplied. -/
theorem mends_enclosed : Mends n enclosed back Started :=
  mends_seq mends_take (mends_seq (hvalue 0) (mends_wanted rfl rfl))

/-- SUBSTRING with its words between the values. Each of the words ends the value in front of it. -/
theorem mends_substringCall : Mends n substringCall back Started := by
  have hfor : Mends n (.seq (optional (isWord .for) (.seq .take (.value 0)))
      (.expect .rightParen)) back (Behind (isA .rightParen)) :=
    mends_seq (mends_optionalValue hvalue .for) (mends_wanted rfl rfl)
  have hfrom : Mends n (inOrder [word .from, .value 0,
      optional (isWord .for) (.seq .take (.value 0)), .expect .rightParen]) back
      (Behind isQuiet) :=
    mends_seq (mends_wanted rfl rfl) (mends_seq (mends_value_before hvalue rfl rfl 0) hfor)
  exact mends_seq mends_take (mends_seq mends_expect (mends_seq (hvalue 0) hfrom))

/-- TRIM, with the words that tell where and what. Both words are tested and never wanted. -/
theorem mends_trimCall : Mends n trimCall back Started := by
  have hfrom : Mends n (.seq (optional (isWord .from) (.seq .take (.value 0)))
      (.expect .rightParen)) back (Behind (isA .rightParen)) :=
    mends_seq (mends_optionalValue hvalue .from) (mends_wanted rfl rfl)
  exact mends_seq mends_take (mends_seq mends_expect (mends_seq
    (mends_optional_started mends_take) (mends_seq (mends_value_before hvalue rfl rfl 0) hfrom)))

/-- EXTRACT with the two values around its FROM, each of which ends at a word or a parenthesis. -/
theorem mends_extractCall : Mends n extractCall back Started := by
  have hfrom : Mends n (inOrder [word .from, .value 0, .expect .rightParen]) back
      (Behind isQuiet) :=
    mends_seq (mends_wanted rfl rfl) (mends_seq (hvalue 0) (mends_wanted rfl rfl))
  exact mends_seq mends_take (mends_seq mends_expect (mends_seq (hvalue 0) hfrom))

/-- What an aggregate is taken of: a value, with ALL or DISTINCT in front of it or without. -/
theorem mends_aggregated : Mends n aggregated (Behind isQuiet) Started :=
  mends_seq (mends_optional_started mends_take) (hvalue 0)

/-- COUNT, of everything or of values. The star is tested and never wanted. -/
theorem mends_countCall : Mends n countCall back Started := by
  have hcounted : Mends n (.branch [isA .star] .take aggregated) (Behind isQuiet) Started :=
    mends_choice mends_take (mends_aggregated hvalue)
  exact mends_seq mends_take (mends_seq mends_expect (mends_seq hcounted (mends_wanted rfl rfl)))

/-- One of the other aggregates, with its word in front of the value or none. -/
theorem mends_aggregateCall : Mends n aggregateCall back Started :=
  mends_seq mends_take
    (mends_seq mends_expect (mends_seq (mends_aggregated hvalue) (mends_wanted rfl rfl)))

/-- CAST of a value to a data type. The type ends at the parenthesis, which is what its attempt
needs to be decided alike. -/
theorem mends_castCall : Mends n castCall back Started := by
  have htype : Mends n (inOrder [word .as, dataType, .expect .rightParen]) back
      (Behind isQuiet) :=
    mends_seq (mends_wanted rfl rfl) (mends_seq mends_dataType mends_expect)
  exact mends_seq mends_take (mends_seq mends_expect (mends_seq (hvalue 0) htype))

/-- `(value, ...)` or `()`. Which of the two is told by the next token, which is no repaired one. -/
theorem mends_arguments :
    Mends n (inOrder [.take, .branch [isA .rightParen] .empty values, .expect .rightParen]) back
      Started := by
  have hvalues : Mends n values (Headed .rightParen) Started :=
    (mends_values hvalue .rightParen rfl rfl rfl).behind fun h => h.behind rfl rfl
  have hlist : Mends n (.branch [isA .rightParen] .empty values) (Headed .rightParen)
      (fun _ _ _ => True) := by
    refine mends_branch mends_empty hvalues ?_ ?_
    · rintro before ts ts' - ⟨t, us, rfl, ht⟩
      exact ⟨by rwa [State.passes_one_cons], trivial⟩
    · intro before ts ts' hp hstart
      exact ⟨by rw [hstart.passes_eq, hp], trivial⟩
  exact mends_seq mends_take (mends_seq hlist mends_expect)

/-- An index into an array, in brackets, with one value or more. -/
theorem mends_element : Mends n (inOrder [.take, values, .expect .rightBracket]) back Started :=
  mends_seq mends_take
    (mends_seq (mends_values hvalue .rightBracket rfl rfl rfl) (mends_wanted rfl rfl))

/-- A name with what may follow it: arguments, an index, or another name behind a dot. -/
theorem mends_named : Mends n named (Behind isQuiet) Started := by
  have hcolumn : Mends n (.branch [isA .dot, isWord .dbKey] (.seq .take .take)
      (.branch [isA .dot, TokenKind.isName] (.seq .take .take) .empty)) (Behind isQuiet)
      (Behind isQuiet) := mends_dotted (mends_dotted mends_empty rfl rfl) rfl rfl
  have helement := mends_either (mends_element hvalue) hcolumn not_leftBracket_of_isQuiet rfl
  exact mends_seq mends_take
    (mends_either (mends_arguments hvalue) helement not_leftParen_of_isQuiet rfl)

omit hvalue in
/-- NEXT VALUE FOR and the name of a sequence. Either of the two wanted words may stand behind a
stray token. -/
theorem mends_nextValue : Mends n nextValue back Started :=
  mends_seq mends_take (mends_seq mends_expect (mends_seq mends_expect mends_name))

omit hvalue in
/-- GEN_ID of a sequence and a number. All that is wanted in it is a token, so any of them may be
repaired. -/
theorem mends_genIdCall : Mends n genIdCall back Started :=
  mends_seq mends_take (mends_seq mends_expect (mends_seq mends_name
    (mends_seq mends_expect (mends_seq mends_expect mends_expect))))

/-- A value that is no operation. Each alternative begins with a tested token, which stands there in
both statements. -/
theorem mends_primary : Mends n primary (Behind isQuiet) Started := by
  refine mends_choice mends_take (mends_choice (mends_enclosed hvalue) ?_)
  refine mends_choice (mends_substringCall hvalue) (mends_choice (mends_trimCall hvalue) ?_)
  refine mends_choice (mends_extractCall hvalue) (mends_choice (mends_countCall hvalue) ?_)
  refine mends_choice (mends_aggregateCall hvalue) (mends_choice mends_nextValue ?_)
  refine mends_choice mends_genIdCall (mends_choice (mends_castCall hvalue) ?_)
  exact mends_choice (mends_named hvalue) mends_fail

/-- An operator with what follows it: the value on its right, or the name of a collation. -/
theorem mends_operation : Mends n operation (Behind isQuiet) Started := by
  refine mends_choice (mends_seq mends_take mends_name) (mends_choice (hvalue 4) ?_)
  refine mends_choice (mends_seq mends_take (hvalue 2)) ?_
  exact mends_choice (mends_seq mends_take (hvalue 4)) (mends_seq mends_take (hvalue 6))

/-- A sign in front of a value, or a value that is no operation. -/
theorem mends_operand : Mends n operand (Behind isQuiet) Started :=
  mends_choice (mends_seq mends_take (hvalue 7)) (mends_primary hvalue)

/-- An operand and the operations behind it, up to a token that ends the value. -/
theorem mends_valueBody (power : Nat) : Mends n (Grammar.value power) (Behind isQuiet) Started :=
  mends_seq (mends_operand hvalue)
    (mends_repeatWhile (mends_operation hvalue) extendsValue_of_isQuiet rfl)

end

/-- A value is read alike in the repaired statement, if what follows it is the same or cannot go on
with it. -/
theorem mends_value (n power : Nat) : Mends n (.value power) (Behind isQuiet) Started := by
  induction n generalizing power with
  | zero =>
      intro before ts rest rest' ms ks hread
      cases hread
  | succ n ih =>
      intro before ts rest rest' ms ks hread hrest
      cases hread with
      | value hbody =>
          obtain ⟨hmended, hstart⟩ := mends_valueBody ih power hbody hrest
          exact ⟨.value hmended, hstart⟩

end GeneratedKeys
