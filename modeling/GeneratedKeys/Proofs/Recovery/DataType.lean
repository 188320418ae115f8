import GeneratedKeys.Proofs.Recovery.Mends

/-!
# `GeneratedKeys.Proofs.Recovery.DataType`: the attempt at an array type

A data type is an array if a type and an opening bracket can be read as they stand. The
attempt is made on the statement with its stray tokens, and again on the repaired statement,
which may have lost some of them. Both attempts end alike, since a data type stands in front
of a closing parenthesis:

* `mends_arrayType`: an array type read with repairs is one without repairs in the repaired
  statement, so the attempt succeeds there;
* `not_foreseen`: an attempt at a type that is no array would read up to a bracket, but the
  type ends at the parenthesis.
-/

set_option autoImplicit false

namespace GeneratedKeys

open Rule Grammar View Move

/-- A reading without repairs is what an attempt looks for, so where one succeeds the other does. -/
theorem Reads.strict_of_clean {n : Nat} {r : Rule} {ts rest : List Token} {ms : List Move}
    {ks : List Note} (h : Reads n r ts ms ks rest) (hr : r.plain = true) (hclean : Clean ms) :
    r.strict ts = some rest := by
  induction h with
  | empty => rfl
  | seq _ _ ih₁ ih₂ =>
      simp only [Rule.plain, Bool.and_eq_true] at hr
      rw [clean_append] at hclean
      rw [Rule.strict, ih₁ hr.1 hclean.1, Option.bind_some, ih₂ hr.2 hclean.2]
  | expect hk => rw [Rule.strict, if_pos hk]
  -- A repair is not clean.
  | dropped | supplied => simp [clean_cons] at hclean
  | take => rfl
  | yes hp _ ih =>
      simp only [Rule.plain, Bool.and_eq_true] at hr
      rw [Rule.strict, if_pos hp, ih hr.1 hclean]
  | no hp _ ih =>
      simp only [Rule.plain, Bool.and_eq_true] at hr
      rw [Rule.strict, if_neg (by simp [hp]), ih hr.2 hclean]
  | _ => simp [Rule.plain] at hr

/-! ### The parts of a type -/

/-- What is wanted behind a type: an opening bracket or a closing parenthesis. No type goes on with
either of them. -/
def endsType : TokenKind → Bool
  | .leftBracket | .rightParen => true
  | _ => false

/-- A type ends in front of an opening bracket or of a closing parenthesis, and nothing else. -/
theorem endsType_iff {k : TokenKind} :
    endsType k = true ↔ k = .leftBracket ∨ k = .rightParen := by
  cases k <;> simp [endsType]

/-- No part of a type begins with what ends it. -/
theorem not_of_endsType {test : TokenKind → Bool} (hbracket : test .leftBracket = false)
    (hparen : test .rightParen = false) : ∀ k : TokenKind, endsType k = true → test k = false := by
  intro k hk
  rcases endsType_iff.1 hk with rfl | rfl
  · exact hbracket
  · exact hparen

/-- Nor does a test for one kind accept another one. -/
theorem not_of_isA {kind : TokenKind} {test : TokenKind → Bool} (hkind : kind.hasValue = false)
    (htest : test kind = false) : ∀ k : TokenKind, isA kind k = true → test k = false := by
  intro k hk
  rw [(isA_iff hkind).1 hk, htest]

variable {n : Nat}

/-- A character set or none, in front of what ends a type. -/
theorem mends_charset : Mends n charset (Behind endsType) (Behind endsType) :=
  mends_optional (mends_seq mends_take (mends_seq mends_expect mends_name))
    (not_of_endsType rfl rfl) rfl

/-- A length or none, read alike in front of whatever ends a type. -/
theorem mends_length : Mends n Grammar.length (Behind endsType) (Behind endsType) :=
  mends_optional (mends_seq mends_take (mends_seq mends_expect mends_expect))
    (not_of_endsType rfl rfl) rfl

/-- `, number`, in front of a closing parenthesis. -/
theorem mends_commaNumber :
    Mends n (optional (isA .comma) (.seq .take (.expect number))) (Behind (isA .rightParen))
      (Behind (isA .rightParen)) :=
  mends_optional (mends_seq mends_take mends_expect) (not_of_isA rfl rfl) rfl

/-- A precision and a scale, or none, read alike in front of whatever ends a type. -/
theorem mends_precision : Mends n precision (Behind endsType) (Behind endsType) := by
  have hscale : Mends n (.seq (optional (isA .comma) (.seq .take (.expect number)))
      (.expect .rightParen)) (Behind endsType) (Behind (isA .rightParen)) :=
    mends_seq mends_commaNumber (mends_wanted rfl rfl)
  exact mends_optional (mends_seq mends_take (mends_seq mends_expect hscale))
    (not_of_endsType rfl rfl) rfl

/-- `(n[, t])`, where a repair may concern the second number or the closing parenthesis. -/
theorem mends_blobBounds {back : View} :
    Mends n (inOrder [.take, optional (isA number) .take,
      optional (isA .comma) (.seq .take (.expect number)), .expect .rightParen]) back Started := by
  have hnumber : Mends n (optional (isA number) .take) (Behind (isA .rightParen))
      (Behind (isA .rightParen)) := mends_optional mends_take (not_of_isA rfl rfl) rfl
  exact mends_seq mends_take
    (mends_seq hnumber (mends_seq mends_commaNumber (mends_wanted rfl rfl)))

/-- BLOB with its bounds or without. What it begins with is the same token in both. -/
theorem mends_blobType : Mends n blobType (Behind endsType) Started := by
  have hname : Mends n (.branch [isA number] .take name) (Behind endsType) Started :=
    mends_choice mends_take mends_name
  have hsubType : Mends n
      (optional (isWord .subType) (.seq .take (.branch [isA number] .take name)))
      (Behind endsType) (Behind endsType) :=
    mends_optional (mends_seq mends_take hname) (not_of_endsType rfl rfl) rfl
  have hsegment : Mends n (optional (isWord .segment) (inOrder [.take, word .size, .expect number]))
      (Behind endsType) (Behind endsType) :=
    mends_optional (mends_seq mends_take (mends_seq mends_expect mends_expect))
      (not_of_endsType rfl rfl) rfl
  exact mends_seq mends_take (mends_either mends_blobBounds
    (mends_seq hsubType (mends_seq hsegment mends_charset)) (not_of_endsType rfl rfl) rfl)

/-- A type without array bounds, whether a character set may follow or not. -/
theorem mends_scalarType (withCharset : Bool) :
    Mends n (scalarType withCharset) (Behind endsType) Started := by
  have hcharset : Mends n (if withCharset then charset else .empty) (Behind endsType)
      (Behind endsType) := by
    cases withCharset
    · exact mends_empty
    · exact mends_charset
  have htext := mends_seq (@mends_take n _) (mends_seq mends_length hcharset)
  have hdecimal := mends_seq (@mends_take n _) mends_precision
  have hdouble : Mends n (.seq .take (word .precision)) (Behind endsType) Started :=
    mends_seq mends_take mends_expect
  exact mends_choice htext (mends_choice hdecimal (mends_choice mends_take
    (mends_choice hdouble (mends_choice mends_blobType mends_fail))))

/-- One range of an array, in front of a closing bracket. It begins with a number in the repaired
statement. -/
theorem mends_range :
    Mends n range (Behind (isA .rightBracket)) (Headed number) := by
  have hupper : Mends n (.branch [isA .colon] (.seq .take (.expect number))
      (optional isColonBound .take)) (Behind (isA .rightBracket)) (Behind (isA .rightBracket)) :=
    mends_either (mends_seq mends_take mends_expect)
      (mends_optional mends_take (not_of_isA rfl rfl) rfl) (not_of_isA rfl rfl) rfl
  exact mends_seq mends_expect hupper

/-- The ranges of an array in their brackets. They end with a token of their own, so it does not
matter what stands behind. -/
theorem mends_ranges {back : View} : Mends n ranges back (Headed .leftBracket) :=
  mends_seq mends_expect (mends_seq (mends_separated mends_range rfl) (mends_wanted rfl rfl))

/-! ### The attempt -/

/-- The bounds of an array type, which begin with their bracket in the repaired statement as well.
-/
theorem mends_bounds :
    Mends n (.seq ranges charset) (Behind endsType) (Headed .leftBracket) :=
  mends_seq mends_ranges mends_charset

/-- Without a character set behind it a type with and one without are read alike. -/
theorem strict_scalarType {ts rest : List Token} (h : (scalarType false).strict ts = some rest)
    (hrest : State.passes [isWord .character] rest = false) :
    (scalarType true).strict ts = some rest := by
  simp only [scalarType, Rule.strict] at h ⊢
  split at h
  · next hp =>
    rw [if_pos hp]
    simp only [inOrder, Rule.strict, Option.bind_some, if_true] at h ⊢
    cases hlength : Grammar.length.strict ts.tail with
    | none => simp [hlength] at h
    | some mid =>
        have hmid : mid = rest := by simpa [hlength, Rule.strict] using h
        -- No character set follows, so the one that may be there is empty.
        rw [Option.bind_some, hmid, charset, Rule.optional, Rule.strict, if_neg (by simp [hrest])]
        rfl
  · next hp =>
    rw [if_neg hp]
    exact h

/-- An attempt that fails on the statement fails on the repaired statement. Otherwise the two would
be read by different rules. -/
theorem not_foreseen {ts rest : List Token} {ms : List Move} {ks : List Note}
    (h : Reads n (scalarType true) ts ms ks rest) (hclean : Clean ms)
    (hrest : Headed .rightParen [] rest rest) :
    (Rule.strict (.seq (scalarType false) (.expect .leftBracket)) ts).isSome = false := by
  rw [← Bool.not_eq_true, Option.isSome_iff_exists]
  rintro ⟨rest', hstrict⟩
  obtain ⟨mid, hscalar, hbracket⟩ := Option.bind_eq_some_iff.1 hstrict
  cases mid with
  | nil => cases hbracket
  | cons t us =>
      rw [Rule.strict] at hbracket
      split at hbracket
      · next ht =>
        have ht : t.kind = .leftBracket := (TokenKind.sameClass_iff rfl).1 ht
        have hnone : State.passes [isWord .character] (t :: us) = false := by
          rw [State.passes_one_cons, ht]
          rfl
        -- Both types end where the bracket is, but there the parenthesis should be.
        have htrue := strict_scalarType hscalar hnone
        rw [h.strict_of_clean rfl hclean] at htrue
        obtain ⟨u, vs, hu, huk⟩ := hrest
        have htu : t = u := (List.cons.inj ((Option.some.inj htrue).symm.trans hu)).1
        rw [← htu, ht] at huk
        cases huk
      · cases hbracket

/-- Where an array type is read in the statement the attempt succeeds on the repaired one. No repair
is made in the attempt, so this has to be shown apart from the reading. -/
theorem mends_arrayType {before ts rest rest' : List Token} {ms : List Move} {ks : List Note}
    (h : Reads n (inOrder [scalarType false, ranges, charset]) ts ms ks rest)
    (hrest : Behind endsType before rest rest') :
    Reads n (inOrder [scalarType false, ranges, charset]) (kept ms ++ rest') (mended ms)
        (ks.map Note.mended) rest' ∧
      (Rule.strict (.seq (scalarType false) (.expect .leftBracket)) (kept ms ++ rest')).isSome
        = true := by
  cases h with
  | @seq _ _ _ _ mid _ ms₁ ms₂ ks₁ ks₂ hscalar hbounds =>
      have hend : Behind endsType (before ++ consumed ms₂) rest rest' := hrest
      obtain ⟨hmended₂, hhead⟩ := mends_bounds hbounds hend
      -- The bracket is wanted, so it is there behind the type of the repaired statement.
      have hmid : Behind endsType (before ++ consumed ms₁) mid (kept ms₂ ++ rest') :=
        hhead.behind rfl rfl
      obtain ⟨hmended₁, -⟩ := mends_scalarType false hscalar hmid
      rw [kept_append, mended_append, List.map_append, List.append_assoc]
      refine ⟨.seq hmended₁ hmended₂, ?_⟩
      obtain ⟨t, us, heq, ht⟩ := hhead
      rw [Rule.strict, hmended₁.strict_of_clean rfl (clean_map_pass _), Option.bind_some, heq,
        Rule.strict, if_pos ht]
      rfl

/-- A data type in front of a closing parenthesis. Nothing is claimed of its first token, since CAST
does not test it. -/
theorem mends_dataType : Mends n dataType (Headed .rightParen) (fun _ _ _ => True) := by
  intro before ts rest rest' ms ks hread hrest
  have hbehind : Behind endsType (before ++ consumed ms) rest rest' := hrest.behind rfl rfl
  cases hread with
  | foreseen _ hread =>
      obtain ⟨hmended, hagain⟩ := mends_arrayType hread hbehind
      exact ⟨.foreseen hagain hmended, trivial⟩
  | unforeseen _ hread =>
      obtain ⟨hmended, -⟩ := mends_scalarType true hread hbehind
      obtain ⟨t, us, rfl, ht⟩ := hrest
      have hagain := not_foreseen hmended (clean_map_pass _) ⟨t, us, rfl, ht⟩
      exact ⟨.unforeseen hagain hmended, trivial⟩

end GeneratedKeys
