import GeneratedKeys.Proofs.Statement.Alignment

/-!
# `GeneratedKeys.Proofs.Statement.Splitting`: values by counting

The values of an insertion are read by the grammar of values, with its calls, subscripts, data
types and operators. A reader that knows nothing of all this finds the same values: it looks for
the first VALUES, goes on to the closing parenthesis that matches the opening one behind it by
counting parentheses, and splits what stands between at the commas outside of parentheses and
brackets.

* `valueSegments?`: that reader.
* `parse_split`: the values of an insertion without problems are what it finds.
* `Listed.splitCommas_eq`: a list of balanced items is split into them.
* `Balanced.insideParens_eq`: balanced tokens do not end the search for the closing parenthesis.
-/

set_option autoImplicit false

namespace GeneratedKeys

open Rule Grammar

/-! ### A reader that counts -/

/-- The tokens in front of the closing parenthesis that matches one in front of the tokens, when
`opened` others are open. There are none if nothing matches. -/
def insideParens (opened : Nat) : List Token → Option (List Token)
  | [] => none
  | t :: ts =>
    if t.kind = .leftParen then (insideParens (opened + 1) ts).map (t :: ·)
    else if t.kind = .rightParen then
      if opened = 0 then some [] else (insideParens (opened - 1) ts).map (t :: ·)
    else (insideParens opened ts).map (t :: ·)

/-- The tokens between the commas outside of parentheses and brackets, of which `depth` are open.
There is always a first item, which may be empty. -/
def splitCommas (depth : Nat) : List Token → List (List Token)
  | [] => [[]]
  | t :: ts =>
    if depth = 0 ∧ t.kind = .comma then [] :: splitCommas 0 ts
    else extend t (splitCommas (t.kind.nesting depth) ts)

/-- The segments of the list behind the first VALUES of a statement. There are none without a
VALUES, an opening parenthesis behind it and one that matches. -/
def valueSegments? (ts : List Token) : Option (List (List Token)) :=
  match ts.dropWhile fun t => t.kind ≠ .keyword .values with
  | _ :: opening :: us =>
    if opening.kind = .leftParen then (insideParens 0 us).map (splitCommas 0) else none
  | _ => none

/-! ### The matching parenthesis -/

/-- A token that is no parenthesis belongs to what is inside, however many parentheses are open. -/
theorem insideParens_plain {t : Token} (hl : t.kind ≠ .leftParen) (hr : t.kind ≠ .rightParen)
    (opened : Nat) (ts : List Token) :
    insideParens opened (t :: ts) = (insideParens opened ts).map (t :: ·) := by
  rw [insideParens, if_neg hl, if_neg hr]

/-- A parenthesis that closes one of the others belongs to what is inside. -/
theorem insideParens_closes {t : Token} (ht : t.kind = .rightParen) (opened : Nat)
    (ts : List Token) :
    insideParens (opened + 1) (t :: ts) = (insideParens opened ts).map (t :: ·) := by
  rw [insideParens, ht, if_neg TokenKind.noConfusion, if_pos rfl, if_neg (Nat.succ_ne_zero _),
    Nat.add_sub_cancel]

/-- Balanced tokens stand in front of the matching parenthesis, however many are open around them.
-/
theorem Balanced.insideParens_eq {commas : Bool} {ts rest : List Token}
    (h : Balanced commas ts rest) :
    ∃ w, ts = w ++ rest ∧ ∀ opened : Nat,
      insideParens opened ts = (insideParens opened rest).map (w ++ ·) := by
  have hfold : ∀ (w : List Token) (found : Option (List Token)),
      w.foldr (fun t => Option.map (t :: ·)) found = found.map (w ++ ·) := by
    intro w found
    induction w with
    | nil => exact Option.map_id'.symm
    | cons t w ih => rw [List.foldr_cons, ih, Option.map_map]; rfl
  suffices habsorbed : ∃ w, ts = w ++ rest ∧ ∀ (opened : Nat) (us : List Token),
      (commas = true → True) → insideParens opened (w ++ us)
        = w.foldr (fun t => Option.map (t :: ·)) (insideParens opened us) by
    obtain ⟨w, rfl, hw⟩ := habsorbed
    exact ⟨w, rfl, fun opened => by rw [hw opened rest fun _ => trivial, hfold]⟩
  -- Parentheses are counted, brackets are passed over.
  refine h.foldr_eq (fun l opened => if l.kind = .leftParen then opened + 1 else opened)
    (fun _ => True) ?plain ?opening ?closing
  case plain =>
    intro commas t opened us ht _
    refine insideParens_plain ?_ ?_ opened us <;> (intro hkind; rw [hkind] at ht; cases ht)
  case opening =>
    intro l opened us hl
    refine ⟨trivial, ?_⟩
    by_cases hparen : l.kind = .leftParen
    · rw [insideParens, if_pos hparen, if_pos hparen]
    · rw [if_neg hparen]
      refine insideParens_plain hparen ?_ opened us
      intro hkind
      rw [hkind] at hl
      cases hl
  case closing =>
    intro l r opened us hends
    rcases TokenKind.closedBy_iff.1 hends with ⟨hl, hr⟩ | ⟨hl, hr⟩
    · rw [if_pos hl]
      exact insideParens_closes hr opened us
    · rw [if_neg (by rw [hl]; exact TokenKind.noConfusion)]
      refine insideParens_plain ?_ ?_ opened us <;> (rw [hr]; exact TokenKind.noConfusion)

/-! ### The commas outside -/

/-- Any token but a comma outside of all parentheses and brackets belongs to the segment at hand. -/
theorem splitCommas_of_ne {t : Token} {depth : Nat} (ht : ¬ (depth = 0 ∧ t.kind = .comma))
    (ts : List Token) :
    splitCommas depth (t :: ts) = extend t (splitCommas (t.kind.nesting depth) ts) := by
  rw [splitCommas, if_neg ht]

/-- Balanced tokens belong to one segment. If they have commas outside, this holds only inside of
further parentheses. -/
theorem Balanced.splitCommas_eq {commas : Bool} {ts rest : List Token}
    (h : Balanced commas ts rest) :
    ∃ w, ts = w ++ rest ∧ ∀ (depth : Nat) (us : List Token), (commas = true → 0 < depth) →
      splitCommas depth (w ++ us) = w.foldr extend (splitCommas depth us) := by
  refine h.foldr_eq (fun _ depth => depth + 1) (fun depth => 0 < depth) ?plain ?opening ?closing
  -- A comma splits only where nothing is open, and there are no commas there.
  case plain =>
    intro commas t depth us ht hdepth
    obtain ⟨hopens, hcloses, hcomma⟩ := TokenKind.isPlain_iff.1 ht
    rw [splitCommas_of_ne, TokenKind.nesting, if_neg (by simp [hopens]), if_neg (by simp [hcloses])]
    rintro ⟨hzero, hkind⟩
    have hpos := hdepth (hcomma hkind)
    omega
  -- Inside of what is opened something is open, so commas do not split.
  case opening =>
    intro l depth us hl
    refine ⟨Nat.succ_pos depth, ?_⟩
    rw [splitCommas_of_ne fun h => TokenKind.ne_comma_of_opens hl h.2, TokenKind.nesting, if_pos hl]
  -- Behind the closing token as many are open as in front of the opening one.
  case closing =>
    intro l r depth us hends
    have hr := TokenKind.closes_of_closedBy hends
    rw [splitCommas_of_ne (by omega), TokenKind.nesting,
      if_neg (by simp [TokenKind.opens_of_closes hr]), if_pos hr, Nat.add_sub_cancel]

section

variable {item : List Token → List Token → List Token → Prop} {ts rest : List Token}
  {ws : List (List Token)}

/-- A list of balanced items is balanced, with commas outside, which are those between its items. -/
theorem Listed.balanced
    (hitem : ∀ {ts w rest : List Token}, item ts w rest → ts = w ++ rest ∧ Balanced false ts rest)
    (h : Listed item ts ws rest) : Balanced true ts rest := by
  induction h with
  | last hw => exact (hitem hw).2.loosen
  | more hw hcomma _ ih =>
      refine (hitem hw).2.loosen.trans (.token ?_ ih)
      rw [hcomma]
      rfl

/-- A list of balanced items is split into them, and into nothing else. -/
theorem Listed.splitCommas_eq
    (hitem : ∀ {ts w rest : List Token}, item ts w rest → ts = w ++ rest ∧ Balanced false ts rest)
    (h : Listed item ts ws rest) : ∃ body, ts = body ++ rest ∧ splitCommas 0 body = ws := by
  -- An item belongs to one segment.
  have hfirst : ∀ {ts w rest : List Token}, item ts w rest → ∀ us : List Token,
      splitCommas 0 (w ++ us) = w.foldr extend (splitCommas 0 us) := by
    intro ts w rest hw us
    obtain ⟨happend, hbalanced⟩ := hitem hw
    obtain ⟨v, hv, hsplit⟩ := hbalanced.splitCommas_eq
    obtain rfl : v = w := List.append_cancel_right (hv.symm.trans happend)
    exact hsplit 0 us Bool.noConfusion
  induction h with
  | @last ts w rest hw =>
      refine ⟨w, (hitem hw).1, ?_⟩
      have hsplit := hfirst hw []
      rw [List.append_nil] at hsplit
      rw [hsplit, splitCommas, foldr_extend, List.append_nil]
  | @more ts w mid rest ws comma hw hcomma _ ih =>
      obtain ⟨body, rfl, hbody⟩ := ih
      refine ⟨w ++ comma :: body, ?_, ?_⟩
      · rw [(hitem hw).1, List.append_assoc]
        rfl
      · rw [hfirst hw, splitCommas, if_pos ⟨rfl, hcomma⟩, hbody, foldr_extend, List.append_nil]

end

/-! ### The first VALUES -/

variable {n : Nat} {ts rest : List Token}

/-- There is no VALUES among the tokens of `ts` in front of `rest`, so the first one behind is that
of the clause. -/
def Valueless (ts rest : List Token) : Prop :=
  ∃ w, ts = w ++ rest ∧ ∀ t ∈ w, t.kind ≠ .keyword .values

/-- There is no token, so there is no VALUES. -/
theorem Valueless.nil : Valueless ts ts :=
  ⟨[], rfl, fun _ h => nomatch h⟩

/-- A token that is not VALUES, in front of others without it, makes a longer stretch without it. -/
theorem Valueless.token {t : Token} (ht : t.kind ≠ .keyword .values) (h : Valueless ts rest) :
    Valueless (t :: ts) rest := by
  obtain ⟨w, rfl, hw⟩ := h
  exact ⟨t :: w, rfl, List.forall_mem_cons.2 ⟨ht, hw⟩⟩

/-- Stretches without VALUES one behind the other are one such stretch. -/
theorem Valueless.trans {mid : List Token} (h : Valueless ts mid) (h' : Valueless mid rest) :
    Valueless ts rest := by
  obtain ⟨w, rfl, hw⟩ := h
  obtain ⟨w', rfl, hw'⟩ := h'
  exact ⟨w ++ w', (List.append_assoc ..).symm, List.forall_mem_append.2 ⟨hw, hw'⟩⟩

/-- A VALUES behind such tokens is the first one, so dropping tokens up to it comes to this place.
-/
theorem Valueless.dropWhile_eq {t : Token} (h : Valueless ts (t :: rest))
    (ht : t.kind = .keyword .values) :
    ts.dropWhile (fun t => t.kind ≠ .keyword .values) = t :: rest := by
  obtain ⟨w, rfl, hw⟩ := h
  rw [List.dropWhile_append_of_pos (fun x hx => decide_eq_true (hw x hx)),
    List.dropWhile_cons_of_neg (by simp [ht])]

/-- A column has no VALUES in it, as it consists of names and a point. -/
theorem Column.valueless {w : List Token} (h : Column ts w rest) : Valueless ts rest := by
  cases h with
  | plain ht => exact .token (ht.ne rfl) .nil
  | qualified ht hdot hu =>
      exact .token (ht.ne rfl) (.token (by rw [hdot]; exact TokenKind.noConfusion)
        (.token (hu.ne rfl) .nil))

/-- Neither have the target columns, with their parentheses and commas. -/
theorem Target.valueless {columns : List (List Token)} (h : Target ts columns rest) :
    Valueless ts rest := by
  have hlist : ∀ {ts rest : List Token} {ws : List (List Token)}, Listed Column ts ws rest →
      Valueless ts rest := by
    intro ts rest ws hlisted
    induction hlisted with
    | last hw => exact hw.valueless
    | more hw hcomma _ ih =>
        exact hw.valueless.trans (.token (by rw [hcomma]; exact TokenKind.noConfusion) ih)
  cases h with
  | none => exact .nil
  | columns hopening hcolumns hclosing =>
      exact .token (by rw [hopening]; exact TokenKind.noConfusion)
        ((hlist hcolumns).trans (.token (by rw [hclosing]; exact TokenKind.noConfusion) .nil))

/-- The values of a VALUES clause are the segments of its list, and each has a token. -/
theorem ValueList.valueSegments_eq {body : List Token} {values : List (List Token)}
    (hfront : Valueless ts body) (h : ValueList (ValueRange n) body values rest) :
    valueSegments? ts = some values := by
  have hitem : ∀ {ts w rest : List Token}, ValueRange n ts w rest →
      ts = w ++ rest ∧ Balanced false ts rest := fun hw => ⟨hw.1, hw.balanced⟩
  cases h with
  | @values word opening closing us _ _ hword hopening hlist hclosing =>
      obtain ⟨inner, rfl, hsplit⟩ := hlist.splitCommas_eq hitem
      -- What stands between the parentheses is the list, and splitting it gives its items.
      obtain ⟨w, hw, hinside⟩ := (hlist.balanced hitem).insideParens_eq
      obtain rfl : inner = w := List.append_cancel_right hw
      have hend : insideParens 0 (closing :: rest) = some [] := by
        rw [insideParens, hclosing, if_neg TokenKind.noConfusion, if_pos rfl, if_pos rfl]
      rw [valueSegments?, hfront.dropWhile_eq hword]
      show (if opening.kind = .leftParen then _ else none) = _
      rw [if_pos hopening, hinside 0, hend, Option.map_some, List.append_nil, Option.map_some,
        hsplit]

/-- A value has a token, so no segment of a list of values is empty. -/
theorem ValueRange.ne_nil {w : List Token} (h : ValueRange n ts w rest) : w ≠ [] := by
  obtain ⟨hts, ms, ks, hread, -⟩ := valueRange_iff.1 h
  obtain rfl : Move.consumed ms = w :=
    List.append_cancel_right (hread.consumed_append.trans hts)
  exact hread.consumed_ne_nil rfl

/-- Every value of a list has a token, by induction over the list. -/
theorem Listed.forall_ne_nil {ws : List (List Token)} (h : Listed (ValueRange n) ts ws rest) :
    ∀ w ∈ ws, w ≠ [] := by
  induction h with
  | last hw => exact List.forall_mem_singleton.2 hw.ne_nil
  | more hw _ _ ih => exact List.forall_mem_cons.2 ⟨hw.ne_nil, ih⟩

/-- The values of a word of the grammar are the segments behind its first VALUES. -/
theorem InsertionWord.valueSegments_eq {i : Insertion} (h : InsertionWord (ValueRange n) ts i)
    (hvalues : i.type = .updateOrInsert ∨ i.values ≠ []) :
    valueSegments? ts = some i.values ∧ ∀ w ∈ i.values, w ≠ [] := by
  -- The words in front of the values are others than VALUES.
  have hword : ∀ {t : Token} {k : Keyword}, t.kind = .keyword k → k ≠ .values →
      t.kind ≠ .keyword .values := by
    intro t k ht hk
    rw [ht]
    exact fun h => hk (TokenKind.keyword.inj h)
  have hlisted : ∀ {body clause : List Token} {vs : List (List Token)},
      ValueList (ValueRange n) body vs clause → ∀ w ∈ vs, w ≠ [] := by
    intro body clause vs hlist
    cases hlist with
    | values _ _ hlist _ => exact hlist.forall_ne_nil
  cases h with
  | insert hinsert hinto htable hcolumns hlist _ _ =>
      refine ⟨hlist.valueSegments_eq ?_, hlisted hlist⟩
      exact .token (hword hinsert (by decide)) (.token (hword hinto (by decide))
        (.token (htable.ne rfl) hcolumns.valueless))
  -- DEFAULT VALUES has no values, and an INSERT is required to have some.
  | defaults => exact absurd rfl (hvalues.resolve_left StatementType.noConfusion)
  | updateOrInsert hupdate hor hinsert hinto htable hcolumns hlist _ _ _ =>
      refine ⟨hlist.valueSegments_eq ?_, hlisted hlist⟩
      exact .token (hword hupdate (by decide)) (.token (hword hor (by decide))
        (.token (hword hinsert (by decide)) (.token (hword hinto (by decide))
          (.token (htable.ne rfl) hcolumns.valueless))))

/-! ### Parsing -/

/-- The values of an INSERT that has a list of them, or of an UPDATE OR INSERT, which are read by
the grammar of values, are what counting finds: the texts of the segments between the parenthesis
behind the first VALUES and the one that matches it, split at the commas outside of parentheses
and brackets. Every segment has a first and a last token. -/
theorem parse_split {t : Text} {p : ParsedStatement} (h : parse t = .ok p)
    (hclean : p.isClean = true)
    (hinsertion : p.statement.type? = some .updateOrInsert ∨
      p.statement.type? = some .insert ∧ p.statement.values ≠ []) :
    ∃ segments, valueSegments? (visibleTokens t) = some segments ∧ (∀ w ∈ segments, w ≠ []) ∧
      p.statement.values = segments.map (covered t) := by
  obtain ⟨type, htype, hkind⟩ : ∃ type, p.statement.type? = some type ∧
      (type = .insert ∨ type = .updateOrInsert) := by
    rcases hinsertion with htype | ⟨htype, -⟩
    · exact ⟨_, htype, .inr rfl⟩
    · exact ⟨_, htype, .inl rfl⟩
  obtain ⟨i, hparts, rfl, hi⟩ := insertion_of_clean h hclean htype hkind
  rw [hparts] at hinsertion ⊢
  have hvalues : i.type = .updateOrInsert ∨ i.values ≠ [] := by
    rcases hinsertion with hupdate | ⟨-, hne⟩
    · exact .inl (Option.some.inj hupdate)
    · exact .inr fun hnil => hne (List.map_eq_nil_iff.2 hnil)
  rcases hi with hi | ⟨hinsert, hnil, -⟩
  · obtain ⟨hsegments, hne⟩ := hi.valueSegments_eq hvalues
    exact ⟨i.values, hsegments, hne, rfl⟩
  · -- Of selected rows there are no values.
    rcases hvalues with hupdate | hne
    · cases hinsert.symm.trans hupdate
    · exact absurd hnil hne

/-- Commas in a call, in a subscript, in a data type and in a string. -/
theorem parse_split_nested :
    ∃ p segments,
      parse "UPDATE OR INSERT INTO T (A) VALUES (F(1, X[2, 3]), CAST(? AS NUMERIC(9, 2)), ',')".toList
        = .ok p ∧ p.isClean = true ∧ segments.length = 3 ∧
      valueSegments? (visibleTokens
        "UPDATE OR INSERT INTO T (A) VALUES (F(1, X[2, 3]), CAST(? AS NUMERIC(9, 2)), ',')".toList)
          = some segments ∧
      p.statement.values = segments.map (covered
        "UPDATE OR INSERT INTO T (A) VALUES (F(1, X[2, 3]), CAST(? AS NUMERIC(9, 2)), ',')".toList) := by
  have hparse : parse
      "UPDATE OR INSERT INTO T (A) VALUES (F(1, X[2, 3]), CAST(? AS NUMERIC(9, 2)), ',')".toList
      = .ok ⟨⟨some .updateOrInsert, some ['T'], [['A']],
          ["F(1, X[2, 3])".toList, "CAST(? AS NUMERIC(9, 2))".toList, "','".toList], [], false⟩,
          .none⟩ := by rfl
  -- Of the five commas two stand outside of what is open. The one in the string is no token.
  obtain ⟨segments, hsegments, -, hvalues⟩ := parse_split hparse rfl (.inl rfl)
  refine ⟨_, segments, hparse, rfl, ?_, hsegments, hvalues⟩
  have hlength := congrArg List.length hvalues
  rwa [List.length_map, eq_comm] at hlength

end GeneratedKeys
