import GeneratedKeys.Proofs.Reading.Front
import GeneratedKeys.Proofs.Reading.Yields
import GeneratedKeys.Proofs.Value.Sound

/-!
# `GeneratedKeys.Proofs.Statement.Clauses`: the grammar of clauses

The clauses of a statement as a grammar, with what is kept of each:

    column    := name | name '.' name
    target    := ['(' column (',' column)* ')']
    values    := VALUES '(' value (',' value)* ')'
    matching  := [MATCHING ('(' column (',' column)* ')' | column (',' column)*)]
    returning := [RETURNING item (',' item)*]
    item      := '*' | column [[AS] name]

A nonterminal relates the tokens `ts` to the `rest` behind it, and to the tokens that are kept.
A clause that is read without repairs is derived, and the notes that are kept are those of the
grammar. For the converse nothing behind a clause may go on with it, which is asked of the
tokens behind it.

* `listed_of_yields`, `yields_of_listed`: items with commas between.
* `returning_of_yields`, `yields_of_returning`: the RETURNING clause.
-/

set_option autoImplicit false

namespace GeneratedKeys

open Rule Grammar

/-! ### The grammar -/

/-- Items with commas between, and what is kept of each. There is one item at least, and none behind
the last one. -/
inductive Listed (item : List Token → List Token → List Token → Prop) :
    List Token → List (List Token) → List Token → Prop where
  | last {ts w rest : List Token} : item ts w rest → Listed item ts [w] rest
  | more {ts w mid rest : List Token} {ws : List (List Token)} {comma : Token} :
      item ts w (comma :: mid) → comma.kind = .comma → Listed item mid ws rest →
        Listed item ts (w :: ws) rest

/-- `name` or `name.name`. All tokens of it are kept. -/
inductive Column : List Token → List Token → List Token → Prop where
  | plain {t : Token} {rest : List Token} : Name t.kind → Column (t :: rest) [t] rest
  | qualified {t dot u : Token} {rest : List Token} :
      Name t.kind → dot.kind = .dot → Name u.kind → Column (t :: dot :: u :: rest) [t, dot, u] rest

/-- The target columns in parentheses, or none. Empty parentheses are not a list of columns. -/
inductive Target : List Token → List (List Token) → List Token → Prop where
  | none {ts : List Token} : Target ts [] ts
  | columns {opening closing : Token} {ts rest : List Token} {columns : List (List Token)} :
      opening.kind = .leftParen → Listed Column ts columns (closing :: rest) →
        closing.kind = .rightParen → Target (opening :: ts) columns rest

/-- The tokens of `ts` in front of `rest` are what reading a value consumes, without a repair
and with so many levels of nesting left. -/
def ValueRange (levels : Nat) (ts w rest : List Token) : Prop :=
  ts = w ++ rest ∧
    ∃ s, readValue levels 0 (.initial ts 0) = .ok s ∧ s.after = rest ∧ s.repairs = []

/-- `VALUES (value, ...)`, with one value at least. What a value is stays open here. -/
inductive ValueList (value : List Token → List Token → List Token → Prop) :
    List Token → List (List Token) → List Token → Prop where
  | values {values opening closing : Token} {ts rest : List Token} {vs : List (List Token)} :
      values.kind = .keyword .values → opening.kind = .leftParen →
        Listed value ts vs (closing :: rest) → closing.kind = .rightParen →
          ValueList value (values :: opening :: ts) vs rest

/-- A MATCHING clause, with parentheses or without, or none. Nothing is kept of it, so only what is
left behind it is said. -/
inductive Matching : List Token → List Token → Prop where
  | none {ts : List Token} : Matching ts ts
  | enclosed {matching opening closing : Token} {ts rest : List Token}
      {columns : List (List Token)} :
      matching.kind = .keyword .matching → opening.kind = .leftParen →
        Listed Column ts columns (closing :: rest) → closing.kind = .rightParen →
          Matching (matching :: opening :: ts) rest
  | bare {matching : Token} {ts rest : List Token} {columns : List (List Token)} :
      matching.kind = .keyword .matching → Listed Column ts columns rest →
        Matching (matching :: ts) rest

/-- What is returned: everything, or a column. Its alias is not kept, with AS in front of it or
without. -/
inductive ReturningItem : List Token → List Token → List Token → Prop where
  | all {t : Token} {rest : List Token} : t.kind = .star → ReturningItem (t :: rest) [t] rest
  | column {ts w rest : List Token} : Column ts w rest → ReturningItem ts w rest
  | renamed {ts w rest : List Token} {label : Token} :
      Column ts w (label :: rest) → Name label.kind → ReturningItem ts w rest
  | renamedAs {ts w rest : List Token} {word label : Token} :
      Column ts w (word :: label :: rest) → word.kind = .keyword .as → Name label.kind →
        ReturningItem ts w rest

/-- A RETURNING clause or none. The items are kept in their order. -/
inductive Returning : List Token → List (List Token) → List Token → Prop where
  | none {ts : List Token} : Returning ts [] ts
  | clause {returning : Token} {ts rest : List Token} {items : List (List Token)} :
      returning.kind = .keyword .returning → Listed ReturningItem ts items rest →
        Returning (returning :: ts) items rest

/-- The tokens of a column are those in front of the rest. -/
theorem Column.append_eq {ts w rest : List Token} (h : Column ts w rest) : w ++ rest = ts := by
  cases h <;> rfl

/-- A column begins with a name, which tells it from a star. -/
theorem Column.exists_name {ts w rest : List Token} (h : Column ts w rest) :
    ∃ t us, ts = t :: us ∧ Name t.kind := by
  cases h with
  | plain ht => exact ⟨_, _, rfl, ht⟩
  | qualified ht _ _ => exact ⟨_, _, rfl, ht⟩

/-- A list has a first item. The induction is over the items, and the first one is the same in all
of it. -/
theorem Listed.exists_first {item : List Token → List Token → List Token → Prop}
    {ts rest : List Token} {ws : List (List Token)} (h : Listed item ts ws rest) :
    ∃ w mid, item ts w mid := by
  cases h with
  | last hw => exact ⟨_, _, hw⟩
  | more hw _ _ => exact ⟨_, _, hw⟩

/-- A name is spelled, so it is none of the kinds that are always written alike. -/
theorem Name.ne {kind found : TokenKind} (h : Name found) (hkind : kind.hasValue = false) :
    found ≠ kind := by
  rintro rfl
  cases h <;> cases hkind

variable {n : Nat} {ts w rest : List Token} {ks : List Note}

/-! ### Lists -/

section

variable {r : Rule} {item : List Token → List Token → List Token → Prop}
  (notes : List Token → List Note)

/-- What is read as a list is a list, if what is read as an item is one. The notes of the items
follow each other. -/
theorem listed_of_yields
    (hitem : ∀ {ts rest : List Token} {ks : List Note}, Yields n r ts ks rest →
      ∃ w, item ts w rest ∧ ks = notes w)
    (h : Yields n (separated r) ts ks rest) :
    ∃ ws, Listed item ts ws rest ∧ ks = ws.flatMap notes := by
  obtain ⟨mid, ks₁, ks₂, hfirst, hothers, rfl⟩ := yields_seq_iff.1 h
  obtain ⟨w, hw, rfl⟩ := hitem hfirst
  -- The first item is carried along, since a list is not known to end before the comma behind an
  -- item fails.
  suffices hlist : ∀ {front w : List Token}, item front w mid →
      ∃ ws, Listed item front (w :: ws) rest ∧ ks₂ = ws.flatMap notes by
    obtain ⟨ws, hws, rfl⟩ := hlist hw
    exact ⟨w :: ws, hws, rfl⟩
  refine Yields.repeatWhile_induction (motive := fun mid ks rest => ∀ {front w : List Token},
    item front w mid → ∃ ws, Listed item front (w :: ws) rest ∧ ks = ws.flatMap notes)
    ?_ ?_ hothers
  · intro ts _ front w hw
    exact ⟨[], .last hw, rfl⟩
  -- One more round: a comma and the item behind it.
  · intro ts mid rest ks₁ ks₂ hp hbody ih front w hw
    obtain ⟨comma, us, rfl, hnext⟩ := yields_take_seq_iff.1 hbody
    rw [State.passes_one_cons, isA_iff rfl] at hp
    obtain ⟨v, hv, rfl⟩ := hitem hnext
    obtain ⟨ws, hws, rfl⟩ := ih hv
    exact ⟨v :: ws, .more hw hp hws, rfl⟩

/-- A list is read as one, if nothing behind an item goes on with it: neither what may follow an
item, nor a comma behind the last one. -/
theorem yields_of_listed (follow : List Token → Prop) {ws : List (List Token)}
    (h : Listed item ts ws rest)
    (hitem : ∀ {ts w rest : List Token}, item ts w rest → follow rest →
      Yields n r ts (notes w) rest)
    (hcomma : ∀ {t : Token} {us : List Token}, t.kind = .comma → follow (t :: us))
    (hfollow : follow rest)
    (hrest : State.passes [isA .comma] rest = false) :
    Yields n (separated r) ts (ws.flatMap notes) rest := by
  induction h with
  | last hw => exact yields_seq_iff.2 ⟨_, _, _, hitem hw hfollow, yields_stop hrest, rfl⟩
  | more hw hc _ ih =>
      obtain ⟨mid, ks₁, ks₂, hfirst, hothers, hks⟩ := yields_seq_iff.1 (ih hfollow hrest)
      -- What the other items are read by is one round more behind this item.
      have hround := yields_again (passes_isA rfl hc _)
        (yields_take_seq_iff.2 ⟨_, _, rfl, hfirst⟩) hothers
      refine yields_seq_iff.2 ⟨_, _, _, hitem hw (hcomma hc), hround, ?_⟩
      rw [List.flatMap_cons, hks]

end

/-! ### Columns -/

/-- What is passed as a column is one. Whether there is a qualifier was decided by the two tokens
behind the name. -/
theorem column_of_passes (h : Passes n column ts rest) : ∃ w, Column ts w rest := by
  obtain ⟨mid, hname, hothers⟩ := Passes.seq_iff.1 h
  obtain ⟨t, rfl, ht⟩ := Passes.name_iff.1 hname
  rw [Passes.branch_iff] at hothers
  split at hothers
  · next hp =>
    obtain ⟨dot, u, us, rfl, hdot, hu⟩ := State.passes_two_iff.1 hp
    obtain ⟨_, htake, hlast⟩ := Passes.seq_iff.1 hothers
    cases Passes.take_cons_iff.1 htake
    cases Passes.take_cons_iff.1 hlast
    exact ⟨_, .qualified (isName_iff.1 ht) ((isA_iff rfl).1 hdot) (isName_iff.1 hu)⟩
  · obtain rfl := Passes.empty_iff.1 hothers
    exact ⟨_, .plain (isName_iff.1 ht)⟩

/-- A column is read up to its end, if no dot goes on with it. -/
theorem passes_column (h : Column ts w rest)
    (hrest : State.passes [isA .dot, TokenKind.isName] rest = false) : Passes n column ts rest := by
  cases h with
  | plain ht =>
      refine Passes.seq_iff.2 ⟨_, Passes.name_iff.2 ⟨_, rfl, isName_iff.2 ht⟩, ?_⟩
      rw [Passes.branch_iff, if_neg (by simp [hrest])]
      exact Passes.empty_iff.2 rfl
  | qualified ht hdot hu =>
      refine Passes.seq_iff.2 ⟨_, Passes.name_iff.2 ⟨_, rfl, isName_iff.2 ht⟩, ?_⟩
      have hp : State.passes [isA .dot, TokenKind.isName] (_ :: _ :: rest) = true :=
        State.passes_two_iff.2 ⟨_, _, _, rfl, (isA_iff rfl).2 hdot, isName_iff.2 hu⟩
      rw [Passes.branch_iff, if_pos hp]
      exact Passes.seq_iff.2 ⟨_, Passes.take_iff.2 ⟨_, rfl⟩, Passes.take_iff.2 ⟨_, rfl⟩⟩

/-- A column that is recorded keeps its tokens, the qualifier and its point among them. -/
theorem column_of_yields {p : Part} (h : Yields n (.record p column) ts ks rest) :
    ∃ w, Column ts w rest ∧ ks = [.ofTokens p w] := by
  obtain ⟨w, rfl, hpasses, rfl⟩ := (yields_record_iff rfl).1 h
  obtain ⟨v, hv⟩ := column_of_passes hpasses
  obtain rfl : v = w := List.append_cancel_right hv.append_eq
  exact ⟨v, hv, rfl⟩

/-- A column is kept with its tokens, if no dot and name go on with it. -/
theorem yields_column {p : Part} (h : Column ts w rest)
    (hrest : State.passes [isA .dot, TokenKind.isName] rest = false) :
    Yields n (.record p column) ts [.ofTokens p w] rest :=
  (yields_record_iff rfl).2 ⟨w, h.append_eq.symm, passes_column h hrest, rfl⟩

/-- In front of a comma no dot goes on with a column. -/
theorem not_dotted_of_comma {t : Token} (ht : t.kind = .comma) :
    State.passes [isA .dot, TokenKind.isName] (t :: ts) = false :=
  passes_isA_eq_false rfl (by simp [ht]) _ _

/-! ### Target columns -/

/-- What is read as the target columns is the list of them, and each is kept. -/
theorem target_of_yields (h : Yields n (optional (isA .leftParen) targetColumns) ts ks rest) :
    ∃ columns, Target ts columns rest ∧ ks = columns.map (.ofTokens .column) := by
  rw [yields_optional_iff] at h
  split at h
  · next hp =>
    obtain ⟨opening, us, rfl, hinside⟩ := yields_take_seq_iff.1 h
    rw [State.passes_one_cons, isA_iff rfl] at hp
    obtain ⟨mid, hcolumns, hexpect⟩ := (yields_noteless_seq_iff rfl).1 hinside
    obtain ⟨closing, rfl, hclosing⟩ := (Passes.expect_kind_iff rfl).1 hexpect
    obtain ⟨columns, hlist, rfl⟩ :=
      listed_of_yields _ column_of_yields (yields_together_iff.1 hcolumns)
    exact ⟨columns, .columns hp hlist hclosing, (List.map_eq_flatMap ..).symm⟩
  · obtain ⟨rfl, rfl⟩ := h
    exact ⟨[], .none, rfl⟩

/-- The target columns are read as such, if without any of them no parenthesis follows that would
open them. -/
theorem yields_of_target {columns : List (List Token)} (h : Target ts columns rest)
    (hrest : State.passes [isA .leftParen] rest = false) :
    Yields n (optional (isA .leftParen) targetColumns) ts (columns.map (.ofTokens .column))
      rest := by
  rw [yields_optional_iff]
  cases h with
  -- No parenthesis is next, so the columns are left out.
  | none =>
      rw [if_neg (by simp [hrest])]
      exact ⟨rfl, rfl⟩
  | columns hopening hlist hclosing =>
      rw [if_pos (passes_isA rfl hopening _)]
      refine yields_take_seq_iff.2 ⟨_, _, rfl, (yields_noteless_seq_iff rfl).2 ⟨_, ?_,
        (Passes.expect_kind_iff rfl).2 ⟨_, rfl, hclosing⟩⟩⟩
      -- The items in the parentheses, up to the closing one, which goes on with none of them.
      rw [yields_together_iff, List.map_eq_flatMap]
      exact yields_of_listed _ _ hlist yields_column not_dotted_of_comma
        (passes_isA_eq_false rfl (by simp [hclosing]) _ _)
        (passes_isA_eq_false rfl (by simp [hclosing]) _ _)

/-! ### Values -/

/-- Reading a value consumes the tokens that the rule passes, which is how the grammar of statements
refers to values. -/
theorem valueRange_iff :
    ValueRange n ts w rest ↔ ts = w ++ rest ∧ Passes n (.value 0) ts rest := by
  have hpasses : Passes n (.value 0) ts rest ↔
      ∃ s, readValue n 0 (.initial ts 0) = .ok s ∧ s.after = rest ∧ s.repairs = [] :=
    passes_iff_run (r := .value 0) rfl rfl (s := .initial ts 0) rfl
  rw [hpasses]
  exact Iff.rfl

/-- A value that is recorded keeps the tokens that reading it consumes. -/
theorem yields_value_iff :
    Yields n (.record .value (.value 0)) ts ks rest ↔
      ∃ w, ValueRange n ts w rest ∧ ks = [.ofTokens .value w] := by
  have hvalue : (Rule.value 0).noteless = true := rfl
  simp only [yields_record_iff hvalue, valueRange_iff, and_assoc]

/-- What is read as a VALUES clause is a list of values, and each is kept. -/
theorem valueList_of_yields (h : Yields n valuesClause ts ks rest) :
    ∃ vs, ValueList (ValueRange n) ts vs rest ∧ ks = vs.map (.ofTokens .value) := by
  obtain ⟨values, us, rfl, hvalues, hopened⟩ := yields_word_seq_iff.1 h
  obtain ⟨opening, us, rfl, hopening, hinside⟩ := (yields_expect_seq_iff rfl).1 hopened
  obtain ⟨mid, hvs, hexpect⟩ := (yields_noteless_seq_iff rfl).1 hinside
  obtain ⟨closing, rfl, hclosing⟩ := (Passes.expect_kind_iff rfl).1 hexpect
  obtain ⟨vs, hlist, rfl⟩ := listed_of_yields _ yields_value_iff.1 hvs
  exact ⟨vs, .values hvalues hopening hlist hclosing, (List.map_eq_flatMap ..).symm⟩

/-- A list of values is read as a VALUES clause, and each value is kept with its tokens. -/
theorem yields_of_valueList {vs : List (List Token)} (h : ValueList (ValueRange n) ts vs rest) :
    Yields n valuesClause ts (vs.map (.ofTokens .value)) rest := by
  cases h with
  | values hvalues hopening hlist hclosing =>
      refine yields_word_seq_iff.2 ⟨_, _, rfl, hvalues, (yields_expect_seq_iff rfl).2
        ⟨_, _, rfl, hopening, (yields_noteless_seq_iff rfl).2 ⟨_, ?_,
          (Passes.expect_kind_iff rfl).2 ⟨_, rfl, hclosing⟩⟩⟩⟩
      rw [List.map_eq_flatMap]
      -- A value ends where reading it ends, whatever follows.
      exact yields_of_listed (fun w => [.ofTokens .value w]) (fun _ => True) hlist
        (fun hw _ => yields_value_iff.2 ⟨_, hw, rfl⟩) (fun _ => trivial) trivial
        (passes_isA_eq_false rfl (by simp [hclosing]) _ _)

/-! ### MATCHING -/

/-- What is read as a list of columns of which nothing is kept. -/
theorem columns_of_passes (h : Passes n (separated column) ts rest) :
    ∃ columns, Listed Column ts columns rest := by
  have hkeeps : Yields n (separated column) ts [] rest := (yields_iff_of_noteless rfl).2 ⟨rfl, h⟩
  obtain ⟨columns, hlist, -⟩ := listed_of_yields (fun _ => []) (fun hcolumn => by
    obtain ⟨hks, hpasses⟩ := (yields_iff_of_noteless rfl).1 hcolumn
    obtain ⟨w, hw⟩ := column_of_passes hpasses
    exact ⟨w, hw, hks⟩) hkeeps
  exact ⟨columns, hlist⟩

/-- Columns that are not kept are passed, if nothing goes on with the last of them. -/
theorem passes_of_columns {columns : List (List Token)} (h : Listed Column ts columns rest)
    (hdot : State.passes [isA .dot, TokenKind.isName] rest = false)
    (hcomma : State.passes [isA .comma] rest = false) : Passes n (separated column) ts rest :=
  ((yields_iff_of_noteless rfl).1 (yields_of_listed (fun _ => []) _ h
    (fun hw hrest => (yields_iff_of_noteless rfl).2 ⟨rfl, passes_column hw hrest⟩)
    not_dotted_of_comma hdot hcomma)).2

/-- What is read as a MATCHING clause is one, and nothing is kept of it. -/
theorem matching_of_yields (h : Yields n (optional (isWord .matching) matchingClause) ts ks rest) :
    Matching ts rest ∧ ks = [] := by
  obtain ⟨rfl, hpasses⟩ := (yields_iff_of_noteless rfl).1 h
  refine ⟨?_, rfl⟩
  rw [Passes.optional_iff] at hpasses
  split at hpasses
  -- The word is there, and behind it stand columns with parentheses or without.
  · next hp =>
    obtain ⟨mid, htake, hclause⟩ := Passes.seq_iff.1 hpasses
    obtain ⟨matching, rfl⟩ := Passes.take_iff.1 htake
    rw [State.passes_one_cons, isWord_iff] at hp
    rw [Passes.branch_iff] at hclause
    split at hclause
    · next hq =>
      obtain ⟨mid, htake, hinside⟩ := Passes.seq_iff.1 hclause
      obtain ⟨opening, rfl⟩ := Passes.take_iff.1 htake
      rw [State.passes_one_cons, isA_iff rfl] at hq
      obtain ⟨mid, hcolumns, hexpect⟩ := Passes.seq_iff.1 hinside
      obtain ⟨closing, rfl, hclosing⟩ := (Passes.expect_kind_iff rfl).1 hexpect
      obtain ⟨columns, hlist⟩ := columns_of_passes hcolumns
      exact .enclosed hp hq hlist hclosing
    · obtain ⟨columns, hlist⟩ := columns_of_passes hclause
      exact .bare hp hlist
  · obtain rfl := hpasses
    exact .none

/-- A MATCHING clause is read as such, if nothing behind goes on with it. -/
theorem yields_of_matching (h : Matching ts rest)
    (hmatching : State.passes [isWord .matching] rest = false)
    (hdot : State.passes [isA .dot, TokenKind.isName] rest = false)
    (hcomma : State.passes [isA .comma] rest = false) :
    Yields n (optional (isWord .matching) matchingClause) ts [] rest := by
  refine (yields_iff_of_noteless rfl).2 ⟨rfl, ?_⟩
  rw [Passes.optional_iff]
  cases h with
  | none => rw [if_neg (by simp [hmatching])]
  | enclosed hm hopening hlist hclosing =>
      rw [if_pos (passes_isWord hm _)]
      refine Passes.seq_iff.2 ⟨_, Passes.take_iff.2 ⟨_, rfl⟩, ?_⟩
      rw [Passes.branch_iff, if_pos (passes_isA rfl hopening _)]
      refine Passes.seq_iff.2 ⟨_, Passes.take_iff.2 ⟨_, rfl⟩, Passes.seq_iff.2 ⟨_, ?_,
        (Passes.expect_kind_iff rfl).2 ⟨_, rfl, hclosing⟩⟩⟩
      exact passes_of_columns hlist (passes_isA_eq_false rfl (by simp [hclosing]) _ _)
        (passes_isA_eq_false rfl (by simp [hclosing]) _ _)
  | bare hm hlist =>
      rw [if_pos (passes_isWord hm _)]
      refine Passes.seq_iff.2 ⟨_, Passes.take_iff.2 ⟨_, rfl⟩, ?_⟩
      -- A column begins with a name, so it is not read as a list in parentheses.
      obtain ⟨w, mid, hw⟩ := hlist.exists_first
      obtain ⟨t, us, rfl, ht⟩ := hw.exists_name
      have hp : State.passes [isA .leftParen] (t :: us) = false :=
        passes_isA_eq_false rfl (ht.ne rfl) _ _
      rw [Passes.branch_iff, if_neg (by simp [hp])]
      exact passes_of_columns hlist hdot hcomma

/-! ### RETURNING -/

/-- What is read as one thing that is returned is a star or a column, and its tokens are kept
without the alias. -/
theorem returningItem_of_yields (h : Yields n returningItem ts ks rest) :
    ∃ w, ReturningItem ts w rest ∧ ks = [.ofTokens .returning w] := by
  rw [returningItem, yields_branch_iff] at h
  split at h
  -- A star is next, and it is all there is.
  · next hp =>
    obtain ⟨w, rfl, htake, rfl⟩ := (yields_record_iff rfl).1 h
    obtain ⟨t, ht⟩ := Passes.take_iff.1 htake
    rw [ht, State.passes_one_cons, isA_iff rfl] at hp
    obtain rfl : w = [t] := List.append_cancel_right (show w ++ rest = [t] ++ rest from ht)
    exact ⟨_, .all hp, rfl⟩
  · obtain ⟨mid, hcolumn, halias⟩ := (yields_noteless_seq_iff rfl).1 (yields_together_iff.1 h)
    obtain ⟨w, hw, rfl⟩ := column_of_yields hcolumn
    refine ⟨w, ?_, rfl⟩
    -- Behind the column stands AS with an alias, an alias alone, or neither.
    rw [aliasName, Passes.branch_iff] at halias
    split at halias
    · next hp =>
      obtain ⟨mid, htake, hname⟩ := Passes.seq_iff.1 halias
      obtain ⟨word, rfl⟩ := Passes.take_iff.1 htake
      obtain ⟨label, rfl, ha⟩ := Passes.name_iff.1 hname
      rw [State.passes_one_cons, isWord_iff] at hp
      exact .renamedAs hw hp (isName_iff.1 ha)
    · rw [Passes.optional_iff] at halias
      split at halias
      · next hp =>
        obtain ⟨label, rfl⟩ := Passes.take_iff.1 halias
        rw [State.passes_one_cons] at hp
        exact .renamed hw (isName_iff.1 hp)
      · obtain rfl := halias
        exact .column hw

/-- The tokens begin with nothing that goes on with what is returned: with a comma, a semicolon, or
not at all. -/
def EndsItem (ts : List Token) : Prop :=
  ∀ t, ts.head? = some t → t.kind = .comma ∨ t.kind = .semicolon

/-- A comma ends what is returned, so the next item may follow. -/
theorem endsItem_comma {t : Token} (ht : t.kind = .comma) : EndsItem (t :: ts) := by
  intro u hu
  cases hu
  exact .inl ht

/-- So does the end of the statement, with a semicolon or without. -/
theorem Terminator.endsItem (h : Terminator ts) : EndsItem ts := by
  intro t ht
  cases h with
  | absent => cases ht
  | semicolon hsemicolon =>
      cases ht
      exact .inr hsemicolon

/-- What ends an item passes no test that is neither for a comma nor for a semicolon. -/
theorem EndsItem.not_passes (h : EndsItem ts) (test : TokenKind → Bool)
    (tests : List (TokenKind → Bool)) (hcomma : test .comma = false)
    (hsemicolon : test .semicolon = false) : ¬ State.passes (test :: tests) ts = true := by
  cases ts with
  | nil => exact Bool.false_ne_true
  | cons t ts =>
      rw [State.passes, Bool.and_eq_true]
      rintro ⟨htest, -⟩
      rcases h t rfl with ht | ht
      · rw [ht, hcomma] at htest
        cases htest
      · rw [ht, hsemicolon] at htest
        cases htest

/-- A star or a column with its alias is read as one thing that is returned. -/
theorem yields_of_returningItem (h : ReturningItem ts w rest) (hrest : EndsItem rest) :
    Yields n returningItem ts [.ofTokens .returning w] rest := by
  rw [returningItem, yields_branch_iff]
  -- The three forms with a column share the column and differ in what the alias is.
  have column : ∀ {ts w mid : List Token}, Column ts w mid →
      State.passes [isA .dot, TokenKind.isName] mid = false → Passes n aliasName mid rest →
        if State.passes [isA .star] ts = true then
          Yields n (.record .returning .take) ts [.ofTokens .returning w] rest
        else Yields n (.together (.seq (.record .returning Grammar.column) aliasName)) ts
          [.ofTokens .returning w] rest := by
    intro ts w mid hw hmid halias
    have hp : State.passes [isA .star] ts = false := by
      obtain ⟨t, us, rfl, ht⟩ := hw.exists_name
      exact passes_isA_eq_false rfl (ht.ne rfl) _ _
    rw [if_neg (by simp [hp]), yields_together_iff]
    exact (yields_noteless_seq_iff rfl).2 ⟨mid, yields_column hw hmid, halias⟩
  cases h with
  | all ht =>
      rw [if_pos (passes_isA rfl ht _)]
      exact (yields_record_iff rfl).2 ⟨[_], rfl, Passes.take_iff.2 ⟨_, rfl⟩, rfl⟩
  | column hw =>
      refine column hw (Bool.eq_false_iff.2 (hrest.not_passes _ _ rfl rfl)) ?_
      rw [aliasName, Passes.branch_iff, if_neg (hrest.not_passes (isWord .as) [] rfl rfl),
        Passes.optional_iff, if_neg (hrest.not_passes TokenKind.isName [] rfl rfl)]
  | @renamed _ _ _ label hw ha =>
      -- An alias without AS is a name, so it is not taken for AS.
      have has : State.passes [isWord .as] (label :: rest) = false :=
        passes_isA_eq_false rfl (ha.ne rfl) _ _
      refine column hw (passes_isA_eq_false rfl (ha.ne rfl) _ _) ?_
      have hname : State.passes [TokenKind.isName] (label :: rest) = true := by
        rw [State.passes_one_cons, isName_iff]
        exact ha
      rw [aliasName, Passes.branch_iff, if_neg (by simp [has]), Passes.optional_iff, if_pos hname]
      exact Passes.take_iff.2 ⟨_, rfl⟩
  | @renamedAs _ _ _ word label hw hword ha =>
      refine column hw (passes_isA_eq_false rfl (by simp [hword]) _ _) ?_
      rw [aliasName, Passes.branch_iff, if_pos (passes_isWord hword _)]
      exact Passes.seq_iff.2 ⟨_, Passes.take_iff.2 ⟨_, rfl⟩,
        Passes.name_iff.2 ⟨_, rfl, isName_iff.2 ha⟩⟩

/-- What is read as a RETURNING clause is one, and each of its items is kept, in their order. -/
theorem returning_of_yields
    (h : Yields n (optional (isWord .returning) returningClause) ts ks rest) :
    ∃ items, Returning ts items rest ∧ ks = items.map (.ofTokens .returning) := by
  rw [yields_optional_iff] at h
  split at h
  · next hp =>
    obtain ⟨returning, us, rfl, hlist⟩ := yields_take_seq_iff.1 h
    rw [State.passes_one_cons, isWord_iff] at hp
    obtain ⟨items, hitems, rfl⟩ := listed_of_yields _ returningItem_of_yields hlist
    exact ⟨items, .clause hp hitems, (List.map_eq_flatMap ..).symm⟩
  · obtain ⟨rfl, rfl⟩ := h
    exact ⟨[], .none, rfl⟩

/-- A RETURNING clause in front of the end of a statement is read as such. In front of other tokens
the last item might go on. -/
theorem yields_of_returning {items : List (List Token)} (h : Returning ts items rest)
    (hrest : Terminator rest) :
    Yields n (optional (isWord .returning) returningClause) ts (items.map (.ofTokens .returning))
      rest := by
  rw [yields_optional_iff]
  cases h with
  | none =>
      rw [if_neg (hrest.endsItem.not_passes (isWord .returning) [] rfl rfl)]
      exact ⟨rfl, rfl⟩
  | clause hreturning hlist =>
      rw [if_pos (passes_isWord hreturning _), List.map_eq_flatMap]
      -- No comma goes on with the list, since a semicolon or nothing stands behind it.
      have hcomma : State.passes [isA .comma] rest = false := by
        cases hrest with
        | absent => rfl
        | semicolon ht => exact passes_isA_eq_false rfl (by simp [ht]) _ _
      exact yields_take_seq_iff.2 ⟨_, _, rfl,
        yields_of_listed _ _ hlist yields_of_returningItem endsItem_comma hrest.endsItem hcomma⟩

/-- An ending is a RETURNING clause or none and a semicolon or none, and the end. -/
theorem yields_ending_iff {type : StatementType} :
    Yields n (ending type) ts ks rest ↔
      ∃ mid items, Returning ts items mid ∧ Terminator mid ∧
        ks = items.map (.ofTokens .returning) ++ [.type type] ∧ rest = [] := by
  constructor
  · rintro ⟨ms, h, hclean⟩
    obtain ⟨mid, ms, ks, hclause, hmid, rfl, rfl, rfl⟩ := reads_ending_iff.1 h
    obtain ⟨items, hitems, rfl⟩ := returning_of_yields ⟨ms, hclause, (Move.clean_append.1 hclean).1⟩
    exact ⟨mid, items, hitems, hmid, rfl, rfl⟩
  · rintro ⟨mid, items, hitems, hmid, rfl, rfl⟩
    obtain ⟨ms, hclause, hclean⟩ := yields_of_returning (n := n) hitems hmid
    exact ⟨_, reads_ending_iff.2 ⟨mid, ms, _, hclause, hmid, rfl, rfl, rfl⟩,
      Move.clean_append.2 ⟨hclean, Move.clean_map_pass mid⟩⟩

/-- A statement is read by reading its front and then its ending. -/
theorem yields_statement_iff {type : StatementType} :
    Yields n (statement type) ts ks rest ↔
      ∃ mid ks₁ ks₂, Yields n (front type) ts ks₁ mid ∧ Yields n (ending type) mid ks₂ rest ∧
        ks = ks₁ ++ ks₂ := by
  constructor
  · rintro ⟨ms, h, hclean⟩
    obtain ⟨mid, ms₁, ms₂, ks₁, ks₂, hfront, hending, rfl, rfl⟩ := reads_statement_iff.1 h
    rw [Move.clean_append] at hclean
    exact ⟨mid, ks₁, ks₂, ⟨ms₁, hfront, hclean.1⟩, ⟨ms₂, hending, hclean.2⟩, rfl⟩
  · rintro ⟨mid, ks₁, ks₂, ⟨ms₁, hfront, hclean₁⟩, ⟨ms₂, hending, hclean₂⟩, rfl⟩
    exact ⟨_, reads_statement_iff.2 ⟨mid, _, _, _, _, hfront, hending, rfl, rfl⟩,
      Move.clean_append.2 ⟨hclean₁, hclean₂⟩⟩

end GeneratedKeys
