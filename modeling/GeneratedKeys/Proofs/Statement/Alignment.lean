import GeneratedKeys.Proofs.Statement.Insertion
import GeneratedKeys.Proofs.Value.Balanced

/-!
# `GeneratedKeys.Proofs.Statement.Alignment`: columns and values as they are written

The columns and the values of an insertion are two lists in parentheses, and each list is read by
itself. What is kept are the items that are written, found by counting parentheses and brackets
alone. Nothing compares the two lists, so they are as long as each other only if they are written
so.

* `splitList`: the items of a list in parentheses, and the tokens behind it.
* `parse_written`: the columns and the values of an insertion without problems are the items that
  are written.
* `uneven_insert`: two columns and one value are parsed without problems.
-/

set_option autoImplicit false

namespace GeneratedKeys

open Rule Grammar

/-! ### Lists in parentheses -/

/-- How many parentheses and brackets are open behind a token of the kind. Closing one that is not
open changes nothing. -/
def TokenKind.nesting (opened : Nat) (kind : TokenKind) : Nat :=
  if kind.opens then opened + 1 else if kind.closes then opened - 1 else opened

/-- The items with the token in front of the first one. A list without items gets a first one. -/
def extend (t : Token) : List (List Token) → List (List Token)
  | [] => [[t]]
  | w :: ws => (t :: w) :: ws

/-- The items of a list behind its opening parenthesis, and the tokens behind its closing one.
Items are separated by the commas outside of all other parentheses and brackets, of which
`opened` are open. -/
def splitList (opened : Nat) : List Token → List (List Token) × List Token
  | [] => ([[]], [])
  | t :: ts =>
    if opened = 0 ∧ t.kind.closes = true then ([[]], ts)
    else if opened = 0 ∧ t.kind = .comma then (splitList 0 ts).map ([] :: ·) id
    else (splitList (t.kind.nesting opened) ts).map (extend t) id

/-- The items of the list in parentheses at the beginning of the tokens, and the tokens behind
it. There are no items if there is no list. -/
def listAhead : List Token → List (List Token) × List Token
  | [] => ([], [])
  | t :: ts => if t.kind = .leftParen then splitList 0 ts else ([], t :: ts)

/-- The tokens behind the table of an insertion: behind `INSERT INTO table` or behind
`UPDATE OR INSERT INTO table`. -/
def behindTable (type : StatementType) (ts : List Token) : List Token :=
  ts.drop (if type = .updateOrInsert then 5 else 3)

/-- The columns that are written in parentheses behind the table of an insertion, found without the
grammar: by counting parentheses and cutting at commas. -/
def writtenColumns (type : StatementType) (ts : List Token) : List (List Token) :=
  (listAhead (behindTable type ts)).1

/-- The values that are written in parentheses behind the word VALUES, if that follows the table
and its columns. -/
def writtenValues (type : StatementType) (ts : List Token) : List (List Token) :=
  match (listAhead (behindTable type ts)).2 with
  | [] => []
  | t :: us => if t.kind = .keyword .values then (listAhead us).1 else []

/-- An opening token belongs to the item at hand, and one more is open behind it. -/
theorem splitList_opens {t : Token} (ht : t.kind.opens = true) (opened : Nat) (ts : List Token) :
    splitList opened (t :: ts) = (splitList (opened + 1) ts).map (extend t) id := by
  have hcloses : ¬ (opened = 0 ∧ t.kind.closes = true) := by
    rw [TokenKind.closes_of_opens ht]
    exact fun h => Bool.false_ne_true h.2
  have hcomma : ¬ (opened = 0 ∧ t.kind = .comma) := fun h => TokenKind.ne_comma_of_opens ht h.2
  rw [splitList, if_neg hcloses, if_neg hcomma, TokenKind.nesting, if_pos ht]

/-- A closing token that matches an open one belongs to the item at hand. -/
theorem splitList_closes {t : Token} (ht : t.kind.closes = true) (opened : Nat)
    (ts : List Token) :
    splitList (opened + 1) (t :: ts) = (splitList opened ts).map (extend t) id := by
  have hopens : ¬ t.kind.opens = true := by
    rw [TokenKind.opens_of_closes ht]
    exact Bool.false_ne_true
  rw [splitList, if_neg (by omega), if_neg (by omega), TokenKind.nesting, if_neg hopens,
    if_pos ht, Nat.add_sub_cancel]

/-- Any other token belongs to the item at hand, unless it is a comma outside of all others. -/
theorem splitList_plain {t : Token} {commas : Bool} (ht : t.kind.isPlain commas = true)
    {opened : Nat} (hopened : commas = true → 0 < opened) (ts : List Token) :
    splitList opened (t :: ts) = (splitList opened ts).map (extend t) id := by
  obtain ⟨hopens, hcloses, hcomma⟩ := TokenKind.isPlain_iff.1 ht
  have hseparates : ¬ (opened = 0 ∧ t.kind = .comma) := by
    rintro ⟨hzero, hkind⟩
    have hpos := hopened (hcomma hkind)
    omega
  rw [splitList, if_neg (by simp [hcloses]), if_neg hseparates, TokenKind.nesting,
    if_neg (by simp [hopens]), if_neg (by simp [hcloses])]

/-- Balanced tokens belong to the item at hand, whatever stands behind them. -/
theorem Balanced.splitList_eq {commas : Bool} {ts rest : List Token}
    (h : Balanced commas ts rest) :
    ∃ w, ts = w ++ rest ∧ ∀ opened : Nat, (commas = true → 0 < opened) →
      splitList opened ts = (splitList opened rest).map (w.foldr extend) id := by
  have hfold : ∀ (w : List Token) (split : List (List Token) × List Token),
      w.foldr (fun t => Prod.map (extend t) id) split = split.map (w.foldr extend) id := by
    intro w split
    induction w with
    | nil => rfl
    | cons t w ih => rw [List.foldr_cons, ih, Prod.map_map]; rfl
  -- Inside of parentheses and brackets commas do not separate items.
  obtain ⟨w, rfl, hw⟩ : ∃ w, ts = w ++ rest ∧ ∀ (opened : Nat) (us : List Token),
      (commas = true → 0 < opened) → splitList opened (w ++ us)
        = w.foldr (fun t => Prod.map (extend t) id) (splitList opened us) :=
    h.foldr_eq (fun _ opened => opened + 1) (fun opened => 0 < opened)
      (fun opened us ht hopened => splitList_plain ht hopened us)
      (fun opened us hl => ⟨Nat.succ_pos opened, splitList_opens hl opened us⟩)
      (fun opened us hends => splitList_closes (TokenKind.closes_of_closedBy hends) opened us)
  refine ⟨w, rfl, fun opened hopened => ?_⟩
  rw [hw opened rest hopened, hfold]

/-- Tokens are put in front of the first item, one by one, and the other items stay. -/
theorem foldr_extend (w : List Token) (v : List Token) (ws : List (List Token)) :
    w.foldr extend (v :: ws) = (w ++ v) :: ws := by
  induction w with
  | nil => rfl
  | cons t w ih => rw [List.foldr_cons, ih]; rfl

/-- A list of balanced items is split into them, up to the closing parenthesis that matches. -/
theorem splitList_listed {item : List Token → List Token → List Token → Prop}
    (hitem : ∀ {ts w rest : List Token}, item ts w rest → ts = w ++ rest ∧ Balanced false ts rest)
    {ts rest : List Token} {ws : List (List Token)} {closing : Token}
    (h : Listed item ts ws (closing :: rest)) (hclosing : closing.kind = .rightParen) :
    splitList 0 ts = (ws, rest) := by
  -- An item is what stands in front of the next comma or the closing parenthesis.
  have hfirst : ∀ {ts w mid : List Token}, item ts w mid →
      splitList 0 ts = (splitList 0 mid).map (w.foldr extend) id := by
    intro ts w mid hw
    obtain ⟨happend, hbalanced⟩ := hitem hw
    obtain ⟨v, hv, hsplit⟩ := hbalanced.splitList_eq
    obtain rfl : v = w := List.append_cancel_right (hv.symm.trans happend)
    exact hsplit 0 fun hfalse => by cases hfalse
  generalize hend : closing :: rest = behind at h
  induction h with
  | @last ts w behind hw =>
      subst hend
      rw [hfirst hw, splitList, hclosing, if_pos ⟨rfl, rfl⟩]
      show (w.foldr extend [[]], rest) = _
      rw [foldr_extend, List.append_nil]
  | @more ts w mid behind ws comma hw hcomma _ ih =>
      rw [hfirst hw, splitList, hcomma, if_neg (by simp [TokenKind.closes]), if_pos ⟨rfl, rfl⟩,
        ih hend]
      show (w.foldr extend ([] :: ws), rest) = _
      rw [foldr_extend, List.append_nil]

/-! ### Columns and values -/

variable {n : Nat} {ts w rest : List Token}

/-- A column is balanced, as it has names and a dot only. -/
theorem Column.balanced (h : Column ts w rest) : Balanced false ts rest := by
  cases h with
  | plain ht => exact .name ht .nil
  | qualified ht hdot hu =>
      refine .name ht (.token ?_ (.name hu .nil))
      rw [hdot]
      rfl

/-- What is read as a value closes what it opens, so commas inside of it are not those of the list.
-/
theorem ValueRange.balanced (h : ValueRange n ts w rest) : Balanced false ts rest :=
  (derives_value n 0 ts rest (valueRange_iff.1 h).2).balanced

/-- The target columns are those that are written, and what stands behind them is known. -/
theorem Target.listAhead_eq {columns : List (List Token)} {t : Token}
    (h : Target ts columns (t :: rest)) (ht : t.kind ≠ .leftParen) :
    listAhead ts = (columns, t :: rest) := by
  cases h with
  | none => rw [listAhead, if_neg ht]
  | columns hopening hlist hclosing =>
      rw [listAhead, if_pos hopening]
      exact splitList_listed (fun hw => ⟨hw.append_eq.symm, hw.balanced⟩) hlist hclosing

/-- Behind the columns the values are those that are written behind VALUES. -/
theorem written_eq {type : StatementType} {all body : List Token}
    {columns values : List (List Token)} (htable : behindTable type all = ts)
    (htarget : Target ts columns body) (hvalues : ValueList (ValueRange n) body values rest) :
    writtenColumns type all = columns ∧ writtenValues type all = values := by
  cases hvalues with
  | @values word opening closing us _ _ hword hopening hlist hclosing =>
      have hcolumns := htarget.listAhead_eq (by rw [hword]; exact TokenKind.noConfusion)
      have hlist := splitList_listed (fun hw => ⟨hw.1, hw.balanced⟩) hlist hclosing
      rw [writtenColumns, writtenValues, htable, hcolumns]
      refine ⟨rfl, ?_⟩
      show (if word.kind = .keyword .values then (listAhead (opening :: us)).1 else []) = values
      rw [if_pos hword, listAhead, if_pos hopening, hlist]

/-- The columns and the values of a word are those that are written, if there are values. -/
theorem InsertionWord.written {i : Insertion} (h : InsertionWord (ValueRange n) ts i)
    (hvalues : i.values ≠ []) :
    writtenColumns i.type ts = i.columns ∧ writtenValues i.type ts = i.values := by
  cases h with
  | insert _ _ _ hcolumns hlist _ _ => exact written_eq rfl hcolumns hlist
  | defaults => exact absurd rfl hvalues
  | updateOrInsert _ _ _ _ _ hcolumns hlist _ _ _ => exact written_eq rfl hcolumns hlist

/-- If an INSERT or an UPDATE OR INSERT is parsed without problems and has values, its columns
are the items written in parentheses behind the table, and its values are the items written in
parentheses behind VALUES. So there are as many columns as values exactly if as many are
written. -/
theorem parse_written {t : Text} {p : ParsedStatement} (h : parse t = .ok p)
    (hclean : p.isClean = true) {type : StatementType} (htype : p.statement.type? = some type)
    (hinsertion : type = .insert ∨ type = .updateOrInsert) (hvalues : p.statement.values ≠ []) :
    p.statement.columns = (writtenColumns type (visibleTokens t)).map (covered t) ∧
      p.statement.values = (writtenValues type (visibleTokens t)).map (covered t) ∧
      (p.statement.columns.length = p.statement.values.length ↔
        (writtenColumns type (visibleTokens t)).length
          = (writtenValues type (visibleTokens t)).length) := by
  obtain ⟨-, found, ms, ks, hread, hall, hparts⟩ := reads_of_clean h hclean
  -- Without problems the statement was read without repairs.
  have hyields : Yields nestingLimit (statement found) (visibleTokens t) ks [] := ⟨ms, hread, hall⟩
  rw [hparts] at htype hvalues ⊢
  obtain rfl : found = type := Option.some.inj ((type_partsOf hyields t).symm.trans htype)
  obtain ⟨i, rfl, htable, hi⟩ := insertion_of_yields hyields hinsertion
  rw [Insertion.partsOf_notes htable] at htype hvalues ⊢
  obtain rfl : i.type = found := Option.some.inj htype
  have hkept : i.values ≠ [] := fun hnil => hvalues (List.map_eq_nil_iff.2 hnil)
  -- Rows that are selected have no values, and there are some.
  rcases hi with hi | ⟨-, hnil, -⟩
  · obtain ⟨hcolumns, hwritten⟩ := hi.written hkept
    rw [hcolumns, hwritten]
    refine ⟨rfl, rfl, ?_⟩
    show (List.map _ _).length = (List.map _ _).length ↔ _
    rw [List.length_map, List.length_map]
  · exact absurd hnil hkept

/-- Two columns and one value, with commas in its parentheses and brackets, which do not separate
values. -/
theorem parse_written_nested :
    ∃ p, parse "INSERT INTO T (A, B.C) VALUES (F(1, X[2, 3]))".toList = .ok p ∧
      p.isClean = true ∧
      p.statement.columns.length ≠ p.statement.values.length ∧
      (writtenColumns .insert
          (visibleTokens "INSERT INTO T (A, B.C) VALUES (F(1, X[2, 3]))".toList)).length = 2 ∧
      p.statement.values
        = (writtenValues .insert
            (visibleTokens "INSERT INTO T (A, B.C) VALUES (F(1, X[2, 3]))".toList)).map
              (covered "INSERT INTO T (A, B.C) VALUES (F(1, X[2, 3]))".toList) := by
  have hparse : parse "INSERT INTO T (A, B.C) VALUES (F(1, X[2, 3]))".toList
      = .ok ⟨⟨some .insert, some ['T'], ["A".toList, "B.C".toList], ["F(1, X[2, 3])".toList], [],
          false⟩, .none⟩ := by rfl
  -- The commas inside of the call do not count.
  obtain ⟨-, hvalues, -⟩ := parse_written hparse rfl rfl (.inl rfl) (List.cons_ne_nil _ _)
  refine ⟨_, hparse, rfl, by decide, ?_, hvalues⟩
  decide +kernel

/-- Two columns and one value are parsed without problems: the lists are not compared, and each is
kept as it is written. -/
theorem uneven_insert :
    ∃ p, parse "INSERT INTO T (A, B) VALUES (1)".toList = .ok p ∧ p.isClean = true ∧
      p.statement.type? = some .insert ∧ p.statement.columns = [['A'], ['B']] ∧
      p.statement.values = [['1']] ∧
      p.statement.columns.length ≠ p.statement.values.length := by
  have hparse : parse "INSERT INTO T (A, B) VALUES (1)".toList
      = .ok ⟨⟨some .insert, some ['T'], [['A'], ['B']], [['1']], [], false⟩, .none⟩ := by rfl
  exact ⟨_, hparse, rfl, rfl, rfl, rfl, by decide⟩

end GeneratedKeys
