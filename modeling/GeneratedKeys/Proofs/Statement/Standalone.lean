import GeneratedKeys.Proofs.Recovery.Value
import GeneratedKeys.Proofs.Statement.Insertion
import GeneratedKeys.Proofs.Token.Trimmed

/-!
# `GeneratedKeys.Proofs.Statement.Standalone`: values in another statement

A value of an UPDATE ends wherever no operator goes on with it. Put into the VALUES list of an
INSERT it is read as the same value all the same: its text has the same tokens there, a comma or a
closing parenthesis goes on with no value, and the values of all statements may be nested as deep.

* `standalone_of_mem`: the values of a statement without problems are read as values by themselves.
* `listed_closedList`: the list of such texts is read as these values.
* `parse_insertionOf`: so is the statement that inserts them.
-/

set_option autoImplicit false

namespace GeneratedKeys

open Rule Grammar Move Scan

/-- A text that is read as one value in front of any token that ends a value. -/
structure Standalone (v : Text) : Prop extends Trimmed v where
  passes : ∀ {t : Token} {us : List Token}, isQuiet t.kind = true →
    Passes nestingLimit (.value 0) (visibleTokens v ++ t :: us) (t :: us)

/-! ### The values of a statement -/

/-- What is kept as a value of a statement is read as a value, with all levels of nesting left. -/
theorem eq_value_of_mem_bodies {type : StatementType} {body : Rule}
    (h : body ∈ (statement type).bodies .value) : body = .value 0 := by
  obtain ⟨k, hk⟩ : ∃ k, (statement type).bodies .value = List.replicate k (.value 0) := by
    cases type with
    | delete => exact ⟨0, rfl⟩
    | _ => exact ⟨2, rfl⟩
  rw [hk] at h
  exact List.eq_of_mem_replicate h

/-- A value that was read up to some token is read up to any token that ends a value. -/
theorem Reads.passes_quiet {n power : Nat} {ts rest : List Token} {ms : List Move} {ks : List Note}
    (h : Reads n (.value power) ts ms ks rest) (hclean : Clean ms) {t : Token} {us : List Token}
    (ht : isQuiet t.kind = true) :
    Passes n (.value power) (consumed ms ++ t :: us) (t :: us) := by
  have hbehind : View.Behind isQuiet ([] ++ consumed ms) rest (t :: us) :=
    .inr (.inr ⟨t, us, rfl, ht⟩)
  obtain ⟨hread, -⟩ := mends_value n power h hbehind
  rw [hclean.kept_eq_consumed, hclean.mended_eq_self] at hread
  exact ⟨ms, _, hread, hclean⟩

/-- The values of a statement without problems are read as values by themselves, in front of any
token that ends a value. -/
theorem standalone_of_mem {t : Text} {p : ParsedStatement} (h : parse t = .ok p)
    (hclean : p.isClean = true) {v : Text} (hv : v ∈ p.statement.values) : Standalone v := by
  obtain ⟨hfault, type, ms, ks, hread, hms, hparts⟩ := reads_of_clean h hclean
  rw [hparts] at hv
  obtain ⟨run, hmem, rfl⟩ : ∃ run, Note.part .value run ∈ ks ∧ v = covered t (consumed run) :=
    mem_listed_partsOf hv
  obtain ⟨hrun, -⟩ := hread.part_of_mem (statement_tidy type) hmem
  obtain ⟨body, hbody, front, ks', behind, hvalue⟩ := hread.body_of_mem hmem
  obtain rfl := eq_value_of_mem_bodies hbody
  have hinfix : consumed run <:+: visibleTokens t := by
    rw [← hread.consumed_append, List.append_nil]
    exact consumed_infix hrun
  obtain ⟨htrimmed, k, htokens⟩ := trimmed_covered hfault hinfix (hvalue.consumed_ne_nil rfl)
  refine ⟨htrimmed, fun hquiet => ?_⟩
  -- By itself the text has the tokens that were read, at other places.
  refine (hvalue.passes_quiet (hms.of_infix hrun) hquiet).of_kinds ?_
  have hkinds := congrArg (List.map Token.kind) htokens
  rwa [visibleFrom_eq_map, List.map_map] at hkinds

/-! ### Lists of values -/

/-- The values with commas between, up to the closing parenthesis. A blank follows each comma. -/
def closedList (values : List Text) : Text :=
  (", ".toList).intercalate values ++ [')']

/-- The list of one value is the value and the parenthesis. -/
theorem closedList_singleton (v : Text) : closedList [v] = v ++ [')'] := by
  simp [closedList, List.intercalate]

/-- Between two values stand a comma and a blank, so neither value grows into the other. -/
theorem closedList_cons_cons (v w : Text) (vs : List Text) :
    closedList (v :: w :: vs) = v ++ ',' :: ' ' :: closedList (w :: vs) := by
  simp [closedList, List.intercalate]

/-- The parenthesis is one token, and nothing is left behind it. -/
theorem visibleFrom_closing (k : Nat) : visibleFrom k [')'] = [⟨.rightParen, [')'], k⟩] :=
  visibleFrom_single (scan_rightParen []) rfl

/-- The comma is one token, and the blank behind it is not visible. -/
theorem visibleFrom_separator (k : Nat) (r : Text) :
    visibleFrom k (',' :: ' ' :: r) = ⟨.comma, [','], k⟩ :: visibleFrom (k + 2) r := by
  have hcomma : visibleFrom k (',' :: ' ' :: r)
      = ⟨.comma, [','], k⟩ :: visibleFrom (k + 1) (' ' :: r) :=
    visibleFrom_single (scan_comma (' ' :: r)) rfl
  rw [hcomma]
  exact congrArg _ (visibleFrom_space rfl)

/-- The tokens of a text, wherever it stands, are free of faults, as moving a token changes no
fault. -/
theorem Trimmed.fault?_of_mem {v : Text} (h : Trimmed v) {k : Nat} {x : Token}
    (hx : x ∈ visibleFrom k v) : x.kind.fault? = none := by
  rw [visibleFrom_eq_map] at hx
  obtain ⟨y, hy, rfl⟩ := List.mem_map.1 hx
  exact h.faultless y hy

/-- The list has no faulty token if its values have none. Commas, blanks and the parenthesis add
none. -/
theorem fault?_closedList {vs : List Text} (hne : vs ≠ []) (h : ∀ v ∈ vs, Trimmed v) (k : Nat) :
    ∀ x ∈ visibleFrom k (closedList vs), x.kind.fault? = none := by
  induction vs generalizing k with
  -- The induction is on the list of values, which has a first one.
  | nil => exact absurd rfl hne
  | cons v vs ih =>
      have hv := h v (List.mem_cons_self ..)
      cases vs with
      | nil =>
          rw [closedList_singleton, hv.visibleFrom_append rfl, visibleFrom_closing]
          exact List.forall_mem_append.2
            ⟨fun x hx => hv.fault?_of_mem hx, List.forall_mem_singleton.2 rfl⟩
      | cons w vs =>
          rw [closedList_cons_cons, hv.visibleFrom_append rfl, visibleFrom_separator]
          refine List.forall_mem_append.2 ⟨fun x hx => hv.fault?_of_mem hx, ?_⟩
          refine List.forall_mem_cons.2 ⟨rfl, ih (List.cons_ne_nil _ _) ?_ _⟩
          exact fun u hu => h u (List.mem_cons_of_mem _ hu)

/-- Such a text is read as a value wherever it stands, as long as a token is behind it that ends
values. -/
theorem Standalone.valueRange {v : Text} (h : Standalone v) (k : Nat) {t : Token} {us : List Token}
    (ht : isQuiet t.kind = true) :
    ValueRange nestingLimit (visibleFrom k v ++ t :: us) (visibleFrom k v) (t :: us) := by
  refine valueRange_iff.2 ⟨rfl, (h.passes ht).of_kinds ?_⟩
  rw [visibleFrom_eq_map, List.map_map]
  rfl

/-- The list of such texts, put behind any text, is read as a list of values that cover them. -/
theorem listed_closedList {vs : List Text} (hne : vs ≠ []) (h : ∀ v ∈ vs, Standalone v) (a : Text) :
    ∃ ws closing, closing.kind = .rightParen ∧
      Listed (ValueRange nestingLimit) (visibleFrom (Text.size a) (closedList vs)) ws [closing] ∧
      ws.map (covered (a ++ closedList vs)) = vs := by
  induction vs generalizing a with
  | nil => exact absurd rfl hne
  | cons v vs ih =>
      have hv := h v (List.mem_cons_self ..)
      cases vs with
      | nil =>
          rw [closedList_singleton, hv.visibleFrom_append rfl, visibleFrom_closing]
          exact ⟨_, _, rfl, .last (hv.valueRange _ rfl), by rw [List.map_singleton, hv.covered_eq]⟩
      | cons w vs =>
          -- The others stand behind this one, its comma and the blank.
          obtain ⟨ws, closing, hclosing, hlist, hcovered⟩ := ih (List.cons_ne_nil _ _)
            (fun u hu => h u (List.mem_cons_of_mem _ hu)) (a ++ (v ++ ", ".toList))
          have hplace : Text.size (a ++ (v ++ ", ".toList)) = Text.size a + Text.size v + 2 := by
            rw [Text.size_append, Text.size_append, ← Nat.add_assoc]
            rfl
          have htext : a ++ (v ++ ", ".toList) ++ closedList (w :: vs)
              = a ++ (v ++ ',' :: ' ' :: closedList (w :: vs)) := by
            simp
          rw [hplace] at hlist
          rw [htext] at hcovered
          rw [closedList_cons_cons, hv.visibleFrom_append rfl, visibleFrom_separator]
          refine ⟨_, closing, hclosing, .more (hv.valueRange _ rfl) rfl hlist, ?_⟩
          rw [List.map_cons, hv.covered_eq, hcovered]

/-! ### The statement that inserts values -/

/-- The statement that inserts the values, whatever they are and wherever they came from. -/
def insertionOf (values : List Text) : Text :=
  "INSERT INTO T VALUES (".toList ++ closedList values

/-- The statement is its words and the list. -/
theorem insertionOf_eq (vs : List Text) :
    insertionOf vs = "INSERT INTO T VALUES (".toList ++ closedList vs := rfl

/-- The tokens in front of the list, blanks included. -/
theorem tokens_front :
    tokens "INSERT INTO T VALUES".toList
      = [⟨.keyword .insert, "INSERT".toList, 0⟩, ⟨.whitespace, [' '], 6⟩,
          ⟨.keyword .into, "INTO".toList, 7⟩, ⟨.whitespace, [' '], 11⟩,
          ⟨.identifier ['T'], ['T'], 12⟩, ⟨.whitespace, [' '], 13⟩,
          ⟨.keyword .values, "VALUES".toList, 14⟩] := by
  decide +kernel

/-- The visible tokens in front of the list, found by evaluating the lexer on the fixed words. -/
theorem visibleTokens_front :
    visibleTokens "INSERT INTO T VALUES".toList
      = [⟨.keyword .insert, "INSERT".toList, 0⟩, ⟨.keyword .into, "INTO".toList, 7⟩,
          ⟨.identifier ['T'], ['T'], 12⟩, ⟨.keyword .values, "VALUES".toList, 14⟩] := by
  show (tokens _).filter Token.isVisible = _
  rw [tokens_front]
  rfl

/-- The words in front of the list begin and end with visible tokens. -/
theorem trimmed_front : Trimmed "INSERT INTO T VALUES".toList where
  faultless := by
    rw [Faultless, visibleTokens_front]
    simp only [List.forall_mem_cons]
    exact ⟨rfl, rfl, rfl, rfl, List.forall_mem_nil _⟩
  exists_first := ⟨⟨.keyword .insert, "INSERT".toList, 0⟩, by rw [tokens_front]; rfl, rfl⟩
  exists_last := ⟨⟨.keyword .values, "VALUES".toList, 14⟩, by rw [tokens_front]; rfl, rfl⟩

/-- Behind the words and the opening parenthesis the list begins, at byte 22. -/
theorem visibleTokens_insertionOf (vs : List Text) :
    visibleTokens (insertionOf vs)
      = visibleTokens "INSERT INTO T VALUES".toList
        ++ ⟨.leftParen, ['('], 21⟩ :: visibleFrom 22 (closedList vs) := by
  have hsplit : "INSERT INTO T VALUES (".toList = "INSERT INTO T VALUES".toList ++ [' ', '('] := by
    decide
  have hplace : 0 + Text.size "INSERT INTO T VALUES".toList + ' '.utf8Size = 21 := rfl
  have hopening : visibleFrom 21 ('(' :: closedList vs)
      = ⟨.leftParen, ['('], 21⟩ :: visibleFrom 22 (closedList vs) :=
    visibleFrom_single (scan_leftParen (closedList vs)) rfl
  rw [insertionOf_eq, hsplit, List.append_assoc, List.cons_append, List.cons_append,
    List.nil_append, visibleTokens, trimmed_front.visibleFrom_append rfl, visibleFrom_space rfl,
    hplace, hopening, visibleTokens]

/-- Texts without faulty tokens make no faulty token of the statement, as none of them can grow into
what follows. -/
theorem faultless_insertionOf {vs : List Text} (hne : vs ≠ []) (h : ∀ v ∈ vs, Trimmed v) :
    Faultless (insertionOf vs) := by
  rw [Faultless, visibleTokens_insertionOf]
  exact List.forall_mem_append.2 ⟨trimmed_front.faultless,
    List.forall_mem_cons.2 ⟨rfl, fault?_closedList hne h _⟩⟩

/-- The statement that inserts texts that are read as values has these values. -/
theorem parse_of_standalone {vs : List Text} (hne : vs ≠ []) (h : ∀ v ∈ vs, Standalone v) :
    parse (insertionOf vs) = .ok ⟨⟨some .insert, some ['T'], [], vs, [], false⟩, .none⟩ := by
  obtain ⟨ws, closing, hclosing, hlist, hcovered⟩ :=
    listed_closedList hne h "INSERT INTO T VALUES (".toList
  have hplace : Text.size "INSERT INTO T VALUES (".toList = 22 := rfl
  rw [hplace] at hlist
  have hfault := faultless_insertionOf hne fun v hv => (h v hv).toTrimmed
  have hword : InsertionWord (ValueRange nestingLimit) (visibleTokens (insertionOf vs))
      ⟨.insert, ⟨.identifier ['T'], ['T'], 12⟩, [], ws, [], false⟩ := by
    rw [visibleTokens_insertionOf, visibleTokens_front]
    exact .insert rfl rfl (.plain _) .none (.values rfl rfl hlist hclosing) .none .absent
  rw [parse_of_insertionWord hfault hword]
  simp only [Insertion.parts, insertionOf_eq, hcovered, List.map_nil]

/-- Values are self-contained: the values of any statement without problems, put between the
parentheses of an INSERT with commas between, are the values of the INSERT, which has no problems
either. -/
theorem parse_insertionOf {t : Text} {p : ParsedStatement} (h : parse t = .ok p)
    (hclean : p.isClean = true) (hvalues : p.statement.values ≠ []) :
    parse (insertionOf p.statement.values)
      = .ok ⟨⟨some .insert, some ['T'], [], p.statement.values, [], false⟩, .none⟩ :=
  parse_of_standalone hvalues fun _ hv => standalone_of_mem h hclean hv

/-- A comment inside of a value, and a value that ends in front of WHERE. -/
theorem parse_insertionOf_update :
    parse "UPDATE T SET A = 1 +/* c */X, B = F(2)||'y' WHERE C = 3".toList
        = .ok ⟨⟨some .update, some ['T'], [['A'], ['B']],
            ["1 +/* c */X".toList, "F(2)||'y'".toList], [], false⟩, .none⟩ ∧
      parse "INSERT INTO T VALUES (1 +/* c */X, F(2)||'y')".toList
        = .ok ⟨⟨some .insert, some ['T'], [], ["1 +/* c */X".toList, "F(2)||'y'".toList], [],
            false⟩, .none⟩ := by
  have hparse : parse "UPDATE T SET A = 1 +/* c */X, B = F(2)||'y' WHERE C = 3".toList
      = .ok ⟨⟨some .update, some ['T'], [['A'], ['B']],
          ["1 +/* c */X".toList, "F(2)||'y'".toList], [], false⟩, .none⟩ := by rfl
  -- The statement is put together from the values of the UPDATE.
  have htext : insertionOf ["1 +/* c */X".toList, "F(2)||'y'".toList]
      = "INSERT INTO T VALUES (1 +/* c */X, F(2)||'y')".toList := by
    simp [insertionOf_eq, closedList, List.intercalate]
  rw [← htext]
  exact ⟨hparse, parse_insertionOf hparse rfl (List.cons_ne_nil _ _)⟩

end GeneratedKeys
