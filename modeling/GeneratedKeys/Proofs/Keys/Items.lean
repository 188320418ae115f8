import GeneratedKeys.Proofs.Reading.Reads
import GeneratedKeys.Proofs.Reading.Tests
import GeneratedKeys.Proofs.Token.Visible

/-!
# `GeneratedKeys.Proofs.Keys.Items`: the items of a clause

A clause asks for all columns by a star, or for columns by their stored names, which are
written between quotes. Every item is one token whatever the name is, so the clause is read
as it was written.

* `tokensFrom_items`: the tokens of the items with commas between.
* `kind_of_mem_items`: of which kinds they are, so none is faulty or hidden.
* `reads_items`: they are read as the columns of a RETURNING clause.
-/

set_option autoImplicit false

namespace GeneratedKeys

open Scan Rule Grammar Move

/-- What a clause asks for: all columns, or one by its stored name. Every clause that the program
makes from positions or from a table is a list of such items. -/
inductive Item where
  | all
  | column (name : Text)
  deriving DecidableEq, Repr

namespace Item

/-- The written form of an item. A column is quoted, whether its name needs it or not. -/
def text : Item → Text
  | all => ['*']
  | column name => Text.quote '"' name

/-- The kind of token that an item is. A column is always written between quotes, so it is a quoted
identifier with the name as its value. -/
def kind : Item → TokenKind
  | all => .star
  | column name => .quotedIdentifier name

/-- The token that an item is at a place. Each item is one token, since a star and a quoted name
are. -/
def token (i : Item) (k : Nat) : Token := ⟨i.kind, i.text, k⟩

end Item

/-- The token of a comma at a place, as it stands between two items. -/
def Token.commaAt (k : Nat) : Token := ⟨.comma, [','], k⟩

/-- The tokens of further items, each with a comma in front. The places are counted on from item to
item. -/
def furtherTokens : Nat → List Item → List Token
  | _, [] => []
  | k, i :: is =>
    .commaAt k :: i.token (k + 1) :: furtherTokens (k + 1 + Text.size i.text) is

/-- The tokens of the items of a clause that begins at byte `k`, with the commas between them. -/
def itemTokens (k : Nat) : List Item → List Token
  | [] => []
  | i :: is => i.token k :: furtherTokens (k + Text.size i.text) is

/-! ### Tokens -/

/-- A name between quotes is one token, whatever the name is. Inner quotes are doubled, so none of
them closes it. -/
theorem scan_quote (name : Text) {r : Text} (hr : nextIs (· == '"') r = false) :
    scan '"' (Text.double '"' name ++ ['"'] ++ r)
      = ⟨.quotedIdentifier name, (Text.double '"' name ++ ['"']).length⟩ := by
  have hquoted : ∀ t : Text, scan '"' t = quotedIdentifier t := fun t => rfl
  rw [hquoted, quotedIdentifier, List.append_assoc, List.singleton_append, inside?_double _ _ _ hr]
  show Lexeme.mk (.quotedIdentifier (Text.collapse '"' (Text.double '"' name))) _ = _
  rw [Text.collapse_double, List.length_append]
  rfl

/-- An item is one token, unless a quote follows it, which would be read as the second half of a
doubled one. -/
theorem tokensFrom_item (k : Nat) (i : Item) {r : Text} (hr : nextIs (· == '"') r = false) :
    tokensFrom k (i.text ++ r) = i.token k :: tokensFrom (k + Text.size i.text) r := by
  cases i with
  | all => exact tokensFrom_token (t := []) (scan_star r)
  | column name => exact tokensFrom_token (scan_quote name hr)

/-- A comma or the end is behind an item, so no name is continued. -/
theorem nextIs_further (is : List Item) :
    nextIs (· == '"') (is.flatMap fun i => ',' :: i.text) = false := by
  cases is <;> rfl

/-- The tokens of further items, one comma and one item at a time. -/
theorem tokensFrom_further (k : Nat) (is : List Item) :
    tokensFrom k (is.flatMap fun i => ',' :: i.text) = furtherTokens k is := by
  induction is generalizing k with
  | nil => rfl
  | cons i is ih =>
      have hcomma : ∀ r : Text, tokensFrom k (',' :: r) = .commaAt k :: tokensFrom (k + 1) r :=
        fun r => tokensFrom_token (t := []) (scan_comma r)
      rw [List.flatMap_cons, List.cons_append, hcomma, tokensFrom_item _ _ (nextIs_further is), ih]
      rfl

/-- Texts with commas between are the first one and then each of the others with a comma in front.
-/
theorem intercalate_cons (t : Text) (ts : List Text) :
    [','].intercalate (t :: ts) = t ++ ts.flatMap (',' :: ·) := by
  induction ts generalizing t with
  | nil => rw [List.intercalate_singleton, List.flatMap_nil, List.append_nil]
  | cons u ts ih =>
      rw [List.intercalate_cons_cons, ih, List.flatMap_cons, List.append_assoc]
      rfl

/-- The tokens of the items with commas between, at their places. Neither a comma nor a quote can
grow into the token behind it. -/
theorem tokensFrom_items (k : Nat) (is : List Item) :
    tokensFrom k ([','].intercalate (is.map Item.text)) = itemTokens k is := by
  cases is with
  | nil => rfl
  | cons i is =>
      rw [List.map_cons, intercalate_cons, List.flatMap_map,
        tokensFrom_item _ _ (nextIs_further is), tokensFrom_further]
      rfl

/-- A token of the items is one of them or a comma, so none of them is faulty and none is a
parenthesis. -/
theorem kind_of_mem_items {k : Nat} {is : List Item} {x : Token} (hx : x ∈ itemTokens k is) :
    x.kind = .comma ∨ ∃ i ∈ is, x.kind = i.kind := by
  -- The items behind the first one have their commas in front, and the induction is on them.
  have hfurther : ∀ (k : Nat) (is : List Item), x ∈ furtherTokens k is →
      x.kind = .comma ∨ ∃ i ∈ is, x.kind = i.kind := by
    intro k is hx
    induction is generalizing k with
    | nil => cases hx
    | cons i is ih =>
        rw [furtherTokens, List.mem_cons, List.mem_cons] at hx
        rcases hx with rfl | rfl | hx
        · exact Or.inl rfl
        · exact Or.inr ⟨i, List.mem_cons_self .., rfl⟩
        · exact (ih _ hx).imp_right fun ⟨j, hj, hkind⟩ => ⟨j, List.mem_cons_of_mem _ hj, hkind⟩
  cases is with
  | nil => cases hx
  | cons i is =>
      rw [itemTokens, List.mem_cons] at hx
      rcases hx with rfl | hx
      · exact Or.inr ⟨i, List.mem_cons_self .., rfl⟩
      · exact (hfurther _ is hx).imp_right fun ⟨j, hj, hkind⟩ =>
          ⟨j, List.mem_cons_of_mem _ hj, hkind⟩

/-- The tokens of items are not faulty, since every one of them is written by the program itself. -/
theorem fault?_of_mem_items {k : Nat} {is : List Item} {x : Token} (hx : x ∈ itemTokens k is) :
    x.kind.fault? = none := by
  rcases kind_of_mem_items hx with h | ⟨i, -, h⟩
  · rw [h]
    rfl
  · rw [h]
    cases i <;> rfl

/-- The tokens of items are visible: there is no blank and no comment among them. -/
theorem isVisible_of_mem_items {k : Nat} {is : List Item} {x : Token} (hx : x ∈ itemTokens k is) :
    x.isVisible = true := by
  rw [Token.isVisible, Token.isHidden, Token.channel]
  rcases kind_of_mem_items hx with h | ⟨i, -, h⟩
  · rw [h]
    rfl
  · rw [h]
    cases i <;> rfl

/-- All tokens of items are visible, so leaving out the hidden ones changes nothing. -/
theorem visibleFrom_items (k : Nat) (is : List Item) :
    visibleFrom k ([','].intercalate (is.map Item.text)) = itemTokens k is := by
  rw [visibleFrom, tokensFrom_items, List.filter_eq_self]
  exact fun x hx => isVisible_of_mem_items hx

/-! ### Reading -/

/-- The tokens of a clause that are items. The others are its commas. -/
def itemsAmong (ts : List Token) : List Token :=
  ts.filter fun t => t.kind ≠ .comma

/-- The notes that reading items leaves: one for each item, which keeps the token of the item. -/
def itemNotes (ts : List Token) : List Note :=
  ((itemsAmong ts).map fun t => [pass t]).map (Note.part .returning)

/-- An item is one of the items among the tokens. -/
theorem itemsAmong_item (i : Item) (k : Nat) (ts : List Token) :
    itemsAmong (i.token k :: ts) = i.token k :: itemsAmong ts := by
  cases i <;> rfl

/-- A comma is none of them, wherever it stands among the tokens. -/
theorem itemsAmong_comma (k : Nat) (ts : List Token) :
    itemsAmong (.commaAt k :: ts) = itemsAmong ts := rfl

/-- The items of a clause have the texts that were written, in the order of the request. -/
theorem texts_itemTokens (k : Nat) (is : List Item) :
    (itemsAmong (itemTokens k is)).map Token.text = is.map Item.text := by
  -- Further items are those behind their commas.
  have hfurther : ∀ (k : Nat) (is : List Item),
      (itemsAmong (furtherTokens k is)).map Token.text = is.map Item.text := by
    intro k is
    induction is generalizing k with
    | nil => rfl
    | cons i is ih =>
        rw [furtherTokens, itemsAmong_comma, itemsAmong_item, List.map_cons, List.map_cons, ih]
        rfl
  cases is with
  | nil => rfl
  | cons i is =>
      rw [itemTokens, itemsAmong_item, List.map_cons, List.map_cons, hfurther]
      rfl

/-- The notes of items cover the texts that were written, wherever in the statement the clause
stands. -/
theorem slice_itemNotes {t : Text} {k : Nat} {is : List Item}
    (h : ∀ x ∈ itemTokens k is, x ∈ visibleTokens t) :
    ((itemsAmong (itemTokens k is)).map fun x => [pass x]).map (fun run => (range run).slice t)
      = is.map Item.text := by
  have hslice : ∀ x ∈ itemsAmong (itemTokens k is), (range [pass x]).slice t = x.text := by
    intro x hx
    rw [range_pass, slice_of_mem (h x (List.mem_filter.1 hx).1)]
  rw [List.map_map, ← texts_itemTokens k is]
  exact List.map_congr_left hslice

/-- Only a comma passes a test behind an item, so an item is never taken for more than it is. -/
theorem passes_further {test : TokenKind → Bool} (htest : test .comma = false)
    (tests : List (TokenKind → Bool)) (k : Nat) (is : List Item) :
    State.passes (test :: tests) (furtherTokens k is) = false := by
  cases is with
  | nil => rfl
  | cons i is =>
      show (test .comma && _) = false
      rw [htest, Bool.false_and]

variable {n : Nat}

/-- One item of a clause is read as a column that is returned, in front of a comma or the end. -/
theorem reads_item (k j : Nat) (i : Item) (is : List Item) :
    Reads n returningItem (i.token k :: furtherTokens j is) [.pass (i.token k)]
      [.part .returning [.pass (i.token k)]] (furtherTokens j is) := by
  cases i with
  | all => exact .yes rfl (.record .take)
  | column name =>
      -- Behind a name is a comma or the end: no dot and no other name.
      have hname : Reads n column ((Item.column name).token k :: furtherTokens j is)
          [.pass ((Item.column name).token k)] [] (furtherTokens j is) :=
        .seq (.yes rfl .take) (.no (passes_further rfl _ j is) .empty)
      have halias : Reads n aliasName (furtherTokens j is) [] [] (furtherTokens j is) :=
        .no (passes_further rfl [] j is) (.no (passes_further rfl [] j is) .empty)
      exact .no rfl (.together (.seq (.record hname) halias))

/-- Further items are read by the repetition behind the first one, a comma and an item in each
round. -/
theorem reads_further (k : Nat) (is : List Item) :
    Reads n (.repeatWhile (isA .comma) (.seq .take returningItem)) (furtherTokens k is)
      ((furtherTokens k is).map .pass) (itemNotes (furtherTokens k is)) [] := by
  induction is generalizing k with
  | nil => exact .stop rfl
  | cons i is ih =>
      have hitem := reads_item (n := n) (k + 1) (k + 1 + Text.size i.text) i is
      rw [furtherTokens, itemNotes, itemsAmong_comma, itemsAmong_item]
      exact .again rfl (.seq .take hitem) (ih _)

/-- The items are read as the columns of a RETURNING clause, without repairs, up to the end of the
text. -/
theorem reads_items (k : Nat) {is : List Item} (h : is ≠ []) :
    Reads n (separated returningItem) (itemTokens k is) ((itemTokens k is).map .pass)
      (itemNotes (itemTokens k is)) [] := by
  cases is with
  | nil => exact absurd rfl h
  | cons i is =>
      rw [itemTokens, itemNotes, itemsAmong_item]
      exact .seq (reads_item k _ i is) (reads_further _ is)

end GeneratedKeys
