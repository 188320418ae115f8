import GeneratedKeys.Keys.ObjectName
import GeneratedKeys.Proofs.Keys.Items
import GeneratedKeys.Proofs.Token.Faultless
import GeneratedKeys.Proofs.Token.LastChar

/-!
# `GeneratedKeys.Proofs.Keys.Quoting`: quotations and their tokens

A name is written with each of its quotes doubled, the scanner looks for the first quote that
is not doubled, and the decoded name takes pairs of quotes as one. The three agree for every
name, be it empty, a run of quotes or one that ends in a quote.

* `text_of_quotedIdentifier`, `text_of_string`: a token with a decoded value is written as the
  quotation of that value.
* `face_itemTokens`: what the tokens of the items of a clause are, their places aside.
* `quotations_and_tokens`: listed quotations are read as the names, and a quoted token is the
  quotation of what it is read as.
-/

set_option autoImplicit false

namespace GeneratedKeys

open Scan

/-! ### From tokens to quotations -/

/-- A closed literal is the quotation of its decoded inside: decoding and quoting are inverse to
each other on it. -/
theorem quote_of_inside? {q : Char} {t s : Text} (h : inside? q t = some s) :
    q :: t.take (s.length + 1) = Text.quote q (Text.collapse q s) := by
  have hdouble : s = Text.double q (Text.collapse q s) := (inside?_eq_some h).1
  rw [take_inside h, Text.quote, ← hdouble]
  rfl

/-- A quoted identifier is written as the quotation of its name. The spelling of such a token is
therefore unique. -/
theorem text_of_quotedIdentifier {t d : Text} {x : Token} (hx : x ∈ tokens t)
    (h : x.kind = .quotedIdentifier d) : x.text = Text.quote '"' d := by
  obtain ⟨start, c, u, rfl⟩ := exists_firstToken hx
  obtain ⟨rfl, hscan⟩ := scan_quotedIdentifier (c := c) (t := u) h
  simp only [firstToken, hscan] at h ⊢
  cases hs : inside? '"' u with
  | none =>
      simp only [quotedIdentifier, hs] at h
      cases h
  | some s =>
      simp only [quotedIdentifier, hs] at h ⊢
      cases h
      exact quote_of_inside? hs

/-- A string that begins with a single quote is written as the quotation of its value. Strings
with a prefix may close otherwise. -/
theorem text_of_string {t d : Text} {x : Token} (hx : x ∈ tokens t) (h : x.kind = .string d)
    (hfirst : x.text.head? = some '\x27') : x.text = Text.quote '\x27' d := by
  obtain ⟨start, c, u, rfl⟩ := exists_firstToken hx
  have hc : c = '\x27' := Option.some.inj hfirst
  subst hc
  -- Behind a single quote the scanner reads a plain string.
  have hscan : scan '\x27' u = string u := rfl
  simp only [firstToken, hscan] at h ⊢
  cases hs : inside? '\x27' u with
  | none =>
      -- A string that is not closed is a faulty token and no string.
      simp only [string, hs] at h
      cases h
  | some s =>
      simp only [string, hs] at h ⊢
      cases h
      exact quote_of_inside? hs

/-! ### From quotations to tokens -/

/-- What the tokens of items are: the items, with commas between. Their places are left out. -/
theorem face_itemTokens (k : Nat) (is : List Item) :
    (itemTokens k is).map Token.face
      = (is.map fun i => (i.kind, i.text)).intersperse (.comma, [',']) := by
  -- The first item is carried along, since commas stand between items and not behind the last one.
  have hfurther : ∀ (j k : Nat) (i : Item) (is : List Item),
      (i.token j :: furtherTokens k is).map Token.face
        = ((i :: is).map fun i => (i.kind, i.text)).intersperse (.comma, [',']) := by
    intro j k i is
    induction is generalizing j k i with
    | nil => rfl
    | cons i' is ih =>
        rw [furtherTokens, List.map_cons, List.map_cons, ih]
        rfl
  cases is with
  | nil => rfl
  | cons i is => exact hfurther k _ i is

/-- The text of quotations with commas between, and nothing else between them. -/
def quotations (names : List Text) : Text :=
  [','].intercalate (names.map QuoteStrategy.doubleQuotes.quote)

/-- The tokens of quotations are those of as many columns in a clause. -/
theorem tokens_quotations (names : List Text) :
    tokens (quotations names) = itemTokens 0 (names.map .column) := by
  have htexts : names.map QuoteStrategy.doubleQuotes.quote
      = (names.map Item.column).map Item.text := by
    rw [List.map_map]
    rfl
  rw [quotations, htexts]
  exact tokensFrom_items 0 _

/-- Quotations have no faulty token, whatever the names are. Every one of them is closed, and
nothing else stands between. -/
theorem faultless_quotations (names : List Text) : Faultless (quotations names) := by
  intro x hx
  have hmem : x ∈ tokens (quotations names) := (List.mem_filter.1 hx).1
  rw [tokens_quotations] at hmem
  exact fault?_of_mem_items hmem

/-- Listed quotations are read as the names again, with commas between, and as nothing else: no
token is hidden and nothing is reported. The other way round, a quoted identifier is always
written as the quotation of its name, and a plain string as that of its value. -/
theorem quotations_and_tokens (names : List Text) (sql : Text) :
    ((Lexer.ofText (quotations names)).restAll.1.map Token.face
        = (names.map fun n => (.quotedIdentifier n, QuoteStrategy.doubleQuotes.quote n)).intersperse
            (.comma, [',']) ++ [(.eof, [])] ∧
      (Lexer.ofText (quotations names)).restVisible = (Lexer.ofText (quotations names)).restAll ∧
      (Lexer.ofText (quotations names)).restAll.2.problems = .none) ∧
    ∀ x ∈ (Lexer.ofText sql).restAll.1,
      (∀ d, x.kind = .quotedIdentifier d →
        x.span.slice sql = QuoteStrategy.doubleQuotes.quote d) ∧
      (∀ d, x.kind = .string d → (x.span.slice sql).head? = some '\x27' →
        x.span.slice sql = Text.quote '\x27' d) := by
  refine ⟨⟨?_, ?_, ?_⟩, ?_⟩
  · rw [Lexer.restAll_ofText, allTokens, List.map_append, tokens_quotations, face_itemTokens,
      List.map_map]
    rfl
  · have hvisible : ∀ x ∈ (Lexer.ofText (quotations names)).restAll.1, (!x.isHidden) = true := by
      intro x hx
      rcases Lexer.mem_restAll_iff.1 hx with hx | rfl
      · rw [tokens_quotations] at hx
        exact isVisible_of_mem_items hx
      · rfl
    exact Prod.ext (List.filter_eq_self.2 hvisible) rfl
  -- Without a faulty token the lexer records no problem.
  · have hnone := lexicalProblems_of_faultless (faultless_quotations names)
    show Diagnostics.none.append (lexicalProblems (tokens (quotations names))) = .none
    rw [hnone]
    rfl
  · intro x hx
    rcases Lexer.mem_restAll_iff.1 hx with hx | rfl
    · rw [slice_of_mem_tokens hx]
      exact ⟨fun d h => text_of_quotedIdentifier hx h, fun d h => text_of_string hx h⟩
    · -- The end is neither quoted nor a string.
      constructor <;> intro d h <;> cases h

/-- An empty name and one that ends in a quote are told apart, and so are the two kinds of quotes
behind one another. -/
theorem quotations_and_tokens_adjacent :
    (Lexer.ofText "\"\",\"a\"\"\"".toList).restAll.1.map Token.face
        = [(.quotedIdentifier [], "\"\"".toList), (.comma, ",".toList),
          (.quotedIdentifier "a\"".toList, "\"a\"\"\"".toList), (.eof, [])] ∧
      (Lexer.ofText "\"\",\"a\"\"\"".toList).restAll.2.problems = .none ∧
      Span.slice ⟨0, 7⟩ "'it''s'\"a\"\"\"".toList = Text.quote '\x27' "it's".toList ∧
      Span.slice ⟨7, 12⟩ "'it''s'\"a\"\"\"".toList
        = QuoteStrategy.doubleQuotes.quote "a\"".toList := by
  obtain ⟨⟨hfaces, -, hnone⟩, htokens⟩ :=
    quotations_and_tokens [[], "a\"".toList] "'it''s'\"a\"\"\"".toList
  have hstring : (⟨.string "it's".toList, "'it''s'".toList, 0⟩ : Token)
      ∈ (Lexer.ofText "'it''s'\"a\"\"\"".toList).restAll.1 := by decide +kernel
  have hquoted : (⟨.quotedIdentifier "a\"".toList, "\"a\"\"\"".toList, 7⟩ : Token)
      ∈ (Lexer.ofText "'it''s'\"a\"\"\"".toList).restAll.1 := by decide +kernel
  exact ⟨hfaces, hnone, (htokens _ hstring).2 _ rfl rfl, (htokens _ hquoted).1 _ rfl⟩

end GeneratedKeys
