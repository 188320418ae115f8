import GeneratedKeys.Proofs.Keys.Quoting
import GeneratedKeys.Proofs.Keys.Untouched
import GeneratedKeys.Proofs.Statement.TableName
import GeneratedKeys.Proofs.Token.Recased

/-!
# `GeneratedKeys.Proofs.Keys.Identity`: keys of tables and the tables that are meant

The columns of a table are looked up by the normal form of its name as written, which is found
from the text alone: blanks are trimmed, quotes are taken off, words are put in capitals. The
scanner has decoded the same name by rules of its own. Both agree, so the normal form is a key of
the table that is meant. Only the empty quoted name is not told apart: its two quotes are taken
for the name themselves.

* `normalize_of_quotedIdentifier`, `normalize_of_identifier`: the key of a name token.
* `normalize_text_eq_iff`: when two name tokens have one key.
* `keys_identify_tables`: statements look up their tables under one key exactly if they mean the
  same one.
-/

set_option autoImplicit false

namespace GeneratedKeys

open Scan

/-! ### Keys of name tokens -/

/-- A quoted name has its decoded form as key, in its own letter case. The lexer and the
normalization decode quotes in the same way. -/
theorem normalize_of_quotedIdentifier {t d : Text} {x : Token} (hx : x ∈ tokens t)
    (h : x.kind = .quotedIdentifier d) (hd : d ≠ []) : ObjectName.normalize x.text = d := by
  rw [text_of_quotedIdentifier hx h]
  exact ObjectName.normalize_quote d hd

/-- An identifier is what a word may be, and its token carries the word. -/
theorem text_of_identifier {t name : Text} {x : Token} (hx : x ∈ tokens t)
    (h : x.kind = .identifier name) :
    x.text = name ∧ ∃ c u, name = c :: u ∧ isNameStart c = true ∧ ∀ d ∈ u, isNamePart d = true := by
  obtain ⟨start, c, u, rfl⟩ := exists_firstToken hx
  obtain ⟨hstart, hscan⟩ := scan_identifier (c := c) (t := u) h
  rw [text_of_word hscan]
  simp only [firstToken, hscan, word] at h
  split at h
  · cases h
  · cases h
    exact ⟨rfl, c, _, rfl, hstart, fun d hd => List.all_eq_true.1 List.all_takeWhile d hd⟩

/-- No word begins with a quote, in capitals neither, so the key of a word is never taken for a
quoted name. -/
theorem toUpper_ne_quote {c : Char} (h : isNameStart c = true) : c.toUpper ≠ '"' := by
  intro hc
  have hlower : c.toLower = '"' := by
    rw [← toLower_toUpper, hc]
    rfl
  rw [(toLower_eq_iff (by decide)).1 hlower] at h
  cases h

/-- A word has itself in capitals as key. All of its letters are ASCII, so capitals mean the same
for the lexer and for the key. -/
theorem normalize_of_identifier {t name : Text} {x : Token} (hx : x ∈ tokens t)
    (h : x.kind = .identifier name) :
    ObjectName.normalize x.text = x.text.map Char.toUpper := by
  obtain ⟨htext, c, u, rfl, hstart, hparts⟩ := text_of_identifier hx h
  rw [htext]
  -- A word consists of printed characters only, so it is not trimmed and has ASCII capitals.
  have hprinted : ∀ d ∈ c :: u, isPrinted d = true := by
    intro d hd
    rcases List.mem_cons.1 hd with rfl | hd
    · exact isPrinted_of_isNameStart hstart
    · exact isPrinted_of_isNamePart (hparts d hd)
  have htrim : Text.trim (c :: u) = c :: u :=
    Text.trim_eq_self fun d hd => isBlank_of_isPrinted (hprinted d hd)
  have hplain : ObjectName.inside? (c :: u) = none := by
    refine if_neg ?_
    rintro ⟨-, hquote, -⟩
    rw [Option.some.inj hquote] at hstart
    cases hstart
  rw [ObjectName.normalize, htrim, hplain]
  refine Text.upper_ascii _ fun d hd => ?_
  have high := (isPrinted_iff.1 (hprinted d hd)).2.1
  omega

/-! ### Two names -/

/-- Two names of these kinds mean the same object: words do in any letter case, quoted names as
they are decoded, and a quoted name means what is written as a word if it is the word in
capitals. -/
inductive SameObject : TokenKind → TokenKind → Prop where
  | words {s t : Text} : Text.sameIgnoringCase s t = true →
      SameObject (.identifier s) (.identifier t)
  | quoted (d : Text) : SameObject (.quotedIdentifier d) (.quotedIdentifier d)
  | wordQuoted (s : Text) : SameObject (.identifier s) (.quotedIdentifier (s.map Char.toUpper))
  | quotedWord (s : Text) : SameObject (.quotedIdentifier (s.map Char.toUpper)) (.identifier s)

variable {t t' : Text} {x x' : Token}

/-- A word and a quoted name have one key exactly if the decoded name is the word in capitals. -/
theorem normalize_word_quoted_iff (hx : x ∈ tokens t) (hx' : x' ∈ tokens t') {s d : Text}
    (h : x.kind = .identifier s) (h' : x'.kind = .quotedIdentifier d) :
    ObjectName.normalize x.text = ObjectName.normalize x'.text ↔ s.map Char.toUpper = d := by
  have hkey := normalize_of_identifier hx h
  obtain ⟨htext, c, u, rfl, hstart, -⟩ := text_of_identifier hx h
  rw [hkey, htext]
  by_cases hd : d = []
  · -- The key of the empty name begins with a quote, and no word does.
    subst hd
    rw [text_of_quotedIdentifier hx' h']
    constructor
    · intro heq
      exact absurd (List.cons.inj heq).1 (toUpper_ne_quote hstart)
    · intro heq
      cases heq
  -- The key of any other quoted name is the decoded name.
  · rw [normalize_of_quotedIdentifier hx' h' hd]

/-- Two names have one key exactly if they mean the same object. Of two quoted names neither may
be empty. -/
theorem normalize_text_eq_iff (hx : x ∈ tokens t) (hx' : x' ∈ tokens t') (hname : Name x.kind)
    (hname' : Name x'.kind)
    (hempty : ∀ d d', x.kind = .quotedIdentifier d → x'.kind = .quotedIdentifier d' →
      d ≠ [] ∧ d' ≠ []) :
    ObjectName.normalize x.text = ObjectName.normalize x'.text ↔ SameObject x.kind x'.kind := by
  generalize hkind : x.kind = kind at hname hempty
  generalize hkind' : x'.kind = kind' at hname' hempty
  cases hname with
  | plain s =>
      cases hname' with
      | plain s' =>
          -- Two words: their capitals are compared.
          have hword : x.text = s := (text_of_identifier hx hkind).1
          have hword' : x'.text = s' := (text_of_identifier hx' hkind').1
          rw [normalize_of_identifier hx hkind, normalize_of_identifier hx' hkind', hword, hword',
            Text.map_toUpper_eq_iff]
          constructor
          · exact fun h => .words h
          · intro h
            cases h with
            | words h => exact h
      | quoted d =>
          rw [normalize_word_quoted_iff hx hx' hkind hkind']
          constructor
          · rintro rfl
            exact .wordQuoted s
          · intro h
            cases h with
            | wordQuoted => rfl
  | quoted d =>
      cases hname' with
      | plain s =>
          rw [eq_comm, normalize_word_quoted_iff hx' hx hkind' hkind]
          constructor
          · rintro rfl
            exact .quotedWord s
          · intro h
            cases h with
            | quotedWord => rfl
      | quoted d' =>
          -- Two quoted names, neither of which is empty: what they decode to is compared.
          obtain ⟨hd, hd'⟩ := hempty d d' rfl rfl
          rw [normalize_of_quotedIdentifier hx hkind hd,
            normalize_of_quotedIdentifier hx' hkind' hd']
          constructor
          · rintro rfl
            exact .quoted d
          · intro h
            cases h with
            | quoted => rfl

/-- The empty name has the key of the name that is two quotes. -/
example : ObjectName.normalize (QuoteStrategy.doubleQuotes.quote [])
    = ObjectName.normalize (QuoteStrategy.doubleQuotes.quote ['"', '"']) := by decide

/-! ### Tables of statements -/

/-- The key of a name token is its decoded name or its word in capitals, and a stored name that
is quoted has itself as key. So the tables of two statements that are read without problems are
looked up under one key exactly if the statements mean the same table. -/
theorem keys_identify_tables :
    (∀ (sql : Text), ∀ x ∈ (Lexer.ofText sql).restAll.1,
      (∀ d, x.kind = .quotedIdentifier d → d ≠ [] →
        ObjectName.normalize (x.span.slice sql) = d) ∧
      ∀ name, x.kind = .identifier name →
        ObjectName.normalize (x.span.slice sql) = (x.span.slice sql).map Char.toUpper) ∧
    (∀ n : Text, n ≠ [] → ObjectName.normalize (QuoteStrategy.doubleQuotes.quote n) = n) ∧
    ∀ (sql sql' : Text) (p p' : ParsedStatement) (types types' : QueryTypes),
      parse sql = .ok p → p.isClean = true → parse sql' = .ok p' → p'.isClean = true →
      ∃ x x', IsTable sql p x ∧ IsTable sql' p' x' ∧
        ((∀ d d', x.kind = .quotedIdentifier d → x'.kind = .quotedIdentifier d' →
            d ≠ [] ∧ d' ≠ []) →
          (ObjectName.normalize (Builder.ofStatement sql types).table
              = ObjectName.normalize (Builder.ofStatement sql' types').table ↔
            SameObject x.kind x'.kind)) := by
  refine ⟨?_, ?_, ?_⟩
  · intro sql x hx
    rcases Lexer.mem_restAll_iff.1 hx with hx | rfl
    · rw [slice_of_mem_tokens hx]
      exact ⟨fun d h hd => normalize_of_quotedIdentifier hx h hd,
        fun name h => normalize_of_identifier hx h⟩
    · -- The end is no name.
      constructor <;> intro d h <;> cases h
  · exact fun n hn => ObjectName.normalize_quote n hn
  -- The table of a statement is a name token, so its key is that of the token.
  · intro sql sql' p p' types types' hparse hclean hparse' hclean'
    obtain ⟨x, hx⟩ := exists_isTable hparse hclean
    obtain ⟨x', hx'⟩ := exists_isTable hparse' hclean'
    refine ⟨x, x', hx, hx', fun hempty => ?_⟩
    rw [Builder.table_ofStatement hparse hclean hx.table_eq,
      Builder.table_ofStatement hparse' hclean' hx'.table_eq]
    exact normalize_text_eq_iff hx.mem hx'.mem hx.isName hx'.isName hempty

/-- A quoted name and a word for one table, and a name with a quote inside. -/
theorem keys_identify_tables_respelled :
    ObjectName.normalize (Builder.ofStatement "UPDATE \"SALES\" SET A = 1".toList .full).table
        = ObjectName.normalize (Builder.ofStatement "delete from Sales".toList .empty).table ∧
      ObjectName.normalize (Span.slice ⟨14, 20⟩ "DELETE FROM   \"a\"\"b\"".toList) = "a\"b".toList ∧
      ObjectName.normalize (Span.slice ⟨0, 4⟩ "a$_b".toList) = "A$_B".toList ∧
      ObjectName.normalize (QuoteStrategy.doubleQuotes.quote " ".toList) = " ".toList := by
  obtain ⟨htokens, hquote, htables⟩ := keys_identify_tables
  obtain ⟨x, x', hx, hx', hiff⟩ := htables "UPDATE \"SALES\" SET A = 1".toList
    "delete from Sales".toList _ _ .full .empty rfl rfl rfl rfl
  -- The tables are the tokens behind UPDATE and behind FROM.
  have htable : x = ⟨.quotedIdentifier "SALES".toList, "\"SALES\"".toList, 7⟩ :=
    hx.eq_of_place rfl (by decide +kernel)
  have htable' : x' = ⟨.identifier "Sales".toList, "Sales".toList, 12⟩ :=
    hx'.eq_of_place rfl (by decide +kernel)
  subst htable htable'
  have hquoted : (⟨.quotedIdentifier "a\"b".toList, "\"a\"\"b\"".toList, 14⟩ : Token)
      ∈ (Lexer.ofText "DELETE FROM   \"a\"\"b\"".toList).restAll.1 := by decide +kernel
  have hword : (⟨.identifier "a$_b".toList, "a$_b".toList, 0⟩ : Token)
      ∈ (Lexer.ofText "a$_b".toList).restAll.1 := by decide +kernel
  refine ⟨?_, (htokens _ _ hquoted).1 _ rfl (by decide), ?_, hquote _ (by decide)⟩
  · refine (hiff fun d d' _ h => ?_).2 (.quotedWord "Sales".toList)
    cases h
  · exact (htokens _ _ hword).2 _ rfl

end GeneratedKeys
