import GeneratedKeys.Keys.Builder
import GeneratedKeys.Proofs.Token.Faultless
import GeneratedKeys.Proofs.Token.LastChar

/-!
# `GeneratedKeys.Proofs.Keys.Stripped`: the statement in front of an appended clause

A clause is appended to the text of a statement without the blanks and without the
semicolon at its end. The text is edited character by character, so what this does to the
tokens depends on the last token that is no blank:

* a semicolon is taken away,
* a line comment loses its tail but stays a line comment,
* any other token stays as it is, and a semicolon in front of a comment stays with it.

`keeps_strippedText` puts the three cases together.
-/

set_option autoImplicit false

namespace GeneratedKeys

open Scan

/-- The statement in front of an appended clause: without the blanks at its end, and then without
one semicolon. -/
def strippedText (sql : Text) : Text :=
  withoutSemicolon (Text.trimEnd sql)

/-- The last token that is no blank. A comment may be that token, and then it decides what is
stripped. -/
def lastUnspaced? (ts : List Token) : Option Token :=
  (ts.filter fun t => t.kind ≠ .whitespace).getLast?

/-- The visible tokens in front of an appended clause. Stripping the text takes away at most the
last of them, and only if it is a semicolon. -/
def strippedTokens (sql : Text) : List Token :=
  if (lastUnspaced? (tokens sql)).any (·.kind = .semicolon) then (visibleTokens sql).dropLast
  else visibleTokens sql

/-! ### Trimming behind a character that stays -/

/-- Trimming the end stops at a character that is no blank, and what stands in front of it is not
looked at. -/
theorem trimEnd_append_cons (u v : Text) {x : Char} (hx : isBlank x = false) :
    Text.trimEnd (u ++ x :: v) = u ++ x :: Text.trimEnd v := by
  simp only [Text.trimEnd, List.reverse_append, List.reverse_cons, List.append_assoc,
    List.dropWhile_append, List.singleton_append, List.dropWhile_cons_of_neg
      (show ¬ isBlank x = true by simp [hx])]
  split
  · next h => simp [List.isEmpty_iff.1 h]
  · simp

/-- Taking the semicolon away changes nothing in front of a character that is no semicolon. -/
theorem withoutSemicolon_append_cons (u v : Text) {x : Char} (hx : x ≠ ';') :
    withoutSemicolon (u ++ x :: v) = u ++ x :: withoutSemicolon v := by
  cases v with
  | nil => simp [withoutSemicolon, hx]
  | cons y v =>
      have hlast : (u ++ x :: y :: v).getLast? = (y :: v).getLast? := by
        rw [List.getLast?_append, List.getLast?_cons_cons]
        cases h : (y :: v).getLast? with
        | none => simp at h
        | some l => rfl
      rw [withoutSemicolon, withoutSemicolon, hlast]
      split
      · rw [List.dropLast_append_of_ne_nil (List.cons_ne_nil _ _), List.dropLast_cons_cons]
      · rfl

/-- Without its semicolon a text is a beginning of the text, so the places in it stay. -/
theorem isPrefix_withoutSemicolon (t : Text) : withoutSemicolon t <+: t := by
  rw [withoutSemicolon]
  split
  · exact List.dropLast_prefix t
  · exact List.prefix_refl t

/-- A trimmed text is a beginning of the text, so the places in it stay. -/
theorem isPrefix_trimEnd (t : Text) : Text.trimEnd t <+: t := by
  obtain ⟨blanks, -, ht⟩ := Text.exists_trimEnd_append t
  exact ⟨blanks, ht.symm⟩

/-! ### The last token that is no blank -/

/-- Among tokens all are blanks, or there is a last one that is none. -/
theorem exists_lastUnspaced (ts : List Token) :
    (∀ x ∈ ts, x.kind = .whitespace) ∨
      ∃ us x ws, ts = us ++ x :: ws ∧ x.kind ≠ .whitespace ∧ ∀ y ∈ ws, y.kind = .whitespace := by
  induction ts with
  | nil => exact Or.inl (by simp)
  | cons t ts ih =>
      rcases ih with hall | ⟨us, x, ws, rfl, hx, hws⟩
      · by_cases ht : t.kind = .whitespace
        · exact Or.inl (by simpa [ht] using hall)
        · exact Or.inr ⟨[], t, ts, rfl, ht, hall⟩
      · exact Or.inr ⟨t :: us, x, ws, rfl, hx, hws⟩

/-- A token in front of nothing but blanks is the last one that is no blank. -/
theorem lastUnspaced?_append {us ws : List Token} {x : Token} (hx : x.kind ≠ .whitespace)
    (hws : ∀ y ∈ ws, y.kind = .whitespace) : lastUnspaced? (us ++ x :: ws) = some x := by
  have hnil : ws.filter (fun t => t.kind ≠ .whitespace) = [] := by
    rw [List.filter_eq_nil_iff]
    intro y hy
    simp [hws y hy]
  rw [lastUnspaced?, List.filter_append, List.filter_cons_of_pos (by simpa using hx), hnil,
    List.getLast?_concat]

/-- A run of blanks consists of blanks, the first of them found by its scan and the others by the
run. -/
theorem isSpace_of_mem_text {k : Nat} {t : Text} {x : Token} (hx : x ∈ tokensFrom k t)
    (hkind : x.kind = .whitespace) {c : Char} (hc : c ∈ x.text) : isSpace c = true := by
  obtain ⟨start, d, u, rfl⟩ := exists_firstToken hx
  have hd := isSpace_of_whitespace hkind
  have hscan : scan d u = ⟨.whitespace, (u.takeWhile isSpace).length⟩ := by
    rw [scan, if_pos hd]
  simp only [firstToken, hscan, List.mem_cons] at hc
  rcases hc with rfl | hc
  · exact hd
  · exact mem_take_takeWhile hc

/-- A text whose tokens are blanks has no other characters, and trimming takes all of it away. -/
theorem isSpace_of_whitespaces {k : Nat} {t : Text}
    (h : ∀ x ∈ tokensFrom k t, x.kind = .whitespace) : ∀ c ∈ t, isSpace c = true := by
  intro c hc
  rw [← flatMap_text_tokensFrom k t, List.mem_flatMap] at hc
  obtain ⟨x, hx, hc⟩ := hc
  exact isSpace_of_mem_text hx (h x hx) hc

/-- What the scanner takes for a blank is trimmed as a blank too. -/
theorem isBlank_of_isSpace {c : Char} (h : isSpace c = true) : isBlank c = true := by
  rcases isSpace_iff.1 h with rfl | rfl | rfl | rfl | rfl <;> rfl

/-- Tokens that are runs of blanks are not visible, so leaving them out at the end changes no
visible token. -/
theorem filter_isVisible_of_whitespace {ws : List Token}
    (h : ∀ y ∈ ws, y.kind = .whitespace) : ws.filter Token.isVisible = [] := by
  rw [List.filter_eq_nil_iff]
  intro y hy
  simp [Token.isVisible, Token.isHidden, Token.channel, h y hy, TokenKind.channel]

/-! ### The three cases -/

/-- The visible tokens of the text, in front of a clause that starts on a line of its own. -/
structure Keeps (a : Text) (ts : List Token) : Prop where
  visible_eq : ∀ b : Text, visibleTokens (a ++ '\n' :: b) = ts ++ visibleFrom (Text.size a + 1) b
  stop_le : ∀ x ∈ ts, x.stop ≤ Text.size a

/-- A text that ends at a boundary keeps its tokens in front of a clause, since the line break
cannot go on with the last one. -/
theorem keeps_of_boundary {a r : Text} {ts : List Token} (h : Boundary 0 a r ts)
    (hfault : ∀ x ∈ ts, x.kind.fault? = none) : Keeps a (ts.filter Token.isVisible) := by
  constructor
  · intro b
    rw [visibleTokens, visibleFrom_swap h hfault rfl (Or.inl rfl) b, visibleFrom_space rfl,
      Nat.zero_add]
    rfl
  · intro x hx
    have hstop := h.stop_le (List.mem_filter.1 hx).1
    rwa [Nat.zero_add] at hstop

/-- A text that ends in a character other than a blank and a semicolon is not stripped. -/
theorem strippedText_of_solid {t u : Text} {l : Char} (ht : t = u ++ [l])
    (hl : isBlank l = false) (hsemicolon : l ≠ ';') : strippedText t = t := by
  rw [strippedText, ht, Text.trimEnd_append_singleton u l hl,
    withoutSemicolon_append_cons u [] hsemicolon]
  rfl

/-- Blanks at the end make no difference to the stripped text. -/
theorem strippedText_append_blanks {t w : Text} (hw : ∀ c ∈ w, isSpace c = true) :
    strippedText (t ++ w) = strippedText t := by
  rw [strippedText, Text.trimEnd_append_blank t w fun c hc => isBlank_of_isSpace (hw c hc)]
  rfl

/-- The token in front of two boundaries covers what lies between them. -/
theorem Boundary.exists_token {k : Nat} {l w : Text} {x : Token} (h : Boundary k l w [x]) :
    ∃ c t, l = c :: t ∧ x = firstToken k c (t ++ w) ∧ (scan c (t ++ w)).extra = t.length := by
  obtain ⟨c, t, rfl, rfl, hlen, hrest⟩ := h.exists_cons
  refine ⟨c, t, rfl, rfl, Nat.le_antisymm hlen ?_⟩
  exact List.drop_eq_nil_iff.1 hrest.eq_nil

/-- A line comment that loses its tail stays a line comment. The clause begins on a line of its own,
so the comment does not swallow it. -/
theorem keeps_of_lineComment {a t w : Text} {ts : List Token}
    (h : Boundary 0 a ('-' :: '-' :: t ++ w) ts) (hfault : ∀ x ∈ ts, x.kind.fault? = none)
    (hline : ∀ c ∈ t, isLineEnd c = false) :
    Keeps (strippedText (a ++ '-' :: '-' :: t)) (ts.filter Token.isVisible) := by
  -- The stripped text ends in a part of the comment.
  obtain ⟨v, hv, hstrip⟩ : ∃ v, v <+: t ∧
      strippedText (a ++ '-' :: '-' :: t) = a ++ '-' :: '-' :: v := by
    refine ⟨withoutSemicolon (Text.trimEnd t),
      (isPrefix_withoutSemicolon _).trans (isPrefix_trimEnd t), ?_⟩
    rw [strippedText, List.append_cons, trimEnd_append_cons _ _ rfl,
      withoutSemicolon_append_cons _ _ (by decide), ← List.append_cons]
  obtain ⟨v', rfl⟩ := hv
  rw [hstrip]
  -- What is cut off the comment is not missed by the tokens in front of it.
  have hcut : Boundary 0 a ('-' :: '-' :: v) ts := by
    refine Boundary.cut (r := v' ++ w) ?_
    simpa using h
  have hrun : v.takeWhile (fun c => !isLineEnd c) = v := by
    have hall : ∀ c ∈ v, (!isLineEnd c) = true := by
      intro c hc
      simp [hline c (List.mem_append_left v' hc)]
    have hself : (v ++ []).takeWhile (fun c => !isLineEnd c) = v ++ [] :=
      List.takeWhile_append_of_pos hall
    rwa [List.append_nil] at hself
  have hscan : scan '-' ('-' :: v) = ⟨.comment, 1 + v.length⟩ := by
    have hlineComment : scan '-' ('-' :: v) = lineComment ('-' :: v) := rfl
    rw [hlineComment, lineComment, List.drop_succ_cons, List.drop_zero, hrun]
  -- What is left is one token again, and a hidden one.
  have htokens : tokensFrom (Text.size a) ('-' :: '-' :: v)
      = [⟨.comment, '-' :: '-' :: v, Text.size a⟩] := by
    rw [tokensFrom_cons, firstToken, hscan, Nat.add_comm, List.take_succ_cons, List.take_length,
      List.drop_succ_cons, List.drop_length, tokensFrom_nil]
  have hself := boundary_self 0 (a ++ '-' :: '-' :: v)
  rw [hcut.tokens_eq, Nat.zero_add, htokens] at hself
  have hkeeps := keeps_of_boundary hself (by
    intro x hx
    rcases List.mem_append.1 hx with hx | hx
    · exact hfault x hx
    · rw [List.mem_singleton.1 hx]
      rfl)
  have hhidden : [(⟨.comment, '-' :: '-' :: v, Text.size a⟩ : Token)].filter Token.isVisible = [] :=
    rfl
  rwa [List.filter_append, hhidden, List.append_nil] at hkeeps

/-- A text that ends in a semicolon loses this token and keeps the others. -/
theorem keeps_of_semicolon {a w : Text} {ts : List Token} {x : Token}
    (h : Boundary 0 a (';' :: w) ts) (hfault : ∀ y ∈ ts, y.kind.fault? = none)
    (hx : x.kind = .semicolon) :
    Keeps (strippedText (a ++ [';'])) ((ts ++ [x]).filter Token.isVisible).dropLast := by
  have hstrip : strippedText (a ++ [';']) = a := by
    rw [strippedText, Text.trimEnd_append_singleton a ';' rfl, withoutSemicolon, if_pos (by simp),
      List.dropLast_concat]
  have hvisible : [x].filter Token.isVisible = [x] := by
    rw [List.filter_cons_of_pos (by simp [Token.isVisible, Token.isHidden, Token.channel, hx,
      TokenKind.channel])]
    rfl
  rw [hstrip, List.filter_append, hvisible, List.dropLast_concat]
  exact keeps_of_boundary h hfault

/-- A line comment begins with two dashes and does not contain the end of a line. -/
theorem exists_lineComment {c : Char} {t w : Text} (hc : isSpace c = false)
    (hdash : (c == '-' && nextIs (· == '-') (t ++ w)) = true)
    (hext : (scan c (t ++ w)).extra = t.length) :
    ∃ t', c = '-' ∧ t = '-' :: t' ∧ (∀ e ∈ t', isLineEnd e = false) ∧
      (scan c (t ++ w)).kind = .comment := by
  have hscan : scan c (t ++ w) = lineComment (t ++ w) := by
    rw [scan, if_neg (by simp [hc]), if_pos hdash]
  rw [Bool.and_eq_true, beq_iff_eq] at hdash
  rw [hscan] at hext ⊢
  cases t with
  | nil =>
      -- The second dash is a part of the comment.
      have hpos := lineComment_extra_pos ([] ++ w)
      rw [hext] at hpos
      cases hpos
  | cons d t =>
      have hd : d = '-' := by simpa [nextIs] using hdash.2
      subst hd
      refine ⟨t, hdash.1, rfl, ?_, rfl⟩
      simp only [lineComment, List.cons_append, List.drop_succ_cons, List.drop_zero,
        List.length_cons] at hext
      have hlen : ((t ++ w).takeWhile fun e => !isLineEnd e).length = t.length := by omega
      -- The comment goes on up to the end of a line, and the text `t` is as long as that.
      have hrun := takeWhile_cut (Nat.le_of_eq hlen)
      rw [← hrun] at hlen
      have hself := (List.takeWhile_prefix fun e => !isLineEnd e).eq_of_length hlen
      intro e he
      rw [← hself] at he
      have hnot := List.all_eq_true.1 List.all_takeWhile e he
      simpa using hnot

/-- What stands in front of an appended clause, if the text has no faulty token. -/
theorem keeps_strippedText {sql : Text} (hfault : Faultless sql) :
    Keeps (strippedText sql) (strippedTokens sql) := by
  rcases exists_lastUnspaced (tokens sql) with hall | ⟨us, x, ws, hsplit, hx, hws⟩
  · -- There is no other token than blanks.
    have hnone : lastUnspaced? (tokens sql) = none := by
      rw [lastUnspaced?, List.filter_eq_nil_iff.2 (by simpa using hall)]
      rfl
    have hstrip : strippedText ([] ++ sql) = strippedText [] :=
      strippedText_append_blanks (isSpace_of_whitespaces hall)
    rw [strippedTokens, hnone, visibleTokens, visibleFrom,
      show tokensFrom 0 sql = tokens sql from rfl, filter_isVisible_of_whitespace hall]
    rw [List.nil_append] at hstrip
    rw [hstrip]
    exact keeps_of_boundary (boundary_nil 0 []) (by simp)
  · obtain ⟨a, r, rfl, hbound, hrest⟩ := exists_boundary hsplit
    have hbehind : tokensFrom (0 + Text.size a) r = [x] ++ ws := hrest.symm
    obtain ⟨l, w, rfl, htoken, hblanks⟩ := exists_boundary hbehind
    -- Behind the last token that is no blank are blanks only.
    have hw : ∀ c ∈ w, isSpace c = true := by
      refine isSpace_of_whitespaces (k := 0 + Text.size a + Text.size l) ?_
      rwa [← hblanks]
    have hvisible : visibleTokens (a ++ (l ++ w)) = (us ++ [x]).filter Token.isVisible := by
      rw [visibleTokens, visibleFrom, show tokensFrom 0 _ = us ++ x :: ws from hsplit,
        List.append_cons, List.filter_append, filter_isVisible_of_whitespace hws, List.append_nil]
    have hlast : lastUnspaced? (tokens (a ++ (l ++ w))) = some x := by
      rw [hsplit, lastUnspaced?_append hx hws]
    have hus : ∀ y ∈ us, y.kind.fault? = none := by
      intro y hy
      exact hfault.of_mem (by rw [hsplit]; exact List.mem_append_left _ hy)
    have hxfault : x.kind.fault? = none := hfault.of_mem (by rw [hsplit]; simp)
    rw [strippedTokens, hlast, hvisible, ← List.append_assoc, strippedText_append_blanks hw]
    obtain ⟨c, t, rfl, hxeq, hext⟩ := htoken.exists_token
    -- The last token is the one that the scanner finds at its first character.
    have hkind : (scan c (t ++ w)).kind = x.kind := by rw [hxeq]; rfl
    have hc : isSpace c = false := by
      rw [Bool.eq_false_iff]
      intro hc
      rw [scan, if_pos hc] at hkind
      exact hx hkind.symm
    by_cases hdash : (c == '-' && nextIs (· == '-') (t ++ w)) = true
    · -- The last token is a line comment.
      obtain ⟨t, rfl, rfl, hline, hcomment⟩ := exists_lineComment hc hdash hext
      rw [hkind] at hcomment
      have hhidden : [x].filter Token.isVisible = [] := by
        simp [Token.isVisible, Token.isHidden, Token.channel, hcomment, TokenKind.channel]
      rw [if_neg (by simp [hcomment]), List.filter_append, hhidden, List.append_nil]
      exact keeps_of_lineComment hbound hus hline
    · rw [Bool.not_eq_true] at hdash
      -- Any other token ends in a character that is no blank, and in a semicolon only if it is one.
      obtain ⟨e, hend, hsolid⟩ := solid_scan hc hdash (by rw [hkind]; exact hxfault)
      rw [hext, List.take_left] at hend
      rw [hkind] at hsolid
      -- The semicolon is the one token that is stripped.
      by_cases hsemi : x.kind = .semicolon
      · obtain ⟨rfl, hzero⟩ := scan_semicolon (hkind.trans hsemi)
        have ht : t = [] := List.length_eq_zero_iff.1 (hext.symm.trans hzero)
        subst ht
        rw [if_pos (by simp [hsemi])]
        exact keeps_of_semicolon hbound hus hsemi
      · rw [if_neg (by simp [hsemi])]
        obtain ⟨u, hu⟩ := List.getLast?_eq_some_iff.1 hend
        rw [strippedText_of_solid (u := a ++ u) (l := e) (by rw [hu, List.append_assoc]) hsolid.1
          fun he => hsemi (hsolid.2.1 he)]
        refine keeps_of_boundary (hbound.append htoken) ?_
        intro y hy
        rcases List.mem_append.1 hy with hy | hy
        · exact hus y hy
        · rw [List.mem_singleton.1 hy]
          exact hxfault

end GeneratedKeys
