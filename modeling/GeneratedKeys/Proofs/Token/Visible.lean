import GeneratedKeys.Proofs.Token.Boundary

/-!
# `GeneratedKeys.Proofs.Token.Visible`: the visible tokens of an edited text

A statement is edited as a text: something is cut out of it or put behind it. What happens
to its visible tokens, those that are neither blanks nor comments, follows from where the
cut lies.

* `tokensFrom_token`, `visibleFrom_token`: a text that begins with a token.
* `visibleFrom_blanks`: leading blanks only move the visible tokens.
* `visibleFrom_swap`: putting another text behind a boundary that begins with a blank keeps
  the visible tokens before it. A line comment in front of the boundary must be ended by what
  was there or by the blank.
-/

set_option autoImplicit false

namespace GeneratedKeys

open Scan

/-- Whether a token is neither a blank nor a comment. Faulty tokens are visible, though the grammar
does not read them. -/
def Token.isVisible (t : Token) : Bool := !t.isHidden

/-- What of a token does not depend on its place. Two texts with the same faces are read alike. -/
def Token.face (t : Token) : TokenKind × Text := (t.kind, t.text)

/-- The visible tokens of a text that starts at byte `k`. The general start makes it possible to
take a text apart. -/
def visibleFrom (k : Nat) (t : Text) : List Token :=
  (tokensFrom k t).filter Token.isVisible

/-- The visible tokens of a text. These are the ones that its meaning depends on, together with
their order. -/
def visibleTokens (t : Text) : List Token := visibleFrom 0 t

/-- An empty text has no visible token. -/
@[simp] theorem visibleFrom_nil (k : Nat) : visibleFrom k [] = [] := rfl

/-- A text that begins with a token of a known length. Its other tokens are those of what is left,
counted from behind it. -/
theorem tokensFrom_token {k : Nat} {kind : TokenKind} {c : Char} {t r : Text}
    (hscan : scan c (t ++ r) = ⟨kind, t.length⟩) :
    tokensFrom k (c :: t ++ r) = ⟨kind, c :: t, k⟩ :: tokensFrom (k + Text.size (c :: t)) r := by
  have hfirst : firstToken k c (t ++ r) = ⟨kind, c :: t, k⟩ := by
    rw [firstToken, hscan, List.take_left]
  rw [List.cons_append, tokensFrom_cons, hfirst, hscan, List.drop_left]
  rfl

/-- A text that begins with a visible token. The statement is that of `tokensFrom_token` with the
hidden tokens left out. -/
theorem visibleFrom_token {k : Nat} {kind : TokenKind} {c : Char} {t r : Text}
    (hscan : scan c (t ++ r) = ⟨kind, t.length⟩)
    (hvisible : (⟨kind, c :: t, k⟩ : Token).isVisible = true) :
    visibleFrom k (c :: t ++ r) = ⟨kind, c :: t, k⟩ :: visibleFrom (k + Text.size (c :: t)) r := by
  rw [visibleFrom, tokensFrom_token hscan, List.filter_cons_of_pos hvisible]
  rfl

/-- A text that begins with a visible token of one character, which is the case of punctuation. -/
theorem visibleFrom_single {k : Nat} {kind : TokenKind} {c : Char} {r : Text}
    (hscan : scan c r = ⟨kind, 0⟩) (hvisible : (⟨kind, [c], k⟩ : Token).isVisible = true) :
    visibleFrom k (c :: r) = ⟨kind, [c], k⟩ :: visibleFrom (k + c.utf8Size) r :=
  visibleFrom_token (t := []) hscan hvisible

/-! ### Blanks -/

/-- A run of blanks in front is one token, which is not visible. -/
theorem visibleFrom_cons_space {k : Nat} {c : Char} {t : Text} (hc : isSpace c = true) :
    visibleFrom k (c :: t)
      = visibleFrom (k + Text.size (c :: t.takeWhile isSpace)) (t.dropWhile isSpace) := by
  have hscan : scan c t = ⟨.whitespace, (t.takeWhile isSpace).length⟩ := by
    rw [scan, if_pos hc]
  have htake := take_length_takeWhile isSpace t
  have hhidden : (firstToken k c t).isVisible = false := by
    simp only [firstToken, hscan]
    rfl
  have hstop : (firstToken k c t).stop = k + Text.size (c :: t.takeWhile isSpace) := by
    simp only [firstToken, hscan, htake, Token.stop]
  rw [visibleFrom, tokensFrom_cons, List.filter_cons_of_neg (by simp [hhidden]), hstop, hscan,
    drop_length_takeWhile]
  rfl

/-- So the visible tokens are those behind the blanks in front, if there are any. -/
theorem visibleFrom_dropWhile (k : Nat) (t : Text) :
    visibleFrom k t
      = visibleFrom (k + Text.size (t.takeWhile isSpace)) (t.dropWhile isSpace) := by
  cases t with
  | nil => rfl
  | cons c t =>
      by_cases hc : isSpace c = true
      · rw [visibleFrom_cons_space hc, List.takeWhile_cons_of_pos hc,
          List.dropWhile_cons_of_pos hc]
      · rw [List.takeWhile_cons_of_neg hc, List.dropWhile_cons_of_neg hc]
        rfl

/-- A leading blank only moves the visible tokens, by the size of its character. -/
theorem visibleFrom_space {k : Nat} {c : Char} {t : Text} (hc : isSpace c = true) :
    visibleFrom k (c :: t) = visibleFrom (k + c.utf8Size) t := by
  rw [visibleFrom_cons_space hc, visibleFrom_dropWhile (k + c.utf8Size) t, Text.size_cons,
    Nat.add_assoc]

/-- Blanks in front of a text move its visible tokens by their size. -/
theorem visibleFrom_blanks {k : Nat} {w : Text} (hw : ∀ c ∈ w, isSpace c = true) (t : Text) :
    visibleFrom k (w ++ t) = visibleFrom (k + Text.size w) t := by
  induction w generalizing k with
  | nil => rfl
  | cons c w ih =>
      rw [List.cons_append, visibleFrom_space (hw c (List.mem_cons_self ..)),
        ih fun d hd => hw d (List.mem_cons_of_mem c hd), Text.size_cons, Nat.add_assoc]

/-- Moving the beginning of a text moves its visible tokens, as it moves all of them alike. -/
theorem visibleFrom_add (n k : Nat) (t : Text) :
    visibleFrom (k + n) t = (visibleFrom k t).map (Token.shift n) := by
  rw [visibleFrom, visibleFrom, tokensFrom_add, List.filter_map]
  rfl

/-- The tokens of a text that starts elsewhere are its tokens, moved. -/
theorem tokensFrom_eq_map (k : Nat) (t : Text) :
    tokensFrom k t = (tokens t).map (Token.shift k) := by
  rw [tokens, ← tokensFrom_add, Nat.zero_add]

/-- And so are the visible ones: those at byte `k` are those at the beginning, moved. -/
theorem visibleFrom_eq_map (k : Nat) (t : Text) :
    visibleFrom k t = (visibleTokens t).map (Token.shift k) := by
  rw [visibleTokens, ← visibleFrom_add, Nat.zero_add]

/-! ### The places of visible tokens -/

/-- Every visible token stops before the next one starts. Between the two there may be hidden ones.
-/
theorem pairwise_visibleTokens (t : Text) :
    (visibleTokens t).Pairwise fun x y => x.stop ≤ y.start :=
  (pairwise_tokensFrom 0 t).filter _

/-- Every token has bytes, the visible ones among them. -/
theorem start_lt_stop_of_mem {t : Text} {x : Token} (h : x ∈ visibleTokens t) :
    x.start < x.stop :=
  start_lt_stop (List.mem_filter.1 h).1

/-- A visible token does not begin with the end of a line. -/
theorem not_isLineEnd_of_isVisible {k : Nat} {c : Char} {t : Text}
    (h : (firstToken k c t).isVisible = true) : isLineEnd c = false := by
  rw [← Bool.not_eq_true]
  intro hc
  have hspace : isSpace c = true := by
    simp only [isLineEnd, Bool.or_eq_true, beq_iff_eq] at hc
    rcases hc with rfl | rfl <;> rfl
  have hkind : (firstToken k c t).kind = .whitespace := by
    rw [firstToken, scan, if_pos hspace]
  rw [Token.isVisible, Token.isHidden, Token.channel, hkind] at h
  cases h

/-- The place of a visible token in its text: what stands in front of it, what stands behind, and
that a boundary is between. -/
theorem exists_visible {t : Text} {vs ws : List Token} {x : Token}
    (h : visibleTokens t = vs ++ x :: ws) :
    ∃ a r ts, t = a ++ (x.text ++ r) ∧ Boundary 0 a (x.text ++ r) ts ∧
      ts.filter Token.isVisible = vs ∧ x.start = Text.size a ∧
      (∃ c u, x.text = c :: u ∧ isLineEnd c = false) ∧ ws = visibleFrom x.stop r := by
  -- Hidden tokens may stand in front of the visible one; the boundary is behind them.
  obtain ⟨us, us', hsplit, hvs, hrest⟩ := List.filter_eq_append_iff.1 h
  obtain ⟨hidden, others, rfl, hhidden, hx, hws⟩ := List.filter_eq_cons_iff.1 hrest
  rw [← List.append_assoc] at hsplit
  obtain ⟨a, c, u, rfl, hbound, rfl, hothers⟩ := exists_place hsplit
  have htext : c :: u = (firstToken (Text.size a) c u).text ++ u.drop (scan c u).extra := by
    rw [firstToken, List.cons_append, List.take_append_drop]
  rw [htext] at hbound
  refine ⟨a, u.drop (scan c u).extra, us ++ hidden, by rw [← htext], hbound, ?_, rfl, ?_, ?_⟩
  · rw [List.filter_append, hvs, List.filter_eq_nil_iff.2 hhidden, List.append_nil]
  · exact ⟨c, _, rfl, not_isLineEnd_of_isVisible hx⟩
  · rw [← hws, hothers]
    rfl

/-- A visible token covers its text, so what is kept of it can be told from its place. -/
theorem slice_of_mem {t : Text} {x : Token} (h : x ∈ visibleTokens t) :
    x.span.slice t = x.text :=
  slice_of_mem_tokens (List.mem_filter.1 h).1

/-! ### Another text behind a boundary -/

/-- A line comment takes everything up to the end of the line. -/
theorem length_lt_lineComment {t r : Text} {e : Char} (ht : t ≠ [])
    (hall : (lineComment t).extra = t.length) (he : isLineEnd e = false) :
    t.length < (lineComment (t ++ e :: r)).extra := by
  cases t with
  | nil => exact absurd rfl ht
  | cons c t =>
      simp only [lineComment, List.cons_append, List.drop_succ_cons, List.drop_zero,
        List.length_cons] at hall ⊢
      have hrun : (t.takeWhile fun c => !isLineEnd c).length = t.length := by omega
      rw [List.takeWhile_append, if_pos hrun,
        List.takeWhile_cons_of_pos (by simp [he]), List.length_append, List.length_cons]
      omega

/-- The first token in front of a boundary, with another text behind the boundary. -/
theorem scan_swap {c d : Char} {t r : Text} (hlen : (scan c (t ++ r)).extra ≤ t.length)
    (hfault : (scan c (t ++ r)).kind.fault? = none) (hd : isSpace d = true)
    (hline : isLineEnd d = true ∨ ∃ e r', r = e :: r' ∧ isLineEnd e = false)
    (hblank : ¬ (isSpace c = true ∧ (scan c t).extra = t.length)) (b : Text) :
    scan c (t ++ d :: b) = scan c (t ++ r) := by
  have hcut : scan c t = scan c (t ++ r) := scan_cut hlen
  rw [← hcut] at hfault ⊢
  refine scan_seal (isSealing_of_isSpace hd) b hfault fun hall => ?_
  have hc : isSpace c = false := by
    rw [Bool.eq_false_iff]
    exact fun hc => hblank ⟨hc, hall⟩
  -- It is no blank that would go on, so only a line comment is left.
  refine ⟨hc, fun hdash => ?_⟩
  rcases hline with hline | ⟨e, r', rfl, he⟩
  · exact hline
  · -- A line comment that ends here would have gone on with `e`.
    have hscan : ∀ u : Text, (c == '-' && nextIs (· == '-') u) = true →
        scan c u = lineComment u :=
      fun u hu => by rw [scan, if_neg (by simp [hc]), if_pos hu]
    have hne : t ≠ [] := by
      rintro rfl
      simp [nextIs] at hdash
    have hdash' : (c == '-' && nextIs (· == '-') (t ++ e :: r')) = true := by
      rwa [nextIs_cut (List.length_pos_iff.2 hne)]
    rw [hscan t hdash] at hall
    rw [hscan _ hdash'] at hlen
    exact absurd hlen (Nat.not_le.2 (length_lt_lineComment hne hall he))

/-- A text that begins with a blank changes no visible token before the boundary. A line
comment in front of the boundary is ended by what was there, or by the blank. -/
theorem visibleFrom_swap {k : Nat} {a r : Text} {ts : List Token} (h : Boundary k a r ts)
    (hfault : ∀ x ∈ ts, x.kind.fault? = none) {d : Char} (hd : isSpace d = true)
    (hline : isLineEnd d = true ∨ ∃ e r', r = e :: r' ∧ isLineEnd e = false) (b : Text) :
    visibleFrom k (a ++ d :: b)
      = ts.filter Token.isVisible ++ visibleFrom (k + Text.size a) (d :: b) := by
  induction ts generalizing k a with
  | nil =>
      cases h.eq_nil
      rfl
  | cons x ts ih =>
      obtain ⟨c, t, rfl, rfl, hlen, hrest⟩ := h.exists_cons
      have hcut : scan c t = scan c (t ++ r) := scan_cut hlen
      have hkind : (scan c (t ++ r)).kind.fault? = none := hfault _ (List.mem_cons_self ..)
      by_cases hblank : isSpace c = true ∧ (scan c t).extra = t.length
      · -- The text before the boundary is one run of blanks, which the blank goes on with.
        obtain ⟨hc, hall⟩ := hblank
        have hscan : ∀ u : Text, scan c u = ⟨.whitespace, (u.takeWhile isSpace).length⟩ :=
          fun u => by rw [scan, if_pos hc]
        rw [← hcut, hall, List.drop_length] at hrest
        cases hrest.eq_nil_of_nil
        rw [hscan] at hall
        have hrun : t.takeWhile isSpace = t := (List.takeWhile_prefix _).eq_of_length hall
        have hspaces : ∀ e ∈ c :: t, isSpace e = true := by
          intro e he
          rcases List.mem_cons.1 he with rfl | he
          · exact hc
          · rw [← hrun] at he
            exact List.all_eq_true.1 List.all_takeWhile e he
        have hhidden : (firstToken k c (t ++ r)).isVisible = false := by
          simp only [firstToken, hscan]
          rfl
        rw [visibleFrom_blanks hspaces, List.filter_cons_of_neg (by simp [hhidden])]
        rfl
      · have hseal := scan_swap hlen hkind hd hline hblank b
        -- The first token stays, and the others stay by induction.
        have hfirst : firstToken k c (t ++ d :: b) = firstToken k c (t ++ r) :=
          firstToken_swap hseal hlen
        have hothers := ih hrest fun y hy => hfault y (List.mem_cons_of_mem _ hy)
        rw [stop_firstToken hlen, visibleFrom] at hothers
        rw [visibleFrom, List.cons_append, tokensFrom_cons, hfirst, hseal,
          List.drop_append_of_le_length hlen, List.filter_cons, List.filter_cons, hothers]
        split <;> rfl

end GeneratedKeys
