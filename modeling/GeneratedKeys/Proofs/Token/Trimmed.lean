import GeneratedKeys.Proofs.Reading.Parts
import GeneratedKeys.Proofs.Token.Spaced
import GeneratedKeys.Proofs.Token.Stretch

/-!
# `GeneratedKeys.Proofs.Token.Trimmed`: a part in another text

A text that begins and ends with visible tokens has the same tokens wherever it stands, in front
of a blank, a comma or a closing parenthesis: what stands in front of a token does not matter, and
the last one is closed. The parts of a statement are such texts, so they keep their tokens when
they are put into another statement.

* `Trimmed.visibleFrom_append`: such a text in front of something else.
* `Trimmed.covered_eq`: its tokens cover it there.
* `trimmed_covered`: what a stretch of visible tokens covers is such a text, with these tokens.
-/

set_option autoImplicit false

namespace GeneratedKeys

open Scan

/-- Tokens of which the last one is visible stay as they are if a blank, a comma or a closing
parenthesis is put behind their text. -/
theorem Boundary.seal {k : Nat} {v : Text} {ts : List Token} {d : Char}
    (h : Boundary k v [] ts) (hvisible : ∀ l, ts.getLast? = some l → l.isVisible = true)
    (hfault : ∀ x ∈ ts, x.kind.fault? = none) (hd : isSealing d = true) (b : Text) :
    Boundary k v (d :: b) ts := by
  induction ts generalizing k v with
  | nil =>
      cases h.eq_nil
      exact boundary_nil k _
  | cons x ts ih =>
      obtain ⟨c, t, rfl, rfl, hlen, hrest⟩ := h.exists_cons
      have hkind := hfault _ (List.mem_cons_self ..)
      -- The first token is found again with the character behind the text.
      have hstays : scan c (t ++ d :: b) = scan c (t ++ []) := by
        rw [List.append_nil] at hlen hrest hkind ⊢
        by_cases hall : (scan c t).extra = t.length
        · -- Nothing is left behind the first token, so it is the last one.
          rw [hall, List.drop_length] at hrest
          obtain rfl := hrest.eq_nil_of_nil
          have hlast := hvisible _ rfl
          rw [List.append_nil] at hlast
          have hself : scan c t = ⟨(firstToken k c t).kind, t.length⟩ := by
            rw [← hall]
            rfl
          rw [hself]
          exact scan_spaced hself hlast hkind hd b
        · exact scan_seal hd b hkind fun hend => absurd hend hall
      refine .cons_swap hstays hlen (ih hrest ?_ fun y hy => hfault y (List.mem_cons_of_mem _ hy))
      intro l hl
      refine hvisible l ?_
      rw [List.getLast?_cons, hl]
      rfl

/-! ### Texts that begin and end with visible tokens -/

/-- A text without faulty tokens that begins and ends with visible ones. Such a text has the same
tokens wherever it stands, in front of a blank, a comma or a closing parenthesis. -/
structure Trimmed (v : Text) : Prop where
  faultless : Faultless v
  exists_first : ∃ x, (tokens v).head? = some x ∧ x.isVisible = true
  exists_last : ∃ l, (tokens v).getLast? = some l ∧ l.isVisible = true

namespace Trimmed

variable {v : Text} {d : Char}

/-- The tokens of the text at any place: the first and the last of them are visible there, too. -/
theorem ends_from (h : Trimmed v) (k : Nat) :
    ∃ x l, (tokensFrom k v).head? = some x ∧ x.isVisible = true ∧
      (tokensFrom k v).getLast? = some l ∧ l.isVisible = true := by
  obtain ⟨x, hx, hfirst⟩ := h.exists_first
  obtain ⟨l, hl, hlast⟩ := h.exists_last
  refine ⟨x.shift k, l.shift k, ?_, hfirst, ?_, hlast⟩
  · rw [tokensFrom_eq_map, List.head?_map, hx]
    rfl
  · rw [tokensFrom_eq_map, List.getLast?_map, hl]
    rfl

/-- A trimmed text in front of such a character is cut off there, wherever it begins. -/
theorem boundary (h : Trimmed v) (hd : isSealing d = true) (k : Nat) (b : Text) :
    Boundary k v (d :: b) (tokensFrom k v) := by
  obtain ⟨-, l, -, -, hl, hlast⟩ := h.ends_from k
  refine (boundary_self k v).seal ?_ ?_ hd b
  · intro l' hl'
    rw [hl] at hl'
    cases hl'
    exact hlast
  · rw [tokensFrom_eq_map]
    intro x hx
    obtain ⟨y, hy, rfl⟩ := List.mem_map.1 hx
    exact (h.faultless.of_mem hy : y.kind.fault? = none)

/-- In front of such a character the text has its own tokens, and behind it those of the remainder
follow. -/
theorem visibleFrom_append (h : Trimmed v) (hd : isSealing d = true) (k : Nat) (b : Text) :
    visibleFrom k (v ++ d :: b) = visibleFrom k v ++ visibleFrom (k + Text.size v) (d :: b) := by
  rw [visibleFrom, (h.boundary hd k b).tokens_eq, List.filter_append]
  rfl

/-- The tokens of the text cover it wherever it stands, since it begins and ends with visible ones.
-/
theorem covered_eq (h : Trimmed v) (a r : Text) :
    covered (a ++ (v ++ r)) (visibleFrom (Text.size a) v) = v := by
  obtain ⟨x, l, hx, hfirst, hl, hlast⟩ := h.ends_from (Text.size a)
  -- The first token is visible, so what is covered begins with it.
  have hstart : x.start = Text.size a := by
    cases v with
    | nil => cases hx
    | cons c t =>
        rw [tokensFrom_cons] at hx
        cases hx
        rfl
  -- The last one is visible as well, and the text ends with it.
  have hstop : l.stop = Text.size a + Text.size v := by
    obtain ⟨us, hus⟩ := List.getLast?_eq_some_iff.1 hl
    have hself := boundary_self (Text.size a) v
    rw [hus] at hself
    exact hself.stop_eq
  have hhead : (visibleFrom (Text.size a) v).head? = some x := by
    obtain ⟨us, hus⟩ := List.head?_eq_some_iff.1 hx
    rw [visibleFrom, hus, List.filter_cons_of_pos hfirst]
    rfl
  have hend : (visibleFrom (Text.size a) v).getLast? = some l := by
    obtain ⟨us, hus⟩ := List.getLast?_eq_some_iff.1 hl
    rw [visibleFrom, hus, List.filter_append, List.filter_cons_of_pos hlast]
    exact List.getLast?_concat
  rw [covered, hhead, hend]
  show Span.slice ⟨x.start, l.stop⟩ _ = v
  rw [hstart, hstop, Span.slice_append]

end Trimmed

/-- What a stretch of the visible tokens covers begins and ends with visible tokens, and it has the
tokens of the stretch. -/
theorem trimmed_covered {t : Text} {ws : List Token} (hfault : Faultless t)
    (h : ws <:+: visibleTokens t) (hne : ws ≠ []) :
    Trimmed (covered t ws) ∧ ∃ k, ws = visibleFrom k (covered t ws) := by
  obtain ⟨us, vs, hsplit⟩ := h
  have hfilter : (tokens t).filter Token.isVisible = us ++ ws ++ vs := hsplit.symm
  have hx := List.head?_eq_some_head hne
  have hl := List.getLast?_eq_some_getLast hne
  obtain ⟨a, b, r, bs, rfl, hstart, hstop, hbound, hbs, hfirst, hlast⟩ :=
    exists_boundary_of_stretch hfilter hx hl
  have hb : covered (a ++ (b ++ r)) ws = b := by
    rw [covered, hx, hl]
    show Span.slice ⟨(ws.head hne).start, (ws.getLast hne).stop⟩ _ = b
    rw [hstart, hstop, Span.slice_append]
  -- What is behind the stretch does not matter for its tokens.
  have htokens := hbound.tokensFrom_eq
  have hws : ws = visibleFrom (Text.size a) b := by rw [← hbs, ← htokens]; rfl
  have hvisible : ∀ y ∈ ws, y.isVisible = true ∧ y.kind.fault? = none := by
    intro y hy
    have hmem : y ∈ visibleTokens (a ++ (b ++ r)) := by
      rw [← hsplit]
      exact List.mem_append_left _ (List.mem_append_right _ hy)
    exact ⟨(List.mem_filter.1 hmem).2, hfault y hmem⟩
  rw [hb]
  refine ⟨⟨?_, ?_, ?_⟩, Text.size a, hws⟩
  · intro y hy
    rw [visibleFrom_eq_map] at hws
    exact (hvisible (y.shift (Text.size a)) (hws ▸ List.mem_map_of_mem hy)).2
  · rw [← htokens, tokensFrom_eq_map, List.head?_map] at hfirst
    obtain ⟨x, hx, hshift⟩ := Option.map_eq_some_iff.1 hfirst
    exact ⟨x, hx, (congrArg Token.isVisible hshift).trans (hvisible _ (List.head_mem hne)).1⟩
  · rw [← htokens, tokensFrom_eq_map, List.getLast?_map] at hlast
    obtain ⟨l, hl, hshift⟩ := Option.map_eq_some_iff.1 hlast
    exact ⟨l, hl, (congrArg Token.isVisible hshift).trans (hvisible _ (List.getLast_mem hne)).1⟩

end GeneratedKeys
