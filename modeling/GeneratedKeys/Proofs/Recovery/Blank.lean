import GeneratedKeys.Proofs.Text.Slice
import GeneratedKeys.Proofs.Token.Faultless

/-!
# `GeneratedKeys.Proofs.Recovery.Blank`: a token replaced by a blank

Dropping a token from the tokens of a statement is putting one blank in its place in the
text. The tokens before it stay where they are, those behind it move by the bytes that the
text lost, and a slice that does not meet the token stays what it is.

* `visibleTokens_blankOut`: the tokens that are left.
* `slice_blankOut`: the slices that are left.
-/

set_option autoImplicit false

namespace GeneratedKeys

open Scan

/-! ### Places -/

namespace Span

/-- The text with one blank in place of the bytes of the span. A blank keeps the tokens on both
sides apart. -/
def blankOut (s : Span) (t : Text) : Text :=
  slice ⟨0, s.start⟩ t ++ ' ' :: slice ⟨s.stop, Text.size t⟩ t

/-- Where a byte offset lies after the bytes of the span are replaced by one blank. -/
def squeeze (s : Span) (k : Nat) : Nat :=
  if k ≤ s.start then k else max (s.start + 1) (k + s.start + 1 - s.stop)

/-- Both ends of a span moved by a function on offsets, which need not move them by the same
distance. -/
def map (f : Nat → Nat) (s : Span) : Span := ⟨f s.start, f s.stop⟩

/-- Whether two spans do not meet. They may touch, as the tokens of a text do. -/
def Apart (s u : Span) : Prop := s.stop ≤ u.start ∨ u.stop ≤ s.start

/-- An offset up to the span stays, since nothing in front of it is replaced. -/
theorem squeeze_of_le {s : Span} {k : Nat} (h : k ≤ s.start) : s.squeeze k = k := if_pos h

/-- An offset behind the span moves by the bytes replaced, less the blank. The span must have bytes,
as otherwise the blank would be one too many in front. -/
theorem squeeze_of_stop_le {s : Span} {k : Nat} (hs : s.start < s.stop) (h : s.stop ≤ k) :
    s.squeeze k = k + s.start + 1 - s.stop := by
  rw [squeeze, if_neg (by omega)]
  omega

/-- Replacing bytes keeps offsets in their order, though two of them may become one. -/
theorem squeeze_mono (s : Span) {j k : Nat} (h : j ≤ k) : s.squeeze j ≤ s.squeeze k := by
  simp only [squeeze]
  split <;> split <;> omega

/-- A stretch in the middle of a text is replaced by the blank, and what stands on its sides is
left. -/
theorem blankOut_append (t u v : Text) :
    blankOut ⟨Text.size t, Text.size t + Text.size u⟩ (t ++ (u ++ v)) = t ++ ' ' :: v := by
  have hbefore := slice_append [] t (u ++ v)
  have hafter := slice_append (t ++ u) v []
  simp only [Text.size_nil, Nat.zero_add, List.nil_append] at hbefore
  simp only [Text.size_append, List.append_nil, List.append_assoc, Nat.add_assoc] at hafter
  rw [blankOut, hbefore, Text.size_append, Text.size_append, hafter]

/-- A slice that does not meet the bytes replaced is still there, at the place that `squeeze` moves
it to. -/
theorem slice_blankOut {t u v : Text} (hu : u ≠ []) {s : Span} (hs : s.start ≤ s.stop)
    (happart : s.Apart ⟨Text.size t, Text.size t + Text.size u⟩) :
    (s.map (squeeze ⟨Text.size t, Text.size t + Text.size u⟩)).slice (t ++ ' ' :: v)
      = s.slice (t ++ (u ++ v)) := by
  have hpos : 0 < Text.size u := Text.size_pos hu
  rcases happart with hbefore | hafter
  -- A slice in front of the bytes stays where it is.
  · have hsame : s.map (squeeze ⟨Text.size t, Text.size t + Text.size u⟩) = s := by
      rw [map, squeeze_of_le hbefore, squeeze_of_le (Nat.le_trans hs hbefore)]
    rw [hsame, slice_append_of_le hbefore, slice_append_of_le hbefore]
  · -- Both slices are the same slice of what is left.
    obtain ⟨w, rfl⟩ : ∃ w : Span, s = w.shift (Text.size (t ++ u)) := by
      refine ⟨⟨s.start - Text.size (t ++ u), s.stop - Text.size (t ++ u)⟩, ?_⟩
      rw [Text.size_append]
      cases s
      simp only [shift, mk.injEq] at hs hafter ⊢
      omega
    -- Behind the blank the slice stands where it stood behind the bytes.
    have hmoved : (w.shift (Text.size (t ++ u))).map
        (squeeze ⟨Text.size t, Text.size t + Text.size u⟩) = w.shift (Text.size (t ++ [' '])) := by
      have hblank : Text.size (t ++ [' ']) = Text.size t + 1 := by
        rw [Text.size_append]
        rfl
      rw [hblank, Text.size_append, map, shift, shift]
      rw [squeeze_of_stop_le (by simp only; omega) (by simp only; omega),
        squeeze_of_stop_le (by simp only; omega) (by simp only [shift] at hs; simp only; omega)]
      simp only [mk.injEq]
      omega
    rw [hmoved, ← List.append_assoc, slice_shift, show t ++ ' ' :: v = (t ++ [' ']) ++ v by simp,
      slice_shift]

end Span

namespace Token

/-- The token at another place. Its kind and text stay the same. -/
def move (f : Nat → Nat) (t : Token) : Token := { t with start := f t.start }

/-- A token that stays where it is stays the same. -/
theorem move_of_eq {f : Nat → Nat} {t : Token} (h : f t.start = t.start) : t.move f = t := by
  rw [move, h]

/-- A token that does not meet a span moves as a whole. -/
theorem stop_move_squeeze {t : Token} {s : Span} (hs : s.start < s.stop)
    (happart : t.span.Apart s) : (t.move s.squeeze).stop = s.squeeze t.stop := by
  have hstop : t.stop = t.start + Text.size t.text := rfl
  rcases happart with hbefore | hafter
  · have hle : t.stop ≤ s.start := hbefore
    show s.squeeze t.start + Text.size t.text = _
    rw [Span.squeeze_of_le hle, Span.squeeze_of_le (by omega)]
    exact hstop.symm
  · have hle : s.stop ≤ t.start := hafter
    show s.squeeze t.start + Text.size t.text = _
    rw [Span.squeeze_of_stop_le hs hle, Span.squeeze_of_stop_le hs (by omega)]
    omega

end Token

/-! ### Putting a blank in the place of a token -/

/-- The tokens behind a blank are where they were behind the token `x`, moved together. -/
theorem visibleFrom_squeeze {x : Token} (hx : x.start < x.stop) (r : Text) :
    visibleFrom x.start (' ' :: r) = (visibleFrom x.stop r).map (Token.move x.span.squeeze) := by
  -- The blank is one byte long, so `r` lies nearer than behind `x` by its other bytes.
  have hshift : visibleFrom x.stop r
      = (visibleFrom (x.start + 1) r).map (Token.shift (x.stop - x.start - 1)) := by
    rw [← visibleFrom_add]
    congr 1
    omega
  have hblank : visibleFrom x.start (' ' :: r) = visibleFrom (x.start + 1) r :=
    visibleFrom_space rfl
  rw [hblank, hshift, List.map_map]
  refine (List.map_id _).symm.trans (List.map_congr_left fun y hy => ?_)
  have hle : x.start + 1 ≤ y.start := le_start_of_mem (List.mem_filter.1 hy).1
  have hsqueeze : x.span.squeeze (y.start + (x.stop - x.start - 1)) = y.start := by
    have hback := Span.squeeze_of_stop_le (s := x.span) hx
      (show x.stop ≤ y.start + (x.stop - x.start - 1) by omega)
    rw [hback]
    show y.start + (x.stop - x.start - 1) + x.start + 1 - x.stop = y.start
    omega
  show y = { y with start := x.span.squeeze (y.start + (x.stop - x.start - 1)) }
  rw [hsqueeze]

/-- With a blank in the place of a token the others are left, moved together. -/
theorem visibleTokens_blankOut {t : Text} {vs ws : List Token} {x : Token}
    (h : visibleTokens t = vs ++ x :: ws) (hfault : ∀ y ∈ vs, y.kind.fault? = none) :
    visibleTokens (x.span.blankOut t) = (vs ++ ws).map (Token.move x.span.squeeze) ∧
      ∀ s : Span, s.start ≤ s.stop → s.Apart x.span →
        (s.map x.span.squeeze).slice (x.span.blankOut t) = s.slice t := by
  have horder := pairwise_visibleTokens t
  have hx : x.start < x.stop := start_lt_stop_of_mem (by rw [h]; simp)
  rw [h] at horder
  obtain ⟨a, r, ts, rfl, hbound, hvs, hstart, ⟨c, u, htext, hline⟩, hws⟩ := exists_visible h
  have hspan : x.span = ⟨Text.size a, Text.size a + Text.size x.text⟩ := by
    rw [Token.span, Token.stop, hstart]
  have hne : x.text ≠ [] := by
    rw [htext]
    exact List.cons_ne_nil c u
  refine ⟨?_, fun s hs happart => ?_⟩
  · have hvisible : ∀ y ∈ ts, y.kind.fault? = none := by
      intro y hy
      by_cases hy' : y.isVisible = true
      · exact hfault y (by rw [← hvs]; exact List.mem_filter.2 ⟨hy, hy'⟩)
      · exact fault?_of_hidden (by simpa using hy')
    -- Neither the token nor the blank goes on with a token in front of it.
    have hswap := visibleFrom_swap hbound hvisible (d := ' ') rfl
      (.inr ⟨c, u ++ r, by rw [htext]; rfl, hline⟩) r
    -- Tokens in front of the blank do not move.
    have hbefore : vs.map (Token.move x.span.squeeze) = vs := by
      refine (List.map_congr_left fun y hy => ?_).trans (List.map_id vs)
      have hle : y.stop ≤ x.start := (List.pairwise_append.1 horder).2.2 y hy x (by simp)
      exact Token.move_of_eq (Span.squeeze_of_le (Nat.le_trans (Nat.le_add_right ..) hle))
    rw [List.map_append, hbefore, hws, ← visibleFrom_squeeze hx, hstart, hspan,
      Span.blankOut_append, visibleTokens, hswap, hvs, Nat.zero_add]
  · rw [hspan] at happart ⊢
    rw [Span.blankOut_append, Span.slice_blankOut hne hs happart]

end GeneratedKeys
