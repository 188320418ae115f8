import GeneratedKeys.Proofs.Token.Visible
import GeneratedKeys.Proofs.Text.Slice
import GeneratedKeys.Statement.Parse

/-!
# `GeneratedKeys.Proofs.Token.Stretch`: the tokens of a part

A part of a statement is cut out of the text from the beginning of a token to the end of
another one. Cut into tokens by itself it has the tokens that it has in the statement: a token
does not depend on what stands in front of it, and the part ends where a token ends.

* `exists_boundary_of_stretch`: what a stretch of tokens covers lies between two boundaries.
* `faces_slice`: the tokens of a part are those between its two ends.
-/

set_option autoImplicit false

namespace GeneratedKeys

/-- The bytes from the token behind the first `p` tokens to the last of the first `q` ones, in a
text of `size` bytes. -/
def spanBetween (ts : List Token) (size p q : Nat) : Span :=
  let first := (ts[p]?.map Token.start).getD size
  ⟨first, max first (((ts.take q).getLast?.map Token.stop).getD first)⟩

/-- The last token in front of a boundary stops there, so the boundary is found from the token. -/
theorem Boundary.stop_eq {k : Nat} {a r : Text} {ts : List Token} {l : Token}
    (h : Boundary k a r (ts ++ [l])) : l.stop = k + Text.size a := by
  induction ts generalizing k a with
  | nil =>
      obtain ⟨c, t, rfl, rfl, hlen, hrest⟩ := h.exists_cons
      have hstop := stop_firstToken (k := k) hlen
      rw [hrest.eq_nil, Text.size_nil, Nat.add_zero] at hstop
      exact hstop
  | cons x ts ih =>
      obtain ⟨c, t, rfl, rfl, hlen, hrest⟩ := h.exists_cons
      rw [ih hrest, stop_firstToken hlen]

/-- A stretch of the tokens that pass a test is a stretch of all tokens that begins and ends
with such tokens. -/
theorem exists_stretch {test : Token → Bool} {ts us ws vs : List Token} {x l : Token}
    (h : ts.filter test = us ++ ws ++ vs) (hx : ws.head? = some x) (hl : ws.getLast? = some l) :
    ∃ as bs cs, ts = as ++ (bs ++ cs) ∧ bs.filter test = ws ∧ bs.head? = some x ∧
      bs.getLast? = some l := by
  obtain ⟨ws', rfl⟩ := List.head?_eq_some_iff.1 hx
  obtain ⟨ws'', hws⟩ := List.getLast?_eq_some_iff.1 hl
  rw [List.append_assoc] at h
  obtain ⟨as, rest, rfl, -, hrest⟩ := List.filter_eq_append_iff.1 h
  -- Other tokens in front of the first one are left out.
  obtain ⟨as', rest', rfl, has', hx', hrest'⟩ := List.filter_eq_cons_iff.1 hrest
  have hall : (x :: rest').filter test = ws'' ++ l :: vs := by
    have hlast : (x :: ws') ++ vs = ws'' ++ l :: vs := by
      rw [hws, List.append_assoc]
      rfl
    rw [List.filter_cons_of_pos hx', hrest']
    exact hlast
  obtain ⟨bs, rest'', hsplit, hbs, hlast⟩ := List.filter_eq_append_iff.1 hall
  -- Other tokens in front of the last one belong to the stretch, those behind it do not.
  obtain ⟨bs', cs, rfl, hbs', hl', -⟩ := List.filter_eq_cons_iff.1 hlast
  have hhidden : bs'.filter test = [] := List.filter_eq_nil_iff.2 hbs'
  refine ⟨as ++ as', bs ++ bs' ++ [l], cs, ?_, ?_, ?_, ?_⟩
  · rw [hsplit]
    simp
  · rw [List.filter_append, List.filter_append, hbs, hhidden, List.filter_cons_of_pos hl',
      List.filter_nil, List.append_nil, hws]
  · have hhead := congrArg List.head? hsplit
    rw [show bs ++ (bs' ++ l :: cs) = (bs ++ bs' ++ [l]) ++ cs by simp, List.head?_cons,
      List.head?_append, Option.or_of_isSome (by simp)] at hhead
    exact hhead.symm
  · simp

/-- The tokens that the grammar reads are visible and not faulty, and they are tokens of the text.
-/
theorem mem_significantTokens {t : Text} {x : Token} (h : x ∈ significantTokens t) :
    x ∈ tokens t ∧ x.isVisible = true ∧ x.kind.fault? = none := by
  obtain ⟨hmem, hsignificant⟩ := List.mem_filter.1 h
  simp only [Token.isSignificant, Token.isError, Bool.and_eq_true, Bool.not_eq_true',
    Option.isSome_eq_false_iff, Option.isNone_iff_eq_none] at hsignificant
  refine ⟨hmem, ?_, hsignificant.1.2⟩
  rw [Token.isVisible, hsignificant.1.1]
  rfl

/-- The significant tokens stand in order, as leaving out others does not change the order. -/
theorem pairwise_significantTokens (t : Text) :
    (significantTokens t).Pairwise fun x y => x.stop ≤ y.start :=
  (pairwise_tokensFrom 0 t).filter _

/-- A part that ends in front of its beginning is empty: the last token in front of its end
stops before it begins. -/
theorem slice_spanBetween_of_le {t : Text} {p q : Nat} (hpq : q ≤ p) :
    (spanBetween (significantTokens t) (Text.size t) p q).slice t = [] := by
  generalize hts : significantTokens t = ts
  have hle : ∀ first, first = (ts[p]?.map Token.start).getD (Text.size t) →
      ((ts.take q).getLast?.map Token.stop).getD first ≤ first := by
    rintro first rfl
    cases hlast : (ts.take q).getLast? with
    | none => exact Nat.le_refl _
    | some l =>
        have hl := List.mem_of_getLast? hlast
        cases hnext : ts[p]? with
        -- The part begins at the end of the text, and no token goes beyond that.
        | none =>
            rw [← hts] at hl
            have hmem := (List.mem_filter.1 (List.mem_of_mem_take hl)).1
            exact Nat.le_trans (stop_le_of_mem hmem) (Nat.le_of_eq (Nat.zero_add _))
        | some x =>
            -- The token at the beginning comes behind the last one in front of the end.
            have horder := pairwise_significantTokens t
            rw [hts, ← List.take_append_drop q ts, List.pairwise_append] at horder
            have hx : (ts.drop q)[p - q]? = some x := by
              rw [List.getElem?_drop, Nat.add_sub_cancel' hpq, hnext]
            exact horder.2.2 l hl x (List.mem_of_getElem? hx)
  rw [spanBetween, Nat.max_eq_left (hle _ rfl), Span.slice_empty]

/-- A part of one token is its text, as the place between its two ends is the token's span. -/
theorem slice_spanBetween_succ {t : Text} {p : Nat} {x : Token}
    (hx : (significantTokens t)[p]? = some x) :
    (spanBetween (significantTokens t) (Text.size t) p (p + 1)).slice t = x.text := by
  have hlast : ((significantTokens t).take (p + 1)).getLast? = some x := by
    rw [List.take_add_one, hx]
    simp
  obtain ⟨hmem, hvisible, -⟩ := mem_significantTokens (List.mem_of_getElem? hx)
  rw [spanBetween, Span.slice_max, hlast, hx]
  exact slice_of_mem (List.mem_filter.2 ⟨hmem, hvisible⟩)

/-- Cut into tokens by itself, what lies between two boundaries has the tokens in between. -/
theorem faces_of_boundary {k : Nat} {b r : Text} {bs : List Token} (h : Boundary k b r bs) :
    (significantTokens b).map Token.face = (bs.filter Token.isSignificant).map Token.face := by
  rw [← h.tokensFrom_eq, tokensFrom_eq_map, List.filter_map, List.map_map]
  rfl

/-- What lies between two places in a list begins with the member at the first place, and it
ends with the last member in front of the second one. -/
theorem ends_of_lt {ts : List Token} {p q : Nat} (hpq : p < q) (hq : q ≤ ts.length) :
    ∃ x l, ts[p]? = some x ∧ (ts.take q).getLast? = some l ∧
      ((ts.take q).drop p).head? = some x ∧ ((ts.take q).drop p).getLast? = some l := by
  have hx : ts[p]? = some ts[p] := List.getElem?_eq_getElem (Nat.lt_of_lt_of_le hpq hq)
  have hlength : p < (ts.take q).length := by
    rw [List.length_take, Nat.min_eq_left hq]
    exact hpq
  have hlast : ((ts.take q).drop p).getLast? = (ts.take q).getLast? := by
    rw [List.getLast?_drop, if_neg (Nat.not_le_of_lt hlength)]
  have hne : ts.take q ≠ [] :=
    List.ne_nil_of_length_pos (Nat.lt_of_le_of_lt (Nat.zero_le p) hlength)
  refine ⟨ts[p], (ts.take q).getLast hne, hx, List.getLast?_eq_some_getLast hne, ?_, ?_⟩
  · rw [List.head?_drop, List.getElem?_take_of_lt hpq, hx]
  · rw [hlast, List.getLast?_eq_some_getLast hne]

/-- What a stretch of the tokens that pass a test covers lies between two boundaries, in front of
its first token and behind its last one. -/
theorem exists_boundary_of_stretch {test : Token → Bool} {t : Text} {us ws vs : List Token}
    {x l : Token} (h : (tokens t).filter test = us ++ ws ++ vs) (hx : ws.head? = some x)
    (hl : ws.getLast? = some l) :
    ∃ a b r bs, t = a ++ (b ++ r) ∧ x.start = Text.size a ∧ l.stop = Text.size a + Text.size b ∧
      Boundary (Text.size a) b r bs ∧ bs.filter test = ws ∧ bs.head? = some x ∧
      bs.getLast? = some l := by
  -- The text is split in front of the first token and behind the last one.
  obtain ⟨as, bs, cs, htokens, hbs, hfirst, hend⟩ := exists_stretch h hx hl
  obtain ⟨a, rest, rfl, -, hrest⟩ := exists_boundary htokens
  obtain ⟨b, r, rfl, hbound, -⟩ := exists_boundary hrest.symm
  rw [Nat.zero_add] at hbound
  refine ⟨a, b, r, bs, rfl, ?_, ?_, hbound, hbs, hfirst, hend⟩
  · obtain ⟨bs', rfl⟩ := List.head?_eq_some_iff.1 hfirst
    obtain ⟨c, u, -, rfl, -, -⟩ := hbound.exists_cons
    rfl
  · obtain ⟨bs', rfl⟩ := List.getLast?_eq_some_iff.1 hend
    exact hbound.stop_eq

/-- A part is what lies between two boundaries, with its tokens in between. -/
theorem slice_spanBetween_of_lt {t : Text} {p q : Nat} (hpq : p < q)
    (hq : q ≤ (significantTokens t).length) :
    ∃ k r bs, Boundary k ((spanBetween (significantTokens t) (Text.size t) p q).slice t) r bs ∧
      bs.filter Token.isSignificant = ((significantTokens t).take q).drop p := by
  obtain ⟨x, l, hx, hl, hhead, hlast⟩ := ends_of_lt hpq hq
  -- The tokens in three pieces: in front of the part, its own, and those behind it.
  have hsplit : (tokens t).filter Token.isSignificant
      = (significantTokens t).take p ++ ((significantTokens t).take q).drop p
        ++ (significantTokens t).drop q := by
    have htake := List.take_append_drop p ((significantTokens t).take q)
    rw [List.take_take, Nat.min_eq_left (Nat.le_of_lt hpq)] at htake
    rw [htake, List.take_append_drop]
    rfl
  rw [spanBetween, Span.slice_max, hx, hl]
  obtain ⟨a, b, r, bs, rfl, hstart, hstop, hbound, hbs, -, -⟩ :=
    exists_boundary_of_stretch hsplit hhead hlast
  refine ⟨Text.size a, r, bs, ?_, hbs⟩
  show Boundary _ (Span.slice ⟨x.start, l.stop⟩ (a ++ (b ++ r))) r bs
  rw [hstart, hstop, Span.slice_append]
  exact hbound

/-- Cut out of the text and cut into tokens by itself, a part has the tokens of the statement
between its two ends. -/
theorem faces_slice {t : Text} {p q : Nat} (hq : q ≤ (significantTokens t).length) :
    (significantTokens
        ((spanBetween (significantTokens t) (Text.size t) p q).slice t)).map Token.face
      = (((significantTokens t).take q).drop p).map Token.face := by
  rcases Nat.lt_or_ge p q with hpq | hpq
  · obtain ⟨k, r, bs, hbound, hbs⟩ := slice_spanBetween_of_lt hpq hq
    rw [faces_of_boundary hbound, hbs]
  · have hnil : ((significantTokens t).take q).drop p = [] :=
      List.drop_eq_nil_of_le (Nat.le_trans (List.length_take_le _ _) hpq)
    rw [slice_spanBetween_of_le hpq, hnil]
    rfl

end GeneratedKeys
