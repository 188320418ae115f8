import GeneratedKeys.Proofs.Token.Bounds
import GeneratedKeys.Proofs.Token.Seal
import GeneratedKeys.Token.Lexer

/-!
# `GeneratedKeys.Proofs.Token.Boundary`: places between two tokens

`Boundary k a r ts` says that a place in a text lies between two tokens: the text `a ++ r`,
which starts at byte `k`, begins with the tokens `ts`, and their texts are `a`.

* `exists_boundary`: wherever the tokens of a text are split, so is the text.
* `Boundary.cut`: cutting the text off anywhere behind a boundary keeps the tokens before it.
* `Boundary.stop_le`: the tokens before a boundary stop there.
* `exists_place`: a token is the first one of the text from its place on.
* `slice_of_mem_tokens`: a token covers its own text.
-/

set_option autoImplicit false

namespace GeneratedKeys

open Scan

/-! ### First tokens -/

/-- The first token has its first character and those that the scan has taken, since they are there.
-/
theorem length_text_firstToken (k : Nat) (c : Char) (t : Text) :
    (firstToken k c t).text.length = (scan c t).extra + 1 := by
  simp only [firstToken, List.length_cons, List.length_take, scan_extra_le, Nat.min_eq_left]

/-- No token is empty, since a scan takes the character that it is given. -/
theorem text_ne_nil {k : Nat} {t : Text} {x : Token} (h : x ∈ tokensFrom k t) : x.text ≠ [] := by
  induction t using tokens_induction generalizing k with
  | nil => cases h
  | cons c t ih =>
      rw [tokensFrom_cons, List.mem_cons] at h
      rcases h with rfl | h
      · exact List.cons_ne_nil _ _
      · exact ih h

/-- A first token that lies within a first part has its text from that part alone. -/
theorem text_firstToken {k : Nat} {c : Char} {t r : Text}
    (h : (scan c (t ++ r)).extra ≤ t.length) :
    (firstToken k c (t ++ r)).text = c :: t.take (scan c (t ++ r)).extra := by
  rw [firstToken, List.take_append_of_le_length h]

/-- What is left of the first part begins where the first token stops. -/
theorem stop_firstToken {k : Nat} {c : Char} {t r : Text}
    (h : (scan c (t ++ r)).extra ≤ t.length) :
    (firstToken k c (t ++ r)).stop + Text.size (t.drop (scan c (t ++ r)).extra)
      = k + Text.size (c :: t) := by
  have hsize := congrArg Text.size (List.take_append_drop (scan c (t ++ r)).extra t)
  rw [Text.size_append] at hsize
  rw [Token.stop, text_firstToken h]
  show k + Text.size _ + _ = _
  simp only [Text.size_cons]
  omega

/-! ### The order of tokens -/

/-- No token starts in front of its text. The first one starts with it, and the others start where
the one before stops. -/
theorem le_start_of_mem {k : Nat} {t : Text} {x : Token} (h : x ∈ tokensFrom k t) :
    k ≤ x.start := by
  induction t using tokens_induction generalizing k with
  | nil => cases h
  | cons c t ih =>
      rw [tokensFrom_cons, List.mem_cons] at h
      rcases h with rfl | h
      · exact Nat.le_refl k
      · exact Nat.le_trans (Nat.le_add_right ..) (ih h)

/-- Every token stops before the next one starts, and before all later ones. -/
theorem pairwise_tokensFrom (k : Nat) (t : Text) :
    (tokensFrom k t).Pairwise fun x y => x.stop ≤ y.start := by
  induction t using tokens_induction generalizing k with
  | nil => exact .nil
  | cons c t ih =>
      rw [tokensFrom_cons]
      exact .cons (fun y hy => le_start_of_mem hy) (ih _)

/-- No token goes beyond the text, since the pieces together are the text. -/
theorem stop_le_of_mem {k : Nat} {t : Text} {x : Token} (h : x ∈ tokensFrom k t) :
    x.stop ≤ k + Text.size t := by
  induction t using tokens_induction generalizing k with
  | nil => cases h
  | cons c t ih =>
      have hstop := stop_firstToken (k := k) (r := []) (t := t) (c := c) (by
        rw [List.append_nil]
        exact scan_extra_le c t)
      rw [List.append_nil] at hstop
      rw [tokensFrom_cons, List.mem_cons] at h
      rcases h with rfl | h
      · omega
      · have := ih h
        omega

/-! ### Boundaries -/

/-- The tokens `ts` begin the text `a ++ r` at byte `k`, and `a` consists of them. So `a` ends where
a token ends, and the lexer may be split there. -/
structure Boundary (k : Nat) (a r : Text) (ts : List Token) : Prop where
  tokens_eq : tokensFrom k (a ++ r) = ts ++ tokensFrom (k + Text.size a) r
  texts_eq : ts.flatMap Token.text = a

/-- The beginning of a text is a boundary, in front of all tokens. -/
theorem boundary_nil (k : Nat) (r : Text) : Boundary k [] r [] := ⟨rfl, rfl⟩

/-- Its end is one as well, behind all of them, with nothing left of the text. -/
theorem boundary_self (k : Nat) (t : Text) : Boundary k t [] (tokensFrom k t) :=
  ⟨by rw [List.append_nil, tokensFrom_nil, List.append_nil], flatMap_text_tokensFrom k t⟩

/-- A token in front of a boundary. Its scan may look at the text behind the boundary, but must not
take from it. -/
theorem Boundary.cons {k : Nat} {c : Char} {t r : Text} {ts : List Token}
    (hlen : (scan c (t ++ r)).extra ≤ t.length)
    (h : Boundary (firstToken k c (t ++ r)).stop (t.drop (scan c (t ++ r)).extra) r ts) :
    Boundary k (c :: t) r (firstToken k c (t ++ r) :: ts) := by
  obtain ⟨htokens, htexts⟩ := h
  refine ⟨?_, ?_⟩
  · rw [List.cons_append, tokensFrom_cons, List.drop_append_of_le_length hlen, htokens,
      stop_firstToken hlen]
    rfl
  · rw [List.flatMap_cons, htexts, text_firstToken hlen, List.cons_append,
      List.take_append_drop]

/-- The first of the tokens before a boundary, and the boundary behind it. Proofs about the tokens
before a boundary go by induction through this. -/
theorem Boundary.exists_cons {k : Nat} {a r : Text} {x : Token} {ts : List Token}
    (h : Boundary k a r (x :: ts)) :
    ∃ c t, a = c :: t ∧ x = firstToken k c (t ++ r) ∧ (scan c (t ++ r)).extra ≤ t.length ∧
      Boundary x.stop (t.drop (scan c (t ++ r)).extra) r ts := by
  obtain ⟨htokens, htexts⟩ := h
  have hx : x ∈ tokensFrom k (a ++ r) := by simp [htokens]
  rw [List.flatMap_cons] at htexts
  cases a with
  | nil => exact absurd (List.append_eq_nil_iff.1 htexts).1 (text_ne_nil hx)
  | cons c t =>
      rw [List.cons_append, tokensFrom_cons, List.cons_append, List.cons.injEq] at htokens
      obtain ⟨rfl, htokens⟩ := htokens
      -- The first token does not go beyond the boundary, since its text is part of `a`.
      have hlen : (scan c (t ++ r)).extra ≤ t.length := by
        have hl := congrArg List.length htexts
        rw [List.length_append, length_text_firstToken, List.length_cons] at hl
        omega
      rw [text_firstToken hlen, List.cons_append, List.cons.injEq] at htexts
      have hdrop : ts.flatMap Token.text = t.drop (scan c (t ++ r)).extra :=
        List.append_cancel_left (htexts.2.trans (List.take_append_drop _ t).symm)
      refine ⟨c, t, rfl, rfl, hlen, ?_, hdrop⟩
      rw [List.drop_append_of_le_length hlen] at htokens
      rw [htokens, stop_firstToken hlen]

/-- Wherever the tokens of a text are split, so is the text: some first part of it has exactly the
tokens before, and the remainder those after. -/
theorem exists_boundary {k : Nat} {t : Text} {ts us : List Token}
    (h : tokensFrom k t = ts ++ us) :
    ∃ a r, t = a ++ r ∧ Boundary k a r ts ∧ us = tokensFrom (k + Text.size a) r := by
  induction ts generalizing k t with
  | nil => exact ⟨[], t, rfl, boundary_nil k t, h.symm⟩
  | cons x ts ih =>
      cases t with
      | nil => cases h
      | cons c t =>
          rw [tokensFrom_cons, List.cons_append, List.cons.injEq] at h
          obtain ⟨rfl, h⟩ := h
          obtain ⟨a, r, hsplit, hbound, hus⟩ := ih h
          -- The first part is the first token and what was found behind it.
          have ht : t = (t.take (scan c t).extra ++ a) ++ r := by
            rw [List.append_assoc, ← hsplit, List.take_append_drop]
          have htake : (t.take (scan c t).extra).length = (scan c t).extra := by
            rw [List.length_take, Nat.min_eq_left (scan_extra_le c t)]
          have hdrop : (t.take (scan c t).extra ++ a).drop (scan c t).extra = a :=
            List.drop_left' htake
          generalize hu : t.take (scan c t).extra ++ a = u at ht hdrop
          have hlen : (scan c (u ++ r)).extra ≤ u.length := by
            rw [← ht, ← hu, List.length_append, htake]
            exact Nat.le_add_right _ _
          subst ht
          have hstop := stop_firstToken (k := k) hlen
          rw [hdrop] at hstop
          refine ⟨c :: u, r, rfl, .cons hlen (by rwa [hdrop]), ?_⟩
          rw [hus, hstop]

/-- One boundary behind the other: the tokens before the second one are those of both stretches. -/
theorem Boundary.append {k : Nat} {a b r : Text} {ts us : List Token}
    (h : Boundary k a (b ++ r) ts) (h' : Boundary (k + Text.size a) b r us) :
    Boundary k (a ++ b) r (ts ++ us) := by
  refine ⟨?_, ?_⟩
  · rw [List.append_assoc, h.tokens_eq, h'.tokens_eq, List.append_assoc, Text.size_append,
      Nat.add_assoc]
  · rw [List.flatMap_append, h.texts_eq, h'.texts_eq]

/-- Nothing stands before a boundary without tokens, since any character would belong to one. -/
theorem Boundary.eq_nil {k : Nat} {a r : Text} (h : Boundary k a r []) : a = [] :=
  h.texts_eq.symm

/-- In front of a boundary at the beginning there is no token. -/
theorem Boundary.eq_nil_of_nil {k : Nat} {r : Text} {ts : List Token}
    (h : Boundary k [] r ts) : ts = [] := by
  cases ts with
  | nil => rfl
  | cons x ts =>
      obtain ⟨c, t, hnil, -⟩ := h.exists_cons
      cases hnil

/-- Behind a first token that stays there may be another text. The token is the same, as it takes
nothing of what was exchanged. -/
theorem firstToken_swap {k : Nat} {c : Char} {t r u : Text}
    (hscan : scan c (t ++ u) = scan c (t ++ r)) (hlen : (scan c (t ++ r)).extra ≤ t.length) :
    firstToken k c (t ++ u) = firstToken k c (t ++ r) := by
  simp only [firstToken, hscan]
  rw [List.take_append_of_le_length hlen, List.take_append_of_le_length hlen]

/-- A token in front of a boundary that stays with another text behind. -/
theorem Boundary.cons_swap {k : Nat} {c : Char} {t r u : Text} {ts : List Token}
    (hscan : scan c (t ++ u) = scan c (t ++ r)) (hlen : (scan c (t ++ r)).extra ≤ t.length)
    (h : Boundary (firstToken k c (t ++ r)).stop (t.drop (scan c (t ++ r)).extra) u ts) :
    Boundary k (c :: t) u (firstToken k c (t ++ r) :: ts) := by
  have hfirst : firstToken k c (t ++ u) = firstToken k c (t ++ r) := firstToken_swap hscan hlen
  rw [← hfirst, ← hscan] at h
  rw [← hfirst]
  exact .cons (by rw [hscan]; exact hlen) h

/-- Cutting a text off behind a boundary keeps the tokens before it. By locality of the scanner none
of them depends on what was cut off. -/
theorem Boundary.cut {k : Nat} {a u r : Text} {ts : List Token} (h : Boundary k a (u ++ r) ts) :
    Boundary k a u ts := by
  induction ts generalizing k a with
  | nil =>
      cases h.eq_nil
      exact boundary_nil k u
  | cons x ts ih =>
      obtain ⟨c, t, rfl, rfl, hlen, hrest⟩ := h.exists_cons
      -- The first token lies in front of the boundary, so what is cut off does not matter.
      have hcut : scan c (t ++ u) = scan c (t ++ (u ++ r)) := by
        rw [← List.append_assoc] at hlen ⊢
        exact scan_cut (by rw [List.length_append]; omega)
      exact .cons_swap hcut hlen (ih hrest)

/-- The tokens before a boundary are those of the text before it. -/
theorem Boundary.tokensFrom_eq {k : Nat} {a r : Text} {ts : List Token} (h : Boundary k a r ts) :
    tokensFrom k a = ts := by
  have hcut : Boundary k a [] ts := .cut (r := r) h
  have htokens := hcut.tokens_eq
  rwa [List.append_nil, tokensFrom_nil, List.append_nil] at htokens

/-- The tokens before a boundary stop there. None of them reaches over into the text behind. -/
theorem Boundary.stop_le {k : Nat} {a r : Text} {ts : List Token} (h : Boundary k a r ts)
    {x : Token} (hx : x ∈ ts) : x.stop ≤ k + Text.size a := by
  rw [← h.tokensFrom_eq] at hx
  exact stop_le_of_mem hx

/-! ### The place of a token -/

/-- A token stands where the tokens before it end, and it is the first one of the text from
there on. -/
theorem exists_place {t : Text} {ts us : List Token} {x : Token}
    (h : tokens t = ts ++ x :: us) :
    ∃ a c u, t = a ++ c :: u ∧ Boundary 0 a (c :: u) ts ∧ x = firstToken (Text.size a) c u ∧
      us = tokensFrom x.stop (u.drop (scan c u).extra) := by
  obtain ⟨a, r, ht, hbound, hx⟩ := exists_boundary h
  cases r with
  | nil => cases hx
  | cons c u =>
      rw [tokensFrom_cons, List.cons.injEq, Nat.zero_add] at hx
      obtain ⟨rfl, hothers⟩ := hx
      exact ⟨a, c, u, ht, hbound, rfl, hothers⟩

/-- The text of a token, with what stands before it and behind it. -/
theorem exists_split {t : Text} {x : Token} (h : x ∈ tokens t) :
    ∃ a b, t = a ++ (x.text ++ b) ∧ x.start = Text.size a := by
  obtain ⟨ts, us, hsplit⟩ := List.append_of_mem h
  obtain ⟨a, c, u, ht, -, hx, -⟩ := exists_place hsplit
  refine ⟨a, u.drop (scan c u).extra, ?_, ?_⟩
  · rw [ht, hx, firstToken, List.cons_append, List.take_append_drop]
  · rw [hx, firstToken]

/-- Every token has bytes, so it stops behind where it starts. Only the token of the end covers
none. -/
theorem start_lt_stop {k : Nat} {t : Text} {x : Token} (h : x ∈ tokensFrom k t) :
    x.start < x.stop :=
  Nat.lt_add_of_pos_right (Text.size_pos (text_ne_nil h))

/-- A token of a text covers its own text, so slicing its span and keeping its characters come to
the same. -/
theorem slice_of_mem_tokens {t : Text} {x : Token} (h : x ∈ tokens t) :
    x.span.slice t = x.text := by
  obtain ⟨a, b, rfl, hstart⟩ := exists_split h
  rw [Token.span, Token.stop, hstart]
  exact Span.slice_append a x.text b

end GeneratedKeys
