import GeneratedKeys.Proofs.Token.Faultless

/-!
# `GeneratedKeys.Proofs.Token.Spaced`: tokens with blanks between

A token is found by looking at what follows it, one or two characters far. In front of a blank,
or at the end of the text, a token is found as it stands, whatever stood behind it before. So
the texts of tokens with blanks between are cut into these tokens again.

* `scan_of_mem`: a token is found in its own text.
* `faces_spaced`: the visible tokens of a text that is put together from tokens.
-/

set_option autoImplicit false

namespace GeneratedKeys

open Scan

/-- The texts one after the other, with one blank or more between. In front of the first one and
behind the last one nothing is added. -/
inductive Spaced : List Text → Text → Prop where
  | nil : Spaced [] []
  | single (x : Text) : Spaced [x] x
  | cons {x y blanks t : Text} {xs : List Text} :
      blanks ≠ [] → (∀ c ∈ blanks, isSpace c = true) → Spaced (y :: xs) t →
        Spaced (x :: y :: xs) (x ++ (blanks ++ t))

/-- A token is found in its own text: scanned alone, it takes all of it and has the same kind. -/
theorem scan_of_mem {k : Nat} {t : Text} {x : Token} (h : x ∈ tokensFrom k t) :
    ∃ c u, x.text = c :: u ∧ scan c u = ⟨x.kind, u.length⟩ := by
  obtain ⟨start, c, u, rfl⟩ := exists_firstToken h
  have htake : (u.take (scan c u).extra).length = (scan c u).extra := by
    rw [List.length_take, Nat.min_eq_left (scan_extra_le c u)]
  have hsplit := List.take_append_drop (scan c u).extra u
  have hcut : scan c (u.take (scan c u).extra) = scan c u := by
    have hlen : (scan c (u.take (scan c u).extra ++ u.drop (scan c u).extra)).extra
        = (u.take (scan c u).extra).length := by
      rw [hsplit, htake]
    rw [scan_cut (Nat.le_of_eq hlen), hsplit]
  refine ⟨c, u.take (scan c u).extra, rfl, ?_⟩
  rw [hcut, htake]
  rfl

/-- A visible token is found as it stands in front of a blank, a comma or a closing
parenthesis. -/
theorem scan_spaced {x : Token} {c d : Char} {u : Text} (hscan : scan c u = ⟨x.kind, u.length⟩)
    (hvisible : x.isVisible = true) (hfault : x.kind.fault? = none) (hd : isSealing d = true)
    (b : Text) : scan c (u ++ d :: b) = ⟨x.kind, u.length⟩ := by
  rw [← hscan]
  refine scan_seal hd b (by rw [hscan]; exact hfault) fun _ => ?_
  have hhidden : x.kind.channel ≠ .hidden := by
    simpa [Token.isVisible, Token.isHidden, Token.channel] using hvisible
  -- A blank and a comment are hidden.
  have hspace : isSpace c = false := by
    rw [Bool.eq_false_iff]
    intro hc
    rw [scan, if_pos hc] at hscan
    exact hhidden (by rw [← (Lexeme.mk.inj hscan).1]; rfl)
  refine ⟨hspace, fun hdash => ?_⟩
  rw [scan, if_neg (by simp [hspace]), if_pos hdash] at hscan
  exact absurd (by rw [← (Lexeme.mk.inj hscan).1]; rfl) hhidden

/-- Tokens of a text with blanks between are the visible tokens again. The blanks keep any two of
them from growing together. -/
theorem faces_spaced {t s : Text} {xs : List Token} (h : Spaced (xs.map Token.text) s)
    (hxs : ∀ x ∈ xs, x ∈ tokens t ∧ x.isVisible = true ∧ x.kind.fault? = none) (k : Nat) :
    (visibleFrom k s).map Token.face = xs.map Token.face := by
  generalize htexts : xs.map Token.text = texts at h
  induction h generalizing xs k with
  | nil =>
      cases List.map_eq_nil_iff.1 htexts
      rfl
  | single x =>
      -- The last token stands at the end of the text, with nothing behind it.
      obtain ⟨x, rfl, rfl⟩ := List.map_eq_singleton_iff.1 htexts
      obtain ⟨hmem, hvisible, -⟩ := hxs x (List.mem_singleton_self x)
      obtain ⟨c, u, htext, hscan⟩ := scan_of_mem hmem
      have hfirst := visibleFrom_token (k := k) (r := [])
        (by rw [List.append_nil]; exact hscan) (show (⟨x.kind, c :: u, k⟩ : Token).isVisible = true
          from hvisible)
      rw [List.append_nil, ← htext] at hfirst
      rw [hfirst, visibleFrom_nil]
      rfl
  | @cons _ _ blanks rest _ hne hblanks _ ih =>
      obtain ⟨x, others, rfl, rfl, hothers⟩ := List.map_eq_cons_iff.1 htexts
      obtain ⟨hmem, hvisible, hfault⟩ := hxs x (List.mem_cons_self ..)
      obtain ⟨c, u, htext, hscan⟩ := scan_of_mem hmem
      -- The first blank behind a token seals it, and the other blanks are passed over.
      obtain ⟨d, blanks', rfl⟩ := List.exists_cons_of_ne_nil hne
      have hd : isSpace d = true := hblanks d (List.mem_cons_self ..)
      have hspaced := scan_spaced hscan hvisible hfault (isSealing_of_isSpace hd) (blanks' ++ rest)
      have hfirst := visibleFrom_token (k := k) hspaced
        (show (⟨x.kind, c :: u, k⟩ : Token).isVisible = true from hvisible)
      rw [← htext] at hfirst
      rw [List.cons_append, hfirst, ← List.cons_append, visibleFrom_blanks hblanks, List.map_cons,
        List.map_cons, ih (fun y hy => hxs y (List.mem_cons_of_mem x hy)) _ hothers]
      rfl

end GeneratedKeys
