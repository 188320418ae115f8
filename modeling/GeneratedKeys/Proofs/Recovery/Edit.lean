import GeneratedKeys.Proofs.Reading.Kinds
import GeneratedKeys.Proofs.Reading.Tests
import GeneratedKeys.Proofs.Recovery.Blank

/-!
# `GeneratedKeys.Proofs.Recovery.Edit`: the text of a repaired statement

The repairs of a reading are made in the text: a blank in the place of every token that was
dropped, and a parenthesis behind the text for every one that was supplied. The visible
tokens of the edited text are the tokens that were kept, at places that one function on byte
offsets gives.

* `visibleTokens_blankAll`: the tokens, after those dropped are replaced by blanks.
* `slice_blankAll`: a stretch of moves without repairs covers the same text before and after.
* `visibleTokens_edited`: the tokens of the edited text.
-/

set_option autoImplicit false

namespace GeneratedKeys

open Scan

/-- The text with a blank in the place of each of the spans. The last one is replaced first,
so the places of the others stay. -/
def blankAll (spans : List Span) (t : Text) : Text :=
  spans.foldr Span.blankOut t

/-- Where a byte offset lies after the bytes of the spans are replaced, each by one blank. Spans
further on do not move it. -/
def squeezeAll (spans : List Span) (k : Nat) : Nat :=
  spans.foldr Span.squeeze k

/-- An offset in front of all spans stays, as each of them leaves it where it is. -/
theorem squeezeAll_of_le {spans : List Span} {k : Nat} (h : ∀ s ∈ spans, k ≤ s.start) :
    squeezeAll spans k = k := by
  induction spans with
  | nil => rfl
  | cons s spans ih =>
      rw [List.forall_mem_cons] at h
      show s.squeeze (squeezeAll spans k) = k
      rw [ih h.2, Span.squeeze_of_le h.1]

/-- Replacing several spans keeps offsets in their order, as each of them does. -/
theorem squeezeAll_mono (spans : List Span) {j k : Nat} (h : j ≤ k) :
    squeezeAll spans j ≤ squeezeAll spans k := by
  induction spans with
  | nil => exact h
  | cons s spans ih => exact s.squeeze_mono ih

/-- An offset behind a place in front of all spans stays behind it. -/
theorem le_squeezeAll {spans : List Span} {j k : Nat} (hj : ∀ s ∈ spans, j ≤ s.start)
    (h : j ≤ k) : j ≤ squeezeAll spans k := by
  have hmono := squeezeAll_mono spans h
  rwa [squeezeAll_of_le hj] at hmono

/-- A span that does not meet the first of several spans in order does not meet it after the
others are replaced either. -/
theorem Span.Apart.map_squeezeAll {s u : Span} {spans : List Span} (h : s.Apart u)
    (hu : u.start ≤ u.stop) (hspans : ∀ v ∈ spans, u.stop ≤ v.start) :
    (s.map (squeezeAll spans)).Apart u := by
  rcases h with hbefore | hafter
  · refine .inl ?_
    show squeezeAll spans s.stop ≤ u.start
    rwa [squeezeAll_of_le fun v hv => ?_]
    have := hspans v hv
    omega
  · exact .inr (le_squeezeAll hspans hafter)

namespace Move

/-- The tokens that were dropped, in the order of the text. Each was a stray one in front of a
wanted one. -/
def dropped (ms : List Move) : List Token :=
  ms.flatMap fun
    | drop t _ => [t]
    | pass _ | supply => []

/-- The tokens that were passed, which stay in the repaired statement. -/
def passed (ms : List Move) : List Token :=
  ms.flatMap fun
    | pass t => [t]
    | drop _ _ | supply => []

/-- The bytes of the tokens that were dropped. These are the spans to be blanked out. -/
def gaps (ms : List Move) : List Span :=
  (dropped ms).map Token.span

/-- The tokens that were dropped are among those consumed, in order. -/
theorem dropped_sublist (ms : List Move) : (dropped ms).Sublist (consumed ms) := by
  induction ms with
  | nil => exact .slnil
  | cons m ms ih =>
      cases m with
      | pass t => exact ih.cons t
      | drop t wanted => exact ih.cons_cons t
      | supply => exact ih

/-- The tokens that were passed are among those consumed, in order. -/
theorem passed_sublist (ms : List Move) : (passed ms).Sublist (consumed ms) := by
  induction ms with
  | nil => exact .slnil
  | cons m ms ih =>
      cases m with
      | pass t => exact ih.cons_cons t
      | drop t wanted => exact ih.cons t
      | supply => exact ih

/-- Two traces one after the other pass the tokens of the first and then those of the second. -/
@[simp] theorem passed_append (ms ms' : List Move) :
    passed (ms ++ ms') = passed ms ++ passed ms' := List.flatMap_append

/-- Passing all tokens of a list passes the list. -/
@[simp] theorem passed_map_pass (ts : List Token) : passed (ts.map pass) = ts := by
  induction ts with
  | nil => rfl
  | cons t ts ih => exact congrArg (t :: ·) ih

/-- The gaps of two traces one after the other come in order. -/
@[simp] theorem gaps_append (ms ms' : List Move) : gaps (ms ++ ms') = gaps ms ++ gaps ms' := by
  simp [gaps, dropped]

/-- Passing tokens leaves no gaps. -/
@[simp] theorem gaps_map_pass (ts : List Token) : gaps (ts.map pass) = [] := by
  simp [gaps, dropped, List.flatMap_map]

/-- A gap is a token that was consumed, so it lies between the two places of the reading. -/
theorem exists_of_mem_gaps {ms : List Move} {s : Span} (h : s ∈ gaps ms) :
    ∃ x ∈ consumed ms, s = x.span := by
  obtain ⟨x, hx, rfl⟩ := List.mem_map.1 h
  exact ⟨x, (dropped_sublist ms).subset hx, rfl⟩

end Move

open Move

/-- With blanks in the place of the tokens dropped those passed are left, and every slice
that meets no token dropped. -/
theorem visibleTokens_blankAll {t : Text} (vs : List Token) {ms : List Move}
    (h : visibleTokens t = vs ++ consumed ms) (hfault : Faultless t) :
    visibleTokens (blankAll (gaps ms) t)
        = (vs ++ passed ms).map (Token.move (squeezeAll (gaps ms))) ∧
      ∀ s : Span, s.start ≤ s.stop → (∀ u ∈ gaps ms, s.Apart u) →
        (s.map (squeezeAll (gaps ms))).slice (blankAll (gaps ms) t) = s.slice t := by
  -- By induction on the moves: the last gap is blanked first, so that no other one has moved.
  induction ms generalizing vs with
  | nil =>
      refine ⟨?_, fun s _ _ => rfl⟩
      show visibleTokens t = (vs ++ []).map (Token.move fun k => k)
      rw [h]
      exact (List.map_id _).symm
  | cons m ms ih =>
      have happend : ∀ x : Token, vs ++ x :: consumed ms = (vs ++ [x]) ++ consumed ms := by
        intro x
        rw [List.append_assoc, List.singleton_append]
      cases m with
      | supply => exact ih vs h
      | pass x =>
          rw [consumed_pass, happend] at h
          obtain ⟨htokens, hslices⟩ := ih (vs ++ [x]) h
          rw [List.append_assoc] at htokens
          exact ⟨htokens, hslices⟩
      | drop x wanted =>
          replace h : visibleTokens t = vs ++ x :: consumed ms := h
          have horder := pairwise_visibleTokens t
          rw [h, List.pairwise_append, List.pairwise_cons] at horder
          obtain ⟨-, ⟨hafter, -⟩, hbefore⟩ := horder
          obtain ⟨htokens, hslices⟩ := ih (vs ++ [x]) (h.trans (happend x))
          -- The tokens up to the stray one are still where they were.
          have hgaps : ∀ u ∈ gaps ms, x.stop ≤ u.start := by
            intro u hu
            obtain ⟨y, hy, rfl⟩ := exists_of_mem_gaps hu
            exact hafter y hy
          have hstay : ∀ y ∈ vs ++ [x], y.move (squeezeAll (gaps ms)) = y := by
            intro y hy
            refine Token.move_of_eq (squeezeAll_of_le fun u hu => ?_)
            have hle : y.start ≤ x.start := by
              rcases List.mem_append.1 hy with hy | hy
              · exact Nat.le_trans (Nat.le_add_right ..) (hbefore y hy x (List.mem_cons_self ..))
              · exact Nat.le_of_eq (congrArg Token.start (List.mem_singleton.1 hy))
            exact Nat.le_trans hle (Nat.le_trans (Nat.le_add_right ..) (hgaps u hu))
          have hvs : vs.map (Token.move (squeezeAll (gaps ms))) = vs := by
            refine (List.map_congr_left fun y hy => ?_).trans (List.map_id vs)
            exact hstay y (List.mem_append_left _ hy)
          have hsplit : visibleTokens (blankAll (gaps ms) t)
              = vs ++ x :: (passed ms).map (Token.move (squeezeAll (gaps ms))) := by
            rw [htokens, List.map_append, List.map_append, hvs, List.append_assoc,
              List.map_singleton, hstay x (by simp)]
            rfl
          have hclean : ∀ y ∈ vs, y.kind.fault? = none :=
            fun y hy => hfault y (by rw [h]; exact List.mem_append_left _ hy)
          obtain ⟨hmoved, hkept⟩ := visibleTokens_blankOut hsplit hclean
          refine ⟨?_, fun s hs happart => ?_⟩
          · show visibleTokens (x.span.blankOut (blankAll (gaps ms) t)) = _
            rw [hmoved]
            conv => lhs; rw [← hvs]
            rw [← List.map_append, List.map_map]
            rfl
          · have hx : s.Apart x.span := happart x.span (List.mem_cons_self ..)
            have hothers := hslices s hs fun u hu => happart u (List.mem_cons_of_mem _ hu)
            rw [← hothers]
            exact hkept _ (squeezeAll_mono _ hs)
              (hx.map_squeezeAll (Nat.le_add_right ..) hgaps)

/-! ### Stretches without repairs -/

/-- A token and the one that stands for it in an edited text: it has the same kind, and its
ends are where `f` moves them. A token that was not written may be anywhere. -/
def Moved (f : Nat → Nat) (t t' : Token) : Prop :=
  t'.kind = t.kind ∧ (t.text ≠ [] → t'.start = f t.start ∧ t'.stop = f t.stop)

/-- The last tokens of related lists are related, if there are any. -/
theorem rel_getLast? {R : Token → Token → Prop} {ts ts' : List Token} (h : List.Forall₂ R ts ts') :
    Option.Rel R ts.getLast? ts'.getLast? := by
  induction h with
  | nil => exact .none
  | cons ht hts ih =>
      cases hts with
      | nil => exact .some ht
      | cons hu hus => rwa [List.getLast?_cons_cons, List.getLast?_cons_cons]

/-- A stretch without repairs does not meet the tokens dropped elsewhere, so its text is still there
after they are blanked out. -/
theorem range_apart {ms run : List Move} (hrun : run <:+: ms) (hclean : Clean run)
    (horder : (consumed ms).Pairwise fun x y => x.stop ≤ y.start) (hne : consumed run ≠ []) :
    ∀ u ∈ gaps ms, (range run).Apart u := by
  obtain ⟨before, after, rfl⟩ := hrun
  obtain ⟨t, ts, hts⟩ := List.exists_cons_of_ne_nil hne
  -- The stretch reaches from its first token `t` to its last one `l`.
  obtain ⟨l, hl, -, hrange⟩ := exists_range hts
  have ht : t ∈ consumed run := by rw [hts]; exact List.mem_cons_self ..
  rw [consumed_append, consumed_append, List.pairwise_append] at horder
  obtain ⟨hfirst, -, hcross⟩ := horder
  intro u hu
  -- The stretch itself has no gaps, so a gap lies in front of it or behind.
  rw [gaps_append, gaps_append, hclean.eq_map_pass, gaps_map_pass, List.append_nil,
    List.mem_append] at hu
  rcases hu with hu | hu
  · obtain ⟨x, hx, rfl⟩ := exists_of_mem_gaps hu
    refine .inr ?_
    rw [hrange]
    exact (List.pairwise_append.1 hfirst).2.2 x hx t ht
  · obtain ⟨x, hx, rfl⟩ := exists_of_mem_gaps hu
    refine .inl ?_
    have htx := hcross t (List.mem_append_right _ ht) x hx
    have hlx := hcross l (List.mem_append_right _ hl) x hx
    rw [hrange]
    exact Nat.max_le.2 ⟨Nat.le_trans (Nat.le_add_right ..) htx, hlx⟩

/-- A stretch of moved tokens covers the moved bytes, if the move keeps the order. -/
theorem range_of_moved {f : Nat → Nat} (hf : ∀ {j k : Nat}, j ≤ k → f j ≤ f k)
    {ts ts' : List Token} (h : List.Forall₂ (Moved f) ts ts') (htext : ∀ x ∈ ts, x.text ≠ [])
    (hne : ts ≠ []) : range (ts'.map .pass) = (range (ts.map .pass)).map f := by
  cases h with
  | nil => exact absurd rfl hne
  | @cons t t' ts ts' ht hts =>
      have hlast := rel_getLast? (List.Forall₂.cons ht hts)
      have hcons : consumed ((t :: ts).map .pass) = t :: ts := consumed_map_pass _
      have hcons' : consumed ((t' :: ts').map .pass) = t' :: ts' := consumed_map_pass _
      -- The bytes covered are from the first token to the last one, in the list and in the moved
      -- one.
      obtain ⟨l, hmem, hl, hrange⟩ := exists_range hcons
      obtain ⟨l', -, hl', hrange'⟩ := exists_range hcons'
      rw [hcons] at hl hmem
      rw [hcons'] at hl'
      rw [hl, hl'] at hlast
      cases hlast with
      | some hll =>
          rw [hrange, hrange', (ht.2 (htext t (List.mem_cons_self ..))).1,
            (hll.2 (htext l hmem)).2, Span.map]
          congr 1
          -- A function that keeps the order also keeps the maximum of two offsets.
          rcases Nat.le_total t.start l.stop with hle | hle
          · rw [Nat.max_eq_right hle, Nat.max_eq_right (hf hle)]
          · rw [Nat.max_eq_left hle, Nat.max_eq_left (hf hle)]

/-! ### Moved tokens -/

/-- A token that meets none of the gaps moves as a whole. -/
theorem stop_move_squeezeAll {t : Token} {spans : List Span}
    (horder : spans.Pairwise fun u v => u.stop ≤ v.start) (hpos : ∀ u ∈ spans, u.start < u.stop)
    (happart : ∀ u ∈ spans, t.span.Apart u) :
    (t.move (squeezeAll spans)).stop = squeezeAll spans t.stop := by
  induction spans with
  | nil => rfl
  | cons u spans ih =>
      rw [List.pairwise_cons] at horder
      rw [List.forall_mem_cons] at hpos happart
      have hothers := ih horder.2 hpos.2 happart.2
      have hspan : (t.move (squeezeAll spans)).span = t.span.map (squeezeAll spans) := by
        rw [Token.span, hothers]
        rfl
      -- The later gaps do not move the token across the first one.
      have hu : (t.move (squeezeAll spans)).span.Apart u := by
        rw [hspan]
        exact happart.1.map_squeezeAll (Nat.le_of_lt hpos.1) horder.1
      show ((t.move (squeezeAll spans)).move u.squeeze).stop = u.squeeze (squeezeAll spans t.stop)
      rw [Token.stop_move_squeeze hpos.1 hu, hothers]

/-- The gaps lie one behind the other, as the visible tokens do. -/
theorem pairwise_gaps {t : Text} {ms : List Move} (h : visibleTokens t = consumed ms) :
    (gaps ms).Pairwise fun u v => u.stop ≤ v.start := by
  have horder := pairwise_visibleTokens t
  rw [h] at horder
  exact List.pairwise_map.2 (horder.sublist (dropped_sublist ms))

/-- Every token that was passed moves as a whole. -/
theorem moved_of_passed {t : Text} {ms : List Move} (h : visibleTokens t = consumed ms) {x : Token}
    (hx : x ∈ passed ms) :
    Moved (squeezeAll (gaps ms)) x (x.move (squeezeAll (gaps ms))) := by
  have horder := pairwise_visibleTokens t
  rw [h] at horder
  obtain ⟨m, hm, hxm⟩ := List.mem_flatMap.1 hx
  refine ⟨rfl, fun _ => ⟨rfl, stop_move_squeezeAll (pairwise_gaps h) ?_ ?_⟩⟩
  -- A gap is a token of the text, so it has bytes.
  · intro u hu
    obtain ⟨y, hy, rfl⟩ := exists_of_mem_gaps hu
    exact start_lt_stop_of_mem (by rwa [h])
  · cases m with
    | pass y =>
        cases List.mem_singleton.1 hxm
        obtain ⟨before, after, rfl⟩ := List.append_of_mem hm
        -- The token by itself is a stretch without repairs, so it meets none of the gaps.
        have hrun : [Move.pass x] <:+: before ++ .pass x :: after :=
          ⟨before, after, by rw [List.append_assoc, List.singleton_append]⟩
        have hrange : range [.pass x] = x.span :=
          congrArg _ (Nat.max_eq_right (Nat.le_add_right ..))
        have happart := range_apart hrun (clean_map_pass [x]) horder (List.cons_ne_nil x [])
        rwa [hrange] at happart
    | drop | supply => cases hxm

/-- The tokens passed and those of the edited text correspond one by one. -/
theorem forall₂_moved {t : Text} {ms : List Move} (h : visibleTokens t = consumed ms) :
    List.Forall₂ (Moved (squeezeAll (gaps ms))) (passed ms)
      ((passed ms).map (Token.move (squeezeAll (gaps ms)))) := by
  rw [List.forall₂_map_right_iff, List.forall₂_same]
  exact fun x hx => moved_of_passed h hx

/-- Parentheses are tokens by themselves, so a line of them is found as so many tokens. -/
theorem forall₂_closing (f : Nat → Nat) (k j : Nat) :
    List.Forall₂ (Moved f) (List.replicate k .closing) (visibleFrom j (List.replicate k ')')) := by
  induction k generalizing j with
  | zero => exact .nil
  | succ k ih =>
      have hfirst : visibleFrom j (')' :: List.replicate k ')')
          = ⟨.rightParen, [')'], j⟩ :: visibleFrom (j + 1) (List.replicate k ')') :=
        visibleFrom_single (scan_rightParen _) rfl
      rw [List.replicate_succ, List.replicate_succ, hfirst]
      exact .cons ⟨rfl, fun h => absurd rfl h⟩ (ih _)

/-! ### The edited text -/

/-- The text with blanks in the place of the spans and with parentheses in a line behind. -/
def edited (spans : List Span) (k : Nat) (t : Text) : Text :=
  blankAll spans t ++ '\n' :: List.replicate k ')'

/-- Moved tokens are as free of faults, since the kind of a token does not depend on its place. -/
theorem fault?_of_moved {f : Nat → Nat} {ts ts' : List Token} (h : List.Forall₂ (Moved f) ts ts')
    (hts : ∀ x ∈ ts, x.kind.fault? = none) : ∀ x ∈ ts', x.kind.fault? = none := by
  induction h with
  | nil => exact hts
  | cons ht _ ih =>
      rw [List.forall_mem_cons] at hts ⊢
      exact ⟨by rw [ht.1, hts.1], ih hts.2⟩

section

variable {t : Text} {ms : List Move} (h : visibleTokens t = consumed ms) (hfault : Faultless t)

include h hfault

/-- With blanks in the place of the gaps the visible tokens are those passed, each where the gaps in
front of it leave it. -/
theorem visibleTokens_blanked :
    visibleTokens (blankAll (gaps ms) t) = (passed ms).map (Token.move (squeezeAll (gaps ms))) :=
  (visibleTokens_blankAll [] h hfault).1

/-- The tokens passed have no faults, as the text has none, and neither has the text with blanks in
the gaps. -/
theorem fault?_of_passed : ∀ x ∈ passed ms, x.kind.fault? = none := by
  intro x hx
  exact hfault x (by rw [h]; exact (passed_sublist ms).subset hx)

/-- Blanks in the place of the gaps bring no fault. -/
theorem faultless_blanked : Faultless (blankAll (gaps ms) t) := by
  rw [Faultless, visibleTokens_blanked h hfault]
  exact fault?_of_moved (forall₂_moved h) (fault?_of_passed h hfault)

/-- The tokens of the edited text are those passed and the parentheses supplied. Those passed lie
further to the front by what was blanked out before them. -/
theorem visibleTokens_edited (k : Nat) :
    List.Forall₂ (Moved (squeezeAll (gaps ms))) (passed ms ++ List.replicate k .closing)
      (visibleTokens (edited (gaps ms) k t)) := by
  have hclean : ∀ x ∈ tokensFrom 0 (blankAll (gaps ms) t), x.kind.fault? = none :=
    fun x hx => (faultless_blanked h hfault).of_mem hx
  -- The end of the line keeps the parentheses apart from a line comment.
  have hswap := visibleFrom_swap (boundary_self 0 (blankAll (gaps ms) t)) hclean (d := '\n') rfl
    (.inl rfl) (List.replicate k ')')
  rw [edited, visibleTokens, hswap, visibleFrom_space rfl]
  refine List.rel_append ?_ (forall₂_closing _ k _)
  show List.Forall₂ _ _ (visibleTokens (blankAll (gaps ms) t))
  rw [visibleTokens_blanked h hfault]
  exact forall₂_moved h

/-- Nor do closing parentheses in a line behind. So the edited text has no lexical problem. -/
theorem faultless_edited (k : Nat) : Faultless (edited (gaps ms) k t) := by
  refine fault?_of_moved (visibleTokens_edited h hfault k) fun x hx => ?_
  rcases List.mem_append.1 hx with hx | hx
  · exact fault?_of_passed h hfault x hx
  · rw [(List.mem_replicate.1 hx).2]
    rfl

/-- A token that was passed is within the edited text. -/
theorem squeeze_stop_le {x : Token} (hx : x ∈ passed ms) :
    squeezeAll (gaps ms) x.stop ≤ Text.size (blankAll (gaps ms) t) := by
  have hmoved : x.move (squeezeAll (gaps ms)) ∈ visibleTokens (blankAll (gaps ms) t) := by
    rw [visibleTokens_blanked h hfault]
    exact List.mem_map_of_mem hx
  have hle := stop_le_of_mem (List.mem_filter.1 hmoved).1
  have htext : (x.move (squeezeAll (gaps ms))).text ≠ [] :=
    text_ne_nil (List.mem_filter.1 hmoved).1
  rwa [((moved_of_passed h hx).2 htext).2, Nat.zero_add] at hle

/-- A stretch without repairs covers the same text in the edited text. -/
theorem slice_edited (k : Nat) {run run' : List Move} (hrun : run <:+: ms) (hclean : Clean run)
    (halike : List.Forall₂ (Move.Alike (Moved (squeezeAll (gaps ms)))) run run') :
    (range run').slice (edited (gaps ms) k t) = (range run).slice t := by
  obtain ⟨ts', rfl, hts⟩ := exists_of_forall₂_map_pass (by rwa [← hclean.eq_map_pass])
  have hpassed : ∀ x ∈ consumed run, x ∈ passed ms := by
    intro x hx
    obtain ⟨before, after, rfl⟩ := hrun
    rw [hclean.eq_map_pass, passed_append, passed_append, passed_map_pass]
    exact List.mem_append_left _ (List.mem_append_right _ hx)
  cases hcons : consumed run with
  | nil =>
      -- A stretch of no tokens covers nothing.
      rw [hcons] at hts
      cases hts
      rw [hclean.eq_map_pass, hcons]
      exact (Span.slice_empty 0 _).trans (Span.slice_empty 0 _).symm
  | cons x xs =>
      have hne : consumed run ≠ [] := by rw [hcons]; exact List.cons_ne_nil x xs
      have horder := pairwise_visibleTokens t
      rw [h] at horder
      have happart := range_apart hrun hclean horder hne
      have htext : ∀ y ∈ consumed run, y.text ≠ [] := by
        intro y hy
        have hvisible : y ∈ visibleTokens t := by
          rw [h]
          exact (passed_sublist ms).subset (hpassed y hy)
        exact text_ne_nil (List.mem_filter.1 hvisible).1
      have hrange : range (ts'.map .pass) = (range run).map (squeezeAll (gaps ms)) := by
        rw [range_of_moved (squeezeAll_mono _) hts htext hne, ← hclean.eq_map_pass]
      obtain ⟨l, hl, -, hends⟩ := exists_range hcons
      have hx : x ∈ consumed run := by rw [hcons]; exact List.mem_cons_self ..
      have hstart : squeezeAll (gaps ms) x.start ≤ Text.size (blankAll (gaps ms) t) :=
        Nat.le_trans (squeezeAll_mono _ (Nat.le_add_right ..))
          (squeeze_stop_le h hfault (hpassed x hx))
      have hstop : ((range run).map (squeezeAll (gaps ms))).stop
          ≤ Text.size (blankAll (gaps ms) t) := by
        rw [hends]
        show squeezeAll (gaps ms) (max x.start l.stop) ≤ _
        rcases Nat.le_total x.start l.stop with hle | hle
        · rw [Nat.max_eq_right hle]
          exact squeeze_stop_le h hfault (hpassed l hl)
        · rw [Nat.max_eq_left hle]
          exact hstart
      rw [hrange, edited, Span.slice_append_of_le hstop]
      refine (visibleTokens_blankAll [] h hfault).2 _ ?_ happart
      rw [hends]
      exact Nat.le_max_left ..

end

end GeneratedKeys
