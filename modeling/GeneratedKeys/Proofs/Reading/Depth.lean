import GeneratedKeys.Proofs.Reading.Reads
import Mathlib.Data.Option.NAry

/-!
# `GeneratedKeys.Proofs.Reading.Depth`: how deep in parentheses tokens stand

How many parentheses are open at a token is counted from the first token on: an opening one
adds one, and a closing one takes one away unless none is open. What is skipped is skipped by
a count of its own, which starts where skipping starts. The two counts agree where it
matters: the count over the whole statement is never the smaller one, and in front of
skipping no parenthesis is open.

* `Reads.depth_pos`: a semicolon or a RETURNING that no rule asks for was skipped, so it stands
  inside parentheses.
* `Reads.depth_le`: a rule leaves no more parentheses open than it can open.

Both look at the rule as data. `avoids` asks that no token of a kind is wanted or tested for,
and `rise?` counts the parentheses that a rule can open and does not close.
-/

set_option autoImplicit false

namespace GeneratedKeys

open Move

/-! ### The depth of parentheses -/

/-- How many parentheses are open behind a token of the kind. Closing one that is not open
changes nothing. -/
def TokenKind.depth (depth : Nat) : TokenKind → Nat
  | .leftParen => depth + 1
  | .rightParen => depth - 1
  | _ => depth

/-- How many parentheses are open behind the tokens, if `depth` are open in front. Closing one that
is not open changes nothing, as when a body is skipped. -/
def depthAfter (depth : Nat) (ts : List Token) : Nat :=
  ts.foldl (fun d t => t.kind.depth d) depth

/-- No tokens leave the depth as it is. -/
@[simp] theorem depthAfter_nil (depth : Nat) : depthAfter depth [] = depth := rfl

/-- The depth behind the first token is where the others begin to count. -/
@[simp] theorem depthAfter_cons (depth : Nat) (t : Token) (ts : List Token) :
    depthAfter depth (t :: ts) = depthAfter (t.kind.depth depth) ts := rfl

/-- The depth behind some tokens is where those behind them begin to count. -/
@[simp] theorem depthAfter_append (depth : Nat) (ts us : List Token) :
    depthAfter depth (ts ++ us) = depthAfter (depthAfter depth ts) us := List.foldl_append

/-- With more parentheses open in front of a token no fewer are open behind it. -/
theorem TokenKind.depth_mono (kind : TokenKind) {d e : Nat} (h : d ≤ e) :
    kind.depth d ≤ kind.depth e := by
  cases kind <;> simp only [depth] <;> omega

/-- With more parentheses open in front no fewer are open behind, since each token changes both
counts alike. -/
theorem depthAfter_mono {d e : Nat} (h : d ≤ e) (ts : List Token) :
    depthAfter d ts ≤ depthAfter e ts := by
  induction ts generalizing d e with
  | nil => exact h
  | cons t ts ih => exact ih (t.kind.depth_mono h)

/-- The last tokens leave no parenthesis open if all tokens do not. -/
theorem depthAfter_eq_zero {ts us : List Token} (h : depthAfter 0 (ts ++ us) = 0) :
    depthAfter 0 us = 0 := by
  rw [depthAfter_append] at h
  have hmono := depthAfter_mono (Nat.zero_le (depthAfter 0 ts)) us
  omega

/-- Kinds of one class change the depth alike, since parentheses carry no value. -/
theorem TokenKind.depth_of_sameClass {j k : TokenKind} (h : j.sameClass k = true) (d : Nat) :
    j.depth d = k.depth d := by
  cases j <;> cases k <;> first | rfl | (simp [sameClass] at h)

/-- One token opens one parenthesis at most. So the depth is never more than the number of tokens.
-/
theorem TokenKind.depth_le (kind : TokenKind) (d : Nat) : kind.depth d ≤ d + 1 := by
  cases kind <;> simp only [depth] <;> omega

/-- Only an opening parenthesis opens one, so behind any other token no more are open than before.
-/
theorem TokenKind.depth_le_of_ne {kind : TokenKind} (h : kind ≠ .leftParen) (d : Nat) :
    kind.depth d ≤ d := by
  cases kind <;> simp only [depth] <;> first | omega | exact absurd rfl h

/-- Parentheses that stay open in front do not change what a token does to the others. -/
theorem TokenKind.depth_le_add (kind : TokenKind) {before opened d : Nat}
    (h : d ≤ before + opened) : kind.depth d ≤ before + kind.depth opened := by
  cases kind <;> simp only [depth] <;> omega

/-! ### What is skipped -/

/-- Skipping token by token: it stops at a semicolon or a RETURNING outside parentheses, and
otherwise goes on behind the token, at the depth there. -/
theorem bodyLength_cons (depth : Nat) (t : Token) (ts : List Token) :
    State.bodyLength depth (t :: ts) =
      if depth = 0 ∧ (t.kind = .semicolon ∨ t.kind = .keyword .returning) then 0
      else State.bodyLength (t.kind.depth depth) ts + 1 := by
  rw [State.bodyLength]
  cases t.kind <;> rfl

/-- No more tokens are skipped than there are, so skipping ends at the end of the text. -/
theorem bodyLength_le (depth : Nat) (ts : List Token) :
    State.bodyLength depth ts ≤ ts.length := by
  induction ts generalizing depth with
  | nil => exact Nat.le_refl 0
  | cons t ts ih =>
      rw [bodyLength_cons]
      split
      · exact Nat.zero_le _
      · exact Nat.succ_le_succ (ih _)

/-- What is skipped is as long as it says: the tokens up to the place where `bodyLength` stops, each
passed as it stands. -/
theorem Reads.skipped {n : Nat} {ts rest : List Token} {ms : List Move} {ks : List Note}
    (h : Reads n .skip ts ms ks rest) :
    ∃ us, ts = us ++ rest ∧ ms = us.map .pass ∧ ks = [] ∧
      State.bodyLength 0 (us ++ rest) = us.length := by
  cases h with
  | skip =>
      refine ⟨_, (List.take_append_drop _ ts).symm, rfl, rfl, ?_⟩
      rw [List.take_append_drop, List.length_take, Nat.min_eq_left (bodyLength_le 0 ts)]

/-- A semicolon or a RETURNING is skipped inside parentheses only. Outside of them it is where
skipping stops. -/
theorem depthAfter_pos_of_skipped {depth : Nat} {us rest : List Token} {t : Token}
    (h : us.length < State.bodyLength depth (us ++ t :: rest))
    (ht : t.kind = .semicolon ∨ t.kind = .keyword .returning) : 0 < depthAfter depth us := by
  induction us generalizing depth with
  | nil =>
      rw [List.nil_append, bodyLength_cons] at h
      rw [depthAfter_nil]
      -- Outside parentheses skipping would have stopped at this token.
      refine Nat.pos_of_ne_zero fun hzero => ?_
      rw [if_pos ⟨hzero, ht⟩] at h
      exact absurd h (Nat.lt_irrefl 0)
  | cons u us ih =>
      rw [List.cons_append, bodyLength_cons, List.length_cons] at h
      split at h
      · exact absurd h (Nat.not_lt_zero _)
      · exact ih (Nat.lt_of_succ_lt_succ h)

/-- Skipping that stops in front of a token stops outside parentheses, so a clause found there
belongs to the statement. -/
theorem depthAfter_skipped {depth : Nat} {us rest : List Token}
    (h : State.bodyLength depth (us ++ rest) = us.length) (hrest : rest ≠ []) :
    depthAfter depth us = 0 := by
  induction us generalizing depth with
  | nil =>
      -- It stops in front of a token, and it stops at one only outside parentheses.
      obtain ⟨t, rest, rfl⟩ := List.exists_cons_of_ne_nil hrest
      rw [List.nil_append, bodyLength_cons] at h
      split at h
      · next hstop => exact hstop.1
      · cases h
  | cons u us ih =>
      rw [List.cons_append, bodyLength_cons] at h
      split at h
      · cases h
      · exact ih (Nat.succ.inj h)

/-- What is skipped in front of a token leaves no parenthesis open. -/
theorem depthAfter_body {ts : List Token} (h : ts.drop (State.bodyLength 0 ts) ≠ []) :
    depthAfter 0 (ts.take (State.bodyLength 0 ts)) = 0 := by
  have hlength : State.bodyLength 0 (ts.take (State.bodyLength 0 ts)
      ++ ts.drop (State.bodyLength 0 ts)) = (ts.take (State.bodyLength 0 ts)).length := by
    rw [List.take_append_drop, List.length_take, Nat.min_eq_left (bodyLength_le 0 ts)]
  exact depthAfter_skipped hlength h

/-! ### Tokens that are not asked for -/

/-- Whether the rule passes no token of the kind, if the next tokens pass the tests. What is
skipped does not count. -/
def Rule.avoids (kind : TokenKind) (tests : List (TokenKind → Bool)) : Rule → Bool
  | seq first second =>
    first.avoids kind tests
      && second.avoids kind (tests.drop (tests.length - first.untaken tests.length))
  | expect wanted => !kind.sameClass wanted
  | take => tests.head?.any fun test => !test kind
  | branch tested yes no => yes.avoids kind tested && no.avoids kind tests
  | foresee _ yes no => yes.avoids kind tests && no.avoids kind tests
  | repeatWhile test body => body.avoids kind [test]
  | record _ body | together body => body.avoids kind tests
  | _ => true

/-- The tests that still hold of the next tokens behind a rule. -/
theorem Reads.passes_untaken {n : Nat} {r : Rule} {ts rest : List Token} {ms : List Move}
    {ks : List Note} {tests : List (TokenKind → Bool)} (h : Reads n r ts ms ks rest)
    (hts : State.passes tests ts = true) :
    State.passes (tests.drop (tests.length - r.untaken tests.length)) rest = true := by
  -- Most rules are not known to leave any tested token ahead. Then no test is left to pass.
  have hnone : ∀ {us : List Token}, State.passes (tests.drop (tests.length - 0)) us = true := by
    intro us
    rw [Nat.sub_zero, List.drop_length]
    rfl
  cases h with
  | empty => simpa [Rule.untaken] using hts
  | take =>
      cases tests with
      | nil => rfl
      | cons test tests =>
          simp only [State.passes, Bool.and_eq_true] at hts
          simpa [Rule.untaken] using hts.2
  | _ => exact hnone

/-- Where a token stands in the first of two stretches or in the second one, parentheses are
open in front of it. Behind the first stretch no fewer are open than behind nothing. -/
theorem depthAfter_pos_of_append {first second us vs : List Token} {t : Token}
    (h : first ++ second = us ++ t :: vs)
    (h₁ : ∀ {us vs : List Token}, first = us ++ t :: vs → 0 < depthAfter 0 us)
    (h₂ : ∀ {us vs : List Token}, second = us ++ t :: vs → 0 < depthAfter 0 us) :
    0 < depthAfter 0 us := by
  -- The token stands in the second stretch, or in the first one.
  rcases List.append_eq_append_iff.1 h with ⟨as, rfl, hsecond⟩ | ⟨as, hfirst, hsecond⟩
  · rw [depthAfter_append]
    exact Nat.lt_of_lt_of_le (h₂ hsecond) (depthAfter_mono (Nat.zero_le _) _)
  · cases as with
    | nil =>
        -- It would be the first token of the second stretch, with nothing open in front of it.
        have hpos : 0 < depthAfter 0 [] := h₂ hsecond.symm
        exact absurd hpos (Nat.lt_irrefl 0)
    | cons u as =>
        obtain ⟨rfl, -⟩ := List.cons.inj hsecond
        exact h₁ hfirst

/-- A semicolon or a RETURNING that is passed by a rule which avoids it was skipped, so a
parenthesis is open in front of it. -/
theorem Reads.depth_pos {n : Nat} {r : Rule} {ts rest : List Token} {ms : List Move}
    {ks : List Note} {tests : List (TokenKind → Bool)} {kind : TokenKind}
    (h : Reads n r ts ms ks rest) (hclean : Clean ms) (hr : r.avoids kind tests = true)
    (hts : State.passes tests ts = true)
    (hkind : kind = .semicolon ∨ kind = .keyword .returning) {us vs : List Token} {t : Token}
    (hsplit : consumed ms = us ++ t :: vs) (ht : t.kind = kind) : 0 < depthAfter 0 us := by
  -- A single token is the one in question.
  have single : ∀ {u : Token} {us vs : List Token}, [u] = us ++ t :: vs → u = t := by
    intro u us vs hu
    cases us with
    | nil => exact (List.cons.inj hu).1
    | cons v us => simp at hu
  induction h generalizing tests us vs with
  | seq hfirst _ ih₁ ih₂ =>
      rw [clean_append] at hclean
      simp only [Rule.avoids, Bool.and_eq_true] at hr
      rw [Move.consumed_append] at hsplit
      exact depthAfter_pos_of_append hsplit (ih₁ hclean.1 hr.1 hts)
        (ih₂ hclean.2 hr.2 (hfirst.passes_untaken hts))
  | again hp _ _ ih₁ ih₂ =>
      rw [clean_append] at hclean
      rw [Move.consumed_append] at hsplit
      -- The rule repeated does not depend on the tests in front of it.
      exact depthAfter_pos_of_append hsplit (ih₁ hclean.1 hr hp)
        (ih₂ hclean.2 (show Rule.avoids kind [] _ = true from hr) rfl)
  | expect hk =>
      cases single hsplit
      simp [Rule.avoids, ← ht, hk] at hr
  | dropped => simp [clean_cons] at hclean
  | supplied => simp [clean_cons] at hclean
  | take =>
      -- A taken token was tested, and no test that the kind passes is allowed here.
      cases single hsplit
      cases tests with
      | nil => cases hr
      | cons test tests =>
          simp only [State.passes, Bool.and_eq_true] at hts
          simp [Rule.avoids, ← ht, hts.1] at hr
  | yes hp _ ih =>
      simp only [Rule.avoids, Bool.and_eq_true] at hr
      exact ih hclean hr.1 hp hsplit
  | no _ _ ih =>
      simp only [Rule.avoids, Bool.and_eq_true] at hr
      exact ih hclean hr.2 hts hsplit
  | foreseen _ _ ih =>
      simp only [Rule.avoids, Bool.and_eq_true] at hr
      exact ih hclean hr.1 hts hsplit
  | unforeseen _ _ ih =>
      simp only [Rule.avoids, Bool.and_eq_true] at hr
      exact ih hclean hr.2 hts hsplit
  | value _ ih =>
      have hvalue : ∀ power, (Grammar.value power).avoids kind [] = true := by
        rcases hkind with rfl | rfl <;> exact fun power => rfl
      exact ih hclean (hvalue _) rfl hsplit
  | @skip _ ws =>
      rw [consumed_map_pass] at hsplit
      -- The token is one of those skipped, so more is skipped than what is in front of it.
      have hws : ws = us ++ t :: (vs ++ ws.drop (State.bodyLength 0 ws)) := by
        rw [← List.cons_append, ← List.append_assoc, ← hsplit, List.take_append_drop]
      have hlength : us.length < State.bodyLength 0 ws := by
        have hlen := congrArg List.length hsplit
        rw [List.length_take, List.length_append, List.length_cons] at hlen
        omega
      rw [hws] at hlength
      exact depthAfter_pos_of_skipped hlength (by rwa [ht])
  | record _ ih | together _ ih => exact ih hclean hr hts hsplit
  | _ => simp at hsplit

/-! ### Parentheses that are left open -/

/-- Whether the rule skips tokens. Only the rules of whole statements do, never those of a value or
a data type. -/
def Rule.skips : Rule → Bool
  | seq first second => first.skips || second.skips
  | branch _ yes no | foresee _ yes no => yes.skips || no.skips
  | repeatWhile _ body | record _ body | together body => body.skips
  | skip => true
  | _ => false

/-- How many parentheses the rule leaves open at most, if `opened` are open in front of it and
the next tokens pass the tests. A rule that is repeated must close what it opens, and skipping
must begin outside parentheses. -/
def Rule.rise? (tests : List (TokenKind → Bool)) (opened : Nat) : Rule → Option Nat
  | seq first second =>
    (first.rise? tests opened).bind fun more =>
      second.rise? (tests.drop (tests.length - first.untaken tests.length)) more
  | expect wanted => some (wanted.depth opened)
  | take =>
    some (if tests.head?.any fun test => !test .leftParen then opened else opened + 1)
  | branch tested yes no => Option.map₂ max (yes.rise? tested opened) (no.rise? tests opened)
  | foresee _ yes no => Option.map₂ max (yes.rise? tests opened) (no.rise? tests opened)
  | repeatWhile test body =>
    if body.rise? [test] 0 = some 0 ∧ body.skips = false then some opened else none
  | skip => if opened = 0 then some 0 else none
  | record _ body | together body => body.rise? tests opened
  | _ => some opened

/-- A token that is taken opens a parenthesis at most, and none if an opening one does not pass
the tests. -/
theorem depth_le_of_take {tests : List (TokenKind → Bool)} {t : Token} {ts : List Token}
    {before opened most depth : Nat} (hr : Rule.take.rise? tests opened = some most)
    (hts : State.passes tests (t :: ts) = true) (hdepth : depth ≤ before + opened) :
    t.kind.depth depth ≤ before + most := by
  rw [Rule.rise?, Option.some.injEq] at hr
  subst hr
  split
  · next hhead =>
    cases tests with
    | nil => cases hhead
    | cons test tests =>
        simp only [State.passes, Bool.and_eq_true] at hts
        -- The first test refuses opening parentheses, and the token has passed it.
        have hne : t.kind ≠ .leftParen := fun heq => by simp [← heq, hts.1] at hhead
        exact Nat.le_trans (TokenKind.depth_le_of_ne hne depth) hdepth
  · exact Nat.le_trans (t.kind.depth_le depth) (Nat.succ_le_succ hdepth)

/-- A rule leaves no more parentheses open than it can open. Skipping needs that no other
ones are open in front of the rule, and that it stops in front of a token. -/
theorem Reads.depth_le {n : Nat} {r : Rule} {ts rest : List Token} {ms : List Move}
    {ks : List Note} {tests : List (TokenKind → Bool)} {before opened most depth : Nat}
    (h : Reads n r ts ms ks rest) (hclean : Clean ms) (hr : r.rise? tests opened = some most)
    (hts : State.passes tests ts = true)
    (hskip : r.skips = false ∨ before = 0 ∧ rest ≠ []) (hdepth : depth ≤ before + opened) :
    depthAfter depth (consumed ms) ≤ before + most := by
  induction h generalizing tests before opened most depth with
  | seq hfirst hsecond ih₁ ih₂ =>
      rw [clean_append] at hclean
      simp only [Rule.skips, Bool.or_eq_false_iff] at hskip
      obtain ⟨more, hmore, hmost⟩ := Option.bind_eq_some_iff.1 hr
      -- If a token is left behind both, one is left behind the first.
      have hleft : ∀ {mid rest : List Token} {ms : List Move}, consumed ms ++ rest = mid →
          rest ≠ [] → mid ≠ [] := by
        rintro mid rest ms rfl hrest hnil
        exact hrest (List.append_eq_nil_iff.1 hnil).2
      have hmid := ih₁ hclean.1 hmore hts
        (hskip.imp And.left (And.imp_right (hleft hsecond.consumed_append))) hdepth
      rw [Move.consumed_append, depthAfter_append]
      exact ih₂ hclean.2 hmost (hfirst.passes_untaken hts) (hskip.imp_left And.right) hmid
  | again hp hbody hrest ih₁ ih₂ =>
      rw [clean_append] at hclean
      have hrepeat := hr
      rw [Rule.rise?] at hr
      split at hr
      · next hflat =>
        cases hr
        -- The parentheses open so far are as good as open in front of the body.
        have hmid := ih₁ hclean.1 hflat.1 hp (.inl hflat.2)
          (show depth ≤ before + opened + 0 from hdepth)
        rw [Move.consumed_append, depthAfter_append]
        exact ih₂ hclean.2 (by rw [Rule.rise?, if_pos hflat])
          (show State.passes [] _ = true from rfl) (.inl hflat.2) hmid
      · cases hr
  | expect hk =>
      cases hr
      rw [consumed_pass, consumed_nil, depthAfter_cons, depthAfter_nil,
        TokenKind.depth_of_sameClass hk]
      exact TokenKind.depth_le_add _ hdepth
  | dropped => simp [clean_cons] at hclean
  | supplied => simp [clean_cons] at hclean
  | take =>
      rw [consumed_pass, consumed_nil, depthAfter_cons, depthAfter_nil]
      exact depth_le_of_take hr hts hdepth
  | yes hp _ ih =>
      obtain ⟨yes, no, hyes, hno, rfl⟩ := Option.map₂_eq_some_iff.1 hr
      simp only [Rule.skips, Bool.or_eq_false_iff] at hskip
      have hle := ih hclean hyes hp (hskip.imp_left And.left) hdepth
      omega
  | no _ _ ih =>
      obtain ⟨yes, no, hyes, hno, rfl⟩ := Option.map₂_eq_some_iff.1 hr
      simp only [Rule.skips, Bool.or_eq_false_iff] at hskip
      have hle := ih hclean hno hts (hskip.imp_left And.right) hdepth
      omega
  | foreseen _ _ ih =>
      obtain ⟨yes, no, hyes, hno, rfl⟩ := Option.map₂_eq_some_iff.1 hr
      simp only [Rule.skips, Bool.or_eq_false_iff] at hskip
      have hle := ih hclean hyes hts (hskip.imp_left And.left) hdepth
      omega
  | unforeseen _ _ ih =>
      obtain ⟨yes, no, hyes, hno, rfl⟩ := Option.map₂_eq_some_iff.1 hr
      simp only [Rule.skips, Bool.or_eq_false_iff] at hskip
      have hle := ih hclean hno hts (hskip.imp_left And.right) hdepth
      omega
  | value _ ih =>
      cases hr
      -- A value closes every parenthesis that it opens.
      have hflat : ∀ power, (Grammar.value power).rise? [] 0 = some 0 := fun power => rfl
      have hle : depthAfter depth (consumed _) ≤ before + opened + 0 :=
        ih hclean (hflat _) (show State.passes [] _ = true from rfl) (.inl rfl) hdepth
      exact hle
  | skip =>
      rw [Rule.rise?] at hr
      split at hr
      · next hopened =>
        cases hr
        subst hopened
        obtain ⟨rfl, hrest⟩ := hskip.resolve_left (by simp [Rule.skips])
        obtain rfl : depth = 0 := Nat.le_zero.1 hdepth
        rw [consumed_map_pass]
        exact Nat.le_of_eq (depthAfter_body hrest)
      · cases hr
  | stop =>
      rw [Rule.rise?] at hr
      split at hr
      · cases hr
        exact hdepth
      · cases hr
  | record _ ih | together _ ih => exact ih hclean hr hts hskip hdepth
  | _ =>
      cases hr
      exact hdepth

end GeneratedKeys
