import GeneratedKeys.Proofs.Statement.Problems
import GeneratedKeys.Proofs.Token.Tiling

/-!
# `GeneratedKeys.Proofs.Token.Driven`: one lexer, asked in any order

A lexer is asked for its next token, for all tokens that are left, or for the visible ones of them,
as often and in any order. All answers come from one list, the tokens of the text: every pull takes
the stretch of it that comes next, and what is handed out is the stretch, without its hidden tokens
if only visible ones were asked for. Where nothing is left there is still the token of the end, and
pulling goes on to yield it.

* `Lexer.Behind`: the lexer stands behind some tokens of a text.
* `Served`: pulls that are answered from a list of tokens.
* `Lexer.Behind.served`: a lexer answers as the list of the tokens that are left does.
* `drive_accounts`: stretches and answers for every text and all pulls.
-/

set_option autoImplicit false

namespace GeneratedKeys

namespace Lexer

/-- The ways to ask a lexer for tokens. They may be mixed in any order. -/
inductive Pull where
  /-- The next token. -/
  | one
  /-- All visible tokens that are left. -/
  | visible
  /-- All tokens that are left. -/
  | all
  deriving DecidableEq, Repr

/-- The answer to a pull, and the place after it. A pull of one is answered with the token of the
end if no other is left. -/
def pull (l : Lexer) : Pull → List Token × Lexer
  | .one => ([l.next.1], l.next.2)
  | .visible => l.restVisible
  | .all => l.restAll

/-- The answers to pulls that are made one after the other, and the place after the last one. -/
def drive (l : Lexer) : List Pull → List (List Token) × Lexer
  | [] => ([], l)
  | p :: ps => ((l.pull p).1 :: ((l.pull p).2.drive ps).1, ((l.pull p).2.drive ps).2)

/-- What is handed out of the tokens that a pull takes. Only a pull of the visible ones drops any,
and it drops the hidden ones. -/
def Pull.kept : Pull → List Token → List Token
  | .visible, s => s.filter fun x => !x.isHidden
  | .one, s | .all, s => s

/-- The lexer stands behind the tokens `ts` of the text, which its lexical problems are those of. -/
structure Behind (t : Text) (ts : List Token) (l : Lexer) : Prop where
  /-- What is left of the text is what the tokens do not cover. -/
  text_eq : ts.flatMap Token.text ++ l.rest = t
  offset_eq : l.offset = Text.size (ts.flatMap Token.text)
  /-- The tokens of what is left are the others of the text. -/
  tokens_eq : ts ++ tokensFrom l.offset l.rest = tokens t
  problems_eq : l.problems = lexicalProblems ts

end Lexer

open Lexer

/-! ### Pulls from a list of tokens -/

/-- The pulls `ps`, made where the tokens `us` are ahead, take the stretches `ss` of them, get the
answers `as` and leave the tokens `vs`. The token of the end is `e`. There is one constructor for
each way in which a pull goes: it takes one token, it finds none left, or it takes all that are
left. -/
inductive Served (e : Token) :
    List Token → List Pull → List (List Token) → List (List Token) → List Token → Prop where
  | done {us : List Token} : Served e us [] [] [] us
  | one {u : Token} {us vs : List Token} {ps : List Pull} {ss as : List (List Token)} :
      Served e us ps ss as vs → Served e (u :: us) (.one :: ps) ([u] :: ss) ([u] :: as) vs
  | ended {vs : List Token} {ps : List Pull} {ss as : List (List Token)} :
      Served e [] ps ss as vs → Served e [] (.one :: ps) ([] :: ss) ([e] :: as) vs
  | rest {p : Pull} {us vs : List Token} {ps : List Pull} {ss as : List (List Token)} :
      p ≠ .one → Served e [] ps ss as vs →
        Served e us (p :: ps) (us :: ss) ((p.kept us ++ [e]) :: as) vs

/-- Nothing is handed out that was not taken, so every token handed out is one of the text. -/
theorem mem_of_mem_kept {p : Pull} {us : List Token} {x : Token} (h : x ∈ p.kept us) : x ∈ us := by
  cases p with
  | visible => exact (List.mem_filter.1 h).1
  | one | all => exact h

namespace Served

variable {e : Token} {us vs : List Token} {ps : List Pull} {ss as : List (List Token)}

/-- Every pull takes one stretch, if only an empty one, so stretches and pulls can be counted
together. -/
theorem length_eq (h : Served e us ps ss as vs) : ss.length = ps.length := by
  induction h with
  | done => rfl
  | one _ ih | ended _ ih | rest _ _ ih => exact congrArg (· + 1) ih

/-- The stretches lie side by side in front of what is left. -/
theorem flatten_append (h : Served e us ps ss as vs) : ss.flatten ++ vs = us := by
  induction h with
  | done => rfl
  | one _ ih => exact congrArg _ ih
  | ended _ ih => exact ih
  | rest _ _ ih =>
      rw [List.flatten_cons, List.append_assoc, ih, List.append_nil]

/-- The token of the end aside, an answer is what is kept of its stretch. -/
theorem answers_eq (h : Served e us ps ss as vs) (he : e.isEof = true)
    (hus : ∀ u ∈ us, u.isEof = false) :
    as.map (List.filter fun x => !x.isEof) = List.zipWith Pull.kept ps ss := by
  induction h with
  | done => rfl
  | one _ ih =>
      have hrest := ih fun u hu => hus u (List.mem_cons_of_mem _ hu)
      have hfirst := hus _ List.mem_cons_self
      simp [hrest, hfirst, Pull.kept]
  | ended _ ih => simp [ih hus, he, Pull.kept]
  | @rest p us vs ps ss as hp _ ih =>
      -- What is kept of a stretch holds no end token, so only the one behind it is taken away.
      have hkept : (p.kept us).filter (fun x => !x.isEof) = p.kept us := by
        rw [List.filter_eq_self]
        intro x hx
        simp [hus x (mem_of_mem_kept hx)]
      simp [ih, he, hkept]

/-- One token is handed out for each pull of one. At the end that is the token of the end, once more
each time. -/
theorem single (h : Served e us ps ss as vs) {i : Nat} (hi : ps[i]? = some .one) :
    ∃ x, as[i]? = some [x] := by
  induction h generalizing i with
  | done => cases hi
  | one _ ih | ended _ ih =>
      cases i with
      | zero => exact ⟨_, rfl⟩
      | succ i => exact ih hi
  | rest hp _ ih =>
      cases i with
      | zero => exact absurd (Option.some.inj hi) hp
      | succ i => exact ih hi

/-- Every other answer ends with the token of the end, which stands nowhere else in it. -/
theorem closed (h : Served e us ps ss as vs) (hus : ∀ u ∈ us, u.isEof = false) {i : Nat} {p : Pull}
    (hi : ps[i]? = some p) (hp : p ≠ .one) :
    ∃ body, as[i]? = some (body ++ [e]) ∧ ∀ x ∈ body, x.isEof = false := by
  induction h generalizing i with
  | done => cases hi
  | one _ ih =>
      cases i with
      | zero => exact absurd (Option.some.inj hi).symm hp
      | succ i => exact ih (fun u hu => hus u (List.mem_cons_of_mem _ hu)) hi
  | ended _ ih =>
      cases i with
      | zero => exact absurd (Option.some.inj hi).symm hp
      | succ i => exact ih hus hi
  -- A pull for more leaves nothing ahead, so the later ones start from no token.
  | rest _ _ ih =>
      cases i with
      | zero => exact ⟨_, rfl, fun x hx => hus x (mem_of_mem_kept hx)⟩
      | succ i => exact ih (fun u hu => absurd hu List.not_mem_nil) hi

/-- Where all tokens have been taken, an answer is the token of the end. -/
theorem ended_of_flatten (h : Served e us ps ss as vs) {i : Nat} (hi : i < ps.length)
    (hall : (ss.take i).flatten = us) : as[i]? = some [e] := by
  induction h generalizing i with
  | done => exact absurd hi (Nat.not_lt_zero i)
  | one _ ih =>
      cases i with
      | zero => cases hall
      | succ i => exact ih (Nat.lt_of_succ_lt_succ hi) (List.cons.inj hall).2
  | ended _ ih =>
      cases i with
      | zero => rfl
      | succ i => exact ih (Nat.lt_of_succ_lt_succ hi) hall
  -- Everything was taken with this pull or before it.
  | @rest p us vs ps ss as _ _ ih =>
      cases i with
      | zero =>
          obtain rfl : [] = us := hall
          cases p <;> rfl
      | succ i =>
          rw [List.take_succ_cons, List.flatten_cons] at hall
          -- The first stretch is all there is, so the others are empty.
          have hnil := List.append_cancel_left (hall.trans (List.append_nil us).symm)
          exact ih (Nat.lt_of_succ_lt_succ hi) hnil

/-- Where no token is ahead, nothing is taken any more. -/
theorem flatten_take_of_nil (h : Served e [] ps ss as vs) (i : Nat) : (ss.take i).flatten = [] := by
  have hnil : ss.flatten = [] := (List.append_eq_nil_iff.1 h.flatten_append).1
  rw [List.flatten_eq_nil_iff] at hnil ⊢
  intro s hs
  exact hnil s (List.mem_of_mem_take hs)

/-- As long as a token is left, a pull of one takes the first of them, and hands it out. The number
of tokens taken before is where that token stands among those that were ahead at the beginning. -/
theorem advances (h : Served e us ps ss as vs) {i : Nat} (hi : ps[i]? = some .one)
    (hleft : (ss.take i).flatten ≠ us) :
    ∃ x, us[(ss.take i).flatten.length]? = some x ∧ ss[i]? = some [x] ∧ as[i]? = some [x] := by
  induction h generalizing i with
  | done => cases hi
  | @one u us vs ps ss as _ ih =>
      cases i with
      | zero => exact ⟨u, rfl, rfl, rfl⟩
      | succ i =>
          have hothers : (ss.take i).flatten ≠ us := fun hus => hleft (congrArg (u :: ·) hus)
          exact ih hi hothers
  | ended _ ih =>
      cases i with
      | zero => exact absurd rfl hleft
      | succ i => exact ih hi hleft
  | @rest p us vs ps ss as hp hserved _ =>
      cases i with
      | zero => exact absurd (Option.some.inj hi) hp
      | succ i =>
          -- All tokens went with the first pull, so none is left for this one.
          refine absurd ?_ hleft
          show us ++ (ss.take i).flatten = us
          rw [hserved.flatten_take_of_nil, List.append_nil]

/-- Every other pull takes all tokens that are left. -/
theorem exhausts (h : Served e us ps ss as vs) {i : Nat} {p : Pull} (hi : ps[i]? = some p)
    (hp : p ≠ .one) : (ss.take (i + 1)).flatten = us := by
  induction h generalizing i with
  | done => cases hi
  | one _ ih =>
      cases i with
      | zero => exact absurd (Option.some.inj hi).symm hp
      | succ i => exact congrArg _ (ih hi)
  | ended _ ih =>
      cases i with
      | zero => exact absurd (Option.some.inj hi).symm hp
      | succ i => exact ih hi
  | @rest p us vs ps ss as _ hserved _ =>
      -- The first such pull has taken everything, and those behind it find nothing.
      show us ++ (ss.take i).flatten = us
      rw [hserved.flatten_take_of_nil, List.append_nil]

/-- The faulty tokens are handed out whatever is asked for, as they are visible. So every lexical
problem has its token among the answers. -/
theorem filter_isError (h : Served e us ps ss as vs) (he : e.isError = false) :
    as.flatten.filter Token.isError = ss.flatten.filter Token.isError := by
  induction h with
  | done => rfl
  | one _ ih =>
      rw [List.flatten_cons, List.flatten_cons, List.filter_append, List.filter_append, ih]
  | ended _ ih => simp [ih, he]
  | @rest p us vs ps ss as _ _ ih =>
      have hkept : (p.kept us).filter Token.isError = us.filter Token.isError := by
        cases p with
        | one | all => rfl
        | visible =>
            rw [Pull.kept, List.filter_filter]
            -- A hidden token is never faulty, so leaving it out loses no fault.
            refine List.filter_congr fun x _ => ?_
            cases hhidden : x.isHidden with
            | false => simp
            | true =>
                have hfault := fault?_of_hidden (x := x) (by simp [Token.isVisible, hhidden])
                simp [Token.isError, hfault]
      simp [ih, he, hkept]

end Served

/-! ### Pulls from a lexer -/

namespace Lexer

variable {t : Text} {ts : List Token} {l : Lexer}

/-- The token of the end aside, all that is left are the tokens of the text that is left. -/
theorem filter_restAll (l : Lexer) :
    l.restAll.1.filter (fun x => !x.isEof) = tokensFrom l.offset l.rest := by
  have hkeep : (tokensFrom l.offset l.rest).filter (fun x => !x.isEof)
      = tokensFrom l.offset l.rest := by
    rw [List.filter_eq_self]
    intro x hx
    rw [Bool.not_eq_true']
    exact isEof_of_mem hx
  show (_ ++ [Token.atEnd _]).filter _ = _
  rw [List.filter_append, hkeep]
  exact List.append_nil _

/-- The three ways in which a pull is answered. -/
theorem pull_cases (l : Lexer) (p : Pull) :
    (p = .one ∧ l.rest = [] ∧ l.pull p = ([.atEnd l.offset], l)) ∨
    (p = .one ∧ ∃ c u, l.rest = c :: u ∧ l.pull p = ([firstToken l.offset c u], l.next.2)) ∨
    (p ≠ .one ∧ l.pull p = (p.kept (tokensFrom l.offset l.rest)
      ++ [.atEnd (l.offset + Text.size l.rest)], l.restAll.2)) := by
  cases p with
  | one =>
      cases hl : l.rest with
      | nil => simp [Lexer.pull, next, hl]
      | cons c u => simp [Lexer.pull, next, hl]
  | visible =>
      -- The filter of the visible tokens keeps the token of the end.
      refine .inr (.inr ⟨by decide, ?_⟩)
      simp only [Lexer.pull, restVisible, restAll, Pull.kept, List.filter_append]
      rfl
  | all => exact .inr (.inr ⟨by decide, rfl⟩)

/-- The first token of what is left, and the tokens behind it. -/
theorem tokensFrom_of_rest {l : Lexer} {c : Char} {u : Text} (hl : l.rest = c :: u) :
    tokensFrom l.offset l.rest
      = firstToken l.offset c u :: tokensFrom l.next.2.offset l.next.2.rest := by
  obtain ⟨offset, rest, problems⟩ := l
  obtain rfl : rest = c :: u := hl
  rw [next_cons, tokensFrom_cons]

/-- A new lexer stands behind no token, and all of them are still to come. -/
theorem behind_ofText (t : Text) : Behind t [] (ofText t) := ⟨rfl, rfl, rfl, rfl⟩

namespace Behind

/-- What is left of the text begins at the place, so the two sizes add up to that of the text. -/
theorem size_eq (h : Behind t ts l) : l.offset + Text.size l.rest = Text.size t := by
  rw [h.offset_eq, ← Text.size_append, h.text_eq]

/-- A place is passed with the tokens of a stretch in front of another place. -/
theorem append (h : Behind t ts l) (us : List Token) (rest : Text)
    (hus : us ++ tokensFrom (l.offset + Text.size (us.flatMap Token.text)) rest
      = tokensFrom l.offset l.rest)
    (hrest : us.flatMap Token.text ++ rest = l.rest) :
    Behind t (ts ++ us) ⟨l.offset + Text.size (us.flatMap Token.text), rest,
      l.problems.append (lexicalProblems us)⟩ where
  text_eq := by rw [List.flatMap_append, List.append_assoc, hrest, h.text_eq]
  offset_eq := by rw [List.flatMap_append, Text.size_append, h.offset_eq]
  tokens_eq := by rw [List.append_assoc, hus, h.tokens_eq]
  problems_eq := by rw [lexicalProblems_append, h.problems_eq]

/-- All tokens that are left are passed at once, and their problems are recorded in their order. -/
theorem restAll (h : Behind t ts l) :
    Behind t (ts ++ tokensFrom l.offset l.rest) l.restAll.2 := by
  have htexts := flatMap_text_tokensFrom l.offset l.rest
  have hbehind := h.append (tokensFrom l.offset l.rest) []
    (List.append_nil _) (by rw [htexts, List.append_nil])
  rwa [htexts] at hbehind

/-- The next token is passed: the place behind it has one token more in front of it, with its
problem recorded. -/
theorem next {c : Char} {u : Text} (h : Behind t ts l) (hrest : l.rest = c :: u) :
    Behind t (ts ++ [firstToken l.offset c u]) l.next.2 := by
  obtain ⟨offset, rest, problems⟩ := l
  obtain rfl : rest = c :: u := hrest
  have hfirst : [firstToken offset c u].flatMap Token.text = (firstToken offset c u).text :=
    List.flatMap_singleton _ _
  rw [next_cons]
  have hbehind := h.append [firstToken offset c u] (u.drop (scan c u).extra)
    (by rw [hfirst]; exact (tokensFrom_cons offset c u).symm)
    (by rw [hfirst, firstToken, List.cons_append, List.take_append_drop])
  rwa [hfirst] at hbehind

/-- A pull takes the stretch of the tokens ahead that it is answered from, and leaves the others. -/
theorem pull (h : Behind t ts l) (p : Pull) :
    ∃ s, Behind t (ts ++ s) (l.pull p).2 ∧
      ∀ {ps : List Pull} {ss as : List (List Token)} {vs : List Token},
        Served (.atEnd (Text.size t)) (tokensFrom (l.pull p).2.offset (l.pull p).2.rest) ps ss as
          vs →
        Served (.atEnd (Text.size t)) (tokensFrom l.offset l.rest) (p :: ps) (s :: ss)
          ((l.pull p).1 :: as) vs := by
  have hsize := h.size_eq
  rcases pull_cases l p with ⟨rfl, hl, hpull⟩ | ⟨rfl, c, u, hl, hpull⟩ | ⟨hp, hpull⟩
  -- At the end one token is asked for, and the one of the end is the answer.
  · rw [hpull, hl, ← hsize, hl]
    exact ⟨[], by rwa [List.append_nil], fun hserved => .ended hserved⟩
  -- One token is asked for, and one is left.
  · rw [hpull]
    refine ⟨_, h.next hl, fun hserved => ?_⟩
    rw [tokensFrom_of_rest hl]
    exact .one hserved
  -- All tokens that are left are asked for.
  · rw [hpull, hsize]
    exact ⟨_, h.restAll, fun hserved => .rest hp hserved⟩

/-- A lexer answers as the list of the tokens that are left does. At every moment it stands behind
the stretches taken. -/
theorem served (h : Behind t ts l) (ps : List Pull) :
    ∃ ss, Served (.atEnd (Text.size t)) (tokensFrom l.offset l.rest) ps ss (l.drive ps).1
        (tokensFrom (l.drive ps).2.offset (l.drive ps).2.rest) ∧
      ∀ i, Behind t (ts ++ (ss.take i).flatten) (l.drive (ps.take i)).2 := by
  induction ps generalizing ts l with
  | nil =>
      refine ⟨[], .done, fun i => ?_⟩
      rw [List.take_nil, List.take_nil, List.flatten_nil, List.append_nil]
      exact h
  | cons p ps ih =>
      -- The first pull takes its stretch, and the others are served from the place behind it.
      obtain ⟨s, hs, hfirst⟩ := h.pull p
      obtain ⟨ss, hserved, hbehind⟩ := ih hs
      refine ⟨s :: ss, hfirst hserved, fun i => ?_⟩
      cases i with
      | zero => simpa [drive] using h
      | succ i => simpa [drive] using hbehind i

end Behind

end Lexer

/-! ### All pulls -/

/-- The pulls `ps`, made of a lexer at the beginning of the text, take the stretches `ss` of its
tokens. -/
structure Accounted (t : Text) (ps : List Pull) (ss : List (List Token)) : Prop where
  length_eq : ss.length = ps.length
  /-- What was taken and what is left are the tokens that are handed out at once. -/
  joined : ss.flatten ++ ((ofText t).drive ps).2.restAll.1.filter (fun x => !x.isEof)
    = Lexer.pieces t
  /-- The token of the end aside, an answer is its stretch, or the visible part of it. -/
  answers_eq : ((ofText t).drive ps).1.map (List.filter fun x => !x.isEof)
    = List.zipWith Pull.kept ps ss
  /-- Where one token is asked for, one is handed out. -/
  single : ∀ i : Nat, ps[i]? = some .one → ∃ x, ((ofText t).drive ps).1[i]? = some [x]
  /-- As long as a token is left, it is the first of them, and no other is taken with it. -/
  advances : ∀ i : Nat, ps[i]? = some .one → (ss.take i).flatten ≠ Lexer.pieces t →
    ∃ x, (Lexer.pieces t)[(ss.take i).flatten.length]? = some x ∧ ss[i]? = some [x] ∧
      ((ofText t).drive ps).1[i]? = some [x]
  /-- Where more is asked for, all tokens that are left are taken. -/
  exhausts : ∀ (i : Nat) (p : Pull), ps[i]? = some p → p ≠ .one →
    (ss.take (i + 1)).flatten = Lexer.pieces t
  /-- Every other answer ends with the token of the end, which stands nowhere else in it. -/
  closed : ∀ (i : Nat) (p : Pull), ps[i]? = some p → p ≠ .one →
    ∃ body, ((ofText t).drive ps).1[i]? = some (body ++ [.atEnd (Text.size t)]) ∧
      ∀ x ∈ body, x.isEof = false
  /-- Where all tokens have been taken, every answer is the token of the end. -/
  ended : ∀ i : Nat, i < ps.length → (ss.take i).flatten = Lexer.pieces t →
    ((ofText t).drive ps).1[i]? = some [.atEnd (Text.size t)]
  /-- After any number of the pulls the lexer stands behind the stretches taken. -/
  behind : ∀ i : Nat, Behind t (ss.take i).flatten ((ofText t).drive (ps.take i)).2
  /-- After any number of the pulls the problems are those of the faulty tokens handed out. -/
  problems : ∀ i : Nat, List.Forall₂ Token.Faulty
    (((ofText t).drive (ps.take i)).1.flatten.filter Token.isError)
    ((ofText t).drive (ps.take i)).2.problems.entries
  /-- At every moment the counter tells how many problems there are. -/
  counted : ∀ i : Nat, ((ofText t).drive (ps.take i)).2.problems.Counted

/-- The problems are those of the faulty tokens that were handed out. -/
theorem faulty_drive (t : Text) (ps : List Pull) :
    List.Forall₂ Token.Faulty (((ofText t).drive ps).1.flatten.filter Token.isError)
      ((ofText t).drive ps).2.problems.entries := by
  obtain ⟨ss, hserved, hbehind⟩ := (behind_ofText t).served ps
  have hall := hbehind ps.length
  rw [List.take_length, ← hserved.length_eq, List.take_length, List.nil_append] at hall
  rw [hserved.filter_isError rfl, hall.problems_eq]
  exact faulty_lexicalProblems ss.flatten

/-- However a lexer is asked for its tokens, it loses none and repeats none. A pull of one goes on
by one token until none is left, and every other pull goes on to the end. -/
theorem drive_accounts (t : Text) (ps : List Pull) : ∃ ss, Accounted t ps ss := by
  obtain ⟨ss, hserved, hbehind⟩ := (behind_ofText t).served ps
  have hpieces := Lexer.pieces_eq t
  -- The token of the end is none of the tokens of a text, so filters of it keep these.
  have hus : ∀ u ∈ tokens t, u.isEof = false := fun u hu => isEof_of_mem hu
  exact ⟨ss, {
    length_eq := hserved.length_eq
    joined := by
      rw [filter_restAll, hpieces]
      exact hserved.flatten_append
    answers_eq := hserved.answers_eq rfl hus
    single := fun i => hserved.single
    advances := by
      intro i hi hleft
      rw [hpieces] at hleft ⊢
      exact hserved.advances hi hleft
    exhausts := fun i p hi hp => (hserved.exhausts hi hp).trans hpieces.symm
    closed := fun i p hi hp => hserved.closed hus hi hp
    ended := fun i hi hall => hserved.ended_of_flatten hi (hall.trans hpieces)
    behind := fun i => hbehind i
    problems := fun i => faulty_drive t (ps.take i)
    counted := by
      intro i
      rw [(hbehind i).problems_eq]
      exact counted_lexicalProblems _ }⟩

end GeneratedKeys
