import GeneratedKeys.Proofs.Reading.Kinds
import GeneratedKeys.Proofs.Token.Stretch
import GeneratedKeys.Statement.Invariant

/-!
# `GeneratedKeys.Proofs.Reading.Twin`: reading two statements side by side

Two statements have the same tokens at different places. Reading them goes on in step: at every
moment as many tokens are passed in both, the same parts are kept, each from one token to
another, and the same repairs are made. Reading stops in both or in neither, with the same error
at the place that corresponds.

`Twin a b s s'` relates a place `s` in the one statement to a place `s'` in the other. A part is
known by the number of tokens in front of it and up to its end, so nothing is said of the bytes.

* `run_twin`: reading a rule keeps two places in step.
* `read_twin`: this holds at any depth of nesting.
-/

set_option autoImplicit false

namespace GeneratedKeys

/-! ### What corresponds -/

/-- Tokens that differ in their places only: kind and text are the same. -/
def Token.Same (x y : Token) : Prop :=
  x.face = y.face

/-- Such tokens are of one kind, and with it they have the same value. -/
theorem Token.Same.kind_eq {x y : Token} (h : x.Same y) : y.kind = x.kind :=
  (congrArg Prod.fst h).symm

/-- The tokens of a statement and the size of its text in bytes. This is all of a text that reading
depends on. -/
structure Source where
  tokens : List Token
  size : Nat

/-- What a problem says, without its place, since places differ between two texts with the same
tokens. -/
def Diagnostic.remark (d : Diagnostic) : DiagnosticKind × String :=
  (d.kind, d.message)

/-- An error without its place. Everything else in an error comes from the tokens alone. -/
def ParseError.unplaced : ParseError → ParseError
  | empty => empty
  | unsupported found _ => unsupported found .origin
  | malformed message _ => malformed message .origin
  | tooDeep limit _ => tooDeep limit .origin

/-- Stretches of as many tokens behind as many others. A short one has one token at most. -/
def Span.Twin (a b : Source) (short : Bool) (s s' : Span) : Prop :=
  ∃ p q, q ≤ a.tokens.length ∧ (short = true → q ≤ p + 1) ∧
    s = spanBetween a.tokens a.size p q ∧ s' = spanBetween b.tokens b.size p q

/-- The same parts, each of the same tokens. The places of the parts may differ, but not which
tokens they cover. -/
structure Statement.Twin (a b : Source) (found found' : Statement Span) : Prop where
  type_eq : found'.type? = found.type?
  table : Option.Rel (Span.Twin a b true) found.table? found'.table?
  columns : List.Forall₂ (Span.Twin a b false) found.columns found'.columns
  values : List.Forall₂ (Span.Twin a b false) found.values found'.values
  returning : List.Forall₂ (Span.Twin a b false) found.returning found'.returning
  defaults_eq : found'.defaultValues = found.defaultValues

/-- Places behind as many tokens, where the same is known. It is the relation that two readings of
the same tokens keep. -/
structure Twin (a b : Source) (s s' : State) : Prop where
  tokens_eq : s.tokens = a.tokens
  tokens_eq' : s'.tokens = b.tokens
  size_eq : s.size = a.size
  size_eq' : s'.size = b.size
  position_eq : s'.position = s.position
  attempts_eq : s'.attempts = s.attempts
  found : s.found.Twin a b s'.found
  repairs_eq : s'.repairs.map (·.diagnostic.remark) = s.repairs.map (·.diagnostic.remark)

/-- Reading that goes on or stops in both, with the same error, and at places that are twins. -/
inductive Outcome.Twin (a b : Source) : Outcome → Outcome → Prop where
  | ok {s s' : State} : GeneratedKeys.Twin a b s s' → Outcome.Twin a b (.ok s) (.ok s')
  | stop {e e' : ParseError} {s s' : State} : e'.unplaced = e.unplaced →
      GeneratedKeys.Twin a b s s' → Outcome.Twin a b (.stop e s) (.stop e' s')

/-- Whether reading goes on or stops, it ends at places that correspond. -/
theorem Outcome.Twin.state {a b : Source} {o o' : Outcome} (h : Outcome.Twin a b o o') :
    GeneratedKeys.Twin a b o.state o'.state := by
  cases h with
  | ok h => exact h
  | stop _ h => exact h

/-- Reading goes on in both or stops in both, so an attempt decides alike. -/
theorem Outcome.Twin.isOk_eq {a b : Source} {o o' : Outcome} (h : Outcome.Twin a b o o') :
    o'.isOk = o.isOk := by
  cases h <;> rfl

/-- What goes on behind outcomes that correspond corresponds, if it does so from all places that do.
-/
theorem Outcome.Twin.andThen {a b : Source} {o o' : Outcome} {next next' : State → Outcome}
    (h : Outcome.Twin a b o o')
    (hnext : ∀ {s s' : State}, GeneratedKeys.Twin a b s s' → Outcome.Twin a b (next s) (next' s')) :
    Outcome.Twin a b (o.andThen next) (o'.andThen next') := by
  cases h with
  | ok h => exact hnext h
  | stop he h => exact .stop he h

/-! ### Places -/

namespace State

/-- What is ahead is what is left of the tokens behind those that were passed. -/
theorem after_eq_drop (s : State) : s.after = s.tokens.drop s.position := by
  rw [tokens, position, ← List.length_reverse, List.drop_left]

/-- No more tokens are passed than there are, so a position is always one of the list. -/
theorem position_le_length (s : State) : s.position ≤ s.tokens.length := by
  rw [tokens, position, List.length_append, List.length_reverse]
  exact Nat.le_add_right _ _

/-- The bytes passed between two places are those between their tokens, so a range is determined by
two positions. -/
theorem rangeFrom_eq {s u : State} (h : u.tokens = s.tokens) :
    s.rangeFrom u = spanBetween s.tokens s.size s.position u.position := by
  have hnext : s.next.start = (s.tokens[s.position]?.map Token.start).getD s.size := by
    rw [next, after_eq_drop, List.head?_drop]
    cases s.tokens[s.position]? <;> rfl
  have hlast : u.before.head? = (s.tokens.take u.position).getLast? := by
    rw [← h, tokens, position, ← List.length_reverse, List.take_left, List.getLast?_reverse]
  rw [rangeFrom, spanBetween, hnext, hlast]

/-- Passing tokens changes nothing else than what lies behind and ahead. -/
theorem take_eq (s : State) :
    ∃ before after, s.take = { s with before := before, after := after } := by
  rw [take]
  split
  · exact ⟨s.before, s.after, rfl⟩
  · exact ⟨_, _, rfl⟩

/-- Passing a token moves on by one, but not at the end. -/
theorem position_take (s : State) :
    s.take.position = if s.atEnd then s.position else s.position + 1 := by
  cases hs : s.after <;> simp [take, atEnd, hs, position]

end State

variable {a b : Source} {s s' t t' : State}

/-- Ranges of as many tokens behind as many others. -/
theorem Twin.rangeFrom (h : Twin a b s s') (ht : Twin a b t t') {short : Bool}
    (hshort : short = true → t.position ≤ s.position + 1) :
    Span.Twin a b short (s.rangeFrom t) (s'.rangeFrom t') := by
  refine ⟨s.position, t.position, ?_, hshort, ?_, ?_⟩
  · rw [← ht.tokens_eq]
    exact t.position_le_length
  · rw [State.rangeFrom_eq (ht.tokens_eq.trans h.tokens_eq.symm), h.tokens_eq, h.size_eq]
  · rw [State.rangeFrom_eq (ht.tokens_eq'.trans h.tokens_eq'.symm), h.tokens_eq', h.size_eq',
      h.position_eq, ht.position_eq]

section

variable (hab : List.Forall₂ Token.Same a.tokens b.tokens)
include hab

/-- The tokens ahead correspond one by one, since as many were passed in both. -/
theorem Twin.after (h : Twin a b s s') : List.Forall₂ Token.Same s.after s'.after := by
  rw [s.after_eq_drop, s'.after_eq_drop, h.tokens_eq, h.tokens_eq', h.position_eq]
  exact List.forall₂_drop _ hab

/-- Tests ask for kinds only, so they hold of what is ahead in both or in neither. -/
theorem Twin.passes_eq (h : Twin a b s s') (tests : List (TokenKind → Bool)) :
    State.passes tests s'.after = State.passes tests s.after :=
  passes_of_forall₂ Token.Same.kind_eq (h.after hab)

/-- The next token has the same kind in both, the end included. -/
theorem Twin.next_kind (h : Twin a b s s') : s'.next.kind = s.next.kind := by
  have hafter := h.after hab
  rw [State.next, State.next]
  revert hafter
  generalize s.after = ts, s'.after = ts'
  rintro (_ | ⟨hx, _⟩)
  · rfl
  · exact hx.kind_eq

/-- Both are at the end or neither is. -/
theorem Twin.atEnd_eq (h : Twin a b s s') : s'.atEnd = s.atEnd := by
  have hafter := h.after hab
  rw [State.atEnd, State.atEnd]
  revert hafter
  generalize s.after = ts, s'.after = ts'
  rintro (_ | _) <;> rfl

/-- The error at the next token is the same one, its place aside. -/
theorem Twin.unexpected (h : Twin a b s s') (wanted : String) :
    (s'.unexpected wanted).unplaced = (s.unexpected wanted).unplaced := by
  rw [State.unexpected, State.unexpected, h.next_kind hab]
  rfl

/-- Passing a token keeps the places in step, at the end as well. -/
theorem Twin.take (h : Twin a b s s') : Twin a b s.take s'.take := by
  have hposition : s'.take.position = s.take.position := by
    rw [State.position_take, State.position_take, h.atEnd_eq hab, h.position_eq]
  have htokens := (State.tokens_take s).trans h.tokens_eq
  have htokens' := (State.tokens_take s').trans h.tokens_eq'
  obtain ⟨before, after, hs⟩ := s.take_eq
  obtain ⟨before', after', hs'⟩ := s'.take_eq
  rw [hs] at htokens hposition ⊢
  rw [hs'] at htokens' hposition ⊢
  exact ⟨htokens, htokens', h.size_eq, h.size_eq', hposition, h.attempts_eq, h.found, h.repairs_eq⟩

/-- Passing a number of tokens keeps the places in step, by induction on the number. -/
theorem Twin.takeMany (h : Twin a b s s') (k : Nat) :
    Twin a b (State.takeMany k s) (State.takeMany k s') := by
  induction k generalizing s s' with
  | zero => exact h
  | succ k ih => exact ih (h.take hab)

/-- Skipping keeps the places in step, because how far it goes is decided by kinds. -/
theorem Twin.skip (h : Twin a b s s') : Twin a b s.skip s'.skip := by
  rw [State.skip, State.skip, bodyLength_of_forall₂ Token.Same.kind_eq (h.after hab)]
  exact h.takeMany hab _

omit hab in
/-- A repair on either side with the same remark keeps the places in step. -/
theorem Twin.repair (h : Twin a b s s') {r r' : Repair}
    (hr : r'.diagnostic.remark = r.diagnostic.remark) : Twin a b (s.repair r) (s'.repair r') := by
  refine ⟨h.tokens_eq, h.tokens_eq', h.size_eq, h.size_eq', h.position_eq, h.attempts_eq,
    h.found, ?_⟩
  rw [State.repair, State.repair, List.map_append, List.map_append, h.repairs_eq,
    List.map_singleton, List.map_singleton, hr]

/-- Asking for a token keeps the places in step. Whether the token is there, or is missing at the
end, or stands behind a stray one, is decided by kinds, so the same happens in both. -/
theorem Twin.expect (h : Twin a b s s') (wanted : TokenKind) :
    Outcome.Twin a b (s.expect wanted) (s'.expect wanted) := by
  have hafter := h.after hab
  have hstop := Outcome.Twin.stop (h.unexpected hab wanted.describe) h
  rw [State.expect, State.expect, h.attempts_eq]
  generalize hs : s.after = ts at hafter
  generalize hs' : s'.after = ts' at hafter
  cases hafter with
  | nil =>
      -- At the end both supply the token, or both stop.
      dsimp only
      split
      · exact .ok (h.repair rfl)
      · exact hstop
  | @cons x x' rest rest' hx hrest =>
      -- Whether the wanted token stands behind the next one is the same question in both.
      have hmore : rest'.head?.any (·.kind.sameClass wanted)
          = rest.head?.any (·.kind.sameClass wanted) := by
        cases hrest with
        | nil => rfl
        | cons hy _ => simp only [List.head?_cons, Option.any_some, hy.kind_eq]
      simp only [hx.kind_eq, hmore]
      split
      · exact .ok (h.take hab)
      · split
        -- The stray token is named in the repair by its kind, so the remarks agree.
        · refine .ok ((h.repair ?_).takeMany hab 2)
          simp only [Repair.diagnostic, Diagnostic.remark, hx.kind_eq]
        · exact hstop

end

/-! ### What is kept -/

/-- Keeping a part of the same tokens keeps the statements alike. -/
theorem Statement.Twin.record {found found' : Statement Span} (h : found.Twin a b found') {p : Part}
    {range range' : Span} (hrange : Span.Twin a b (p == .table) range range') :
    (found.record p range).Twin a b (found'.record p range') := by
  cases p with
  | table => exact ⟨h.type_eq, .some hrange, h.columns, h.values, h.returning, h.defaults_eq⟩
  | column =>
      exact ⟨h.type_eq, h.table, List.rel_append h.columns (.cons hrange .nil), h.values,
        h.returning, h.defaults_eq⟩
  | value =>
      exact ⟨h.type_eq, h.table, h.columns, List.rel_append h.values (.cons hrange .nil),
        h.returning, h.defaults_eq⟩
  | returning =>
      exact ⟨h.type_eq, h.table, h.columns, h.values,
        List.rel_append h.returning (.cons hrange .nil), h.defaults_eq⟩

/-- Places where something else is known of the statements. -/
theorem Twin.withFound (h : Twin a b s s') {found found' : Statement Span}
    (hfound : found.Twin a b found') :
    Twin a b { s with found := found } { s' with found := found' } :=
  ⟨h.tokens_eq, h.tokens_eq', h.size_eq, h.size_eq', h.position_eq, h.attempts_eq, hfound,
    h.repairs_eq⟩

/-- What is kept outside attempts only is kept in both or in neither, as both have the same attempts
under way. -/
theorem Twin.outside (h : Twin a b s s') {found found' : Statement Span}
    (hfound : found.Twin a b found') :
    Twin a b (if s.attempts = 0 then { s with found := found } else s)
      (if s'.attempts = 0 then { s' with found := found' } else s') := by
  by_cases h0 : s.attempts = 0
  · rw [if_pos h0, if_pos (h.attempts_eq.trans h0)]
    exact h.withFound hfound
  · rw [if_neg h0, if_neg (by rwa [h.attempts_eq])]
    exact h

/-- Keeping a part keeps the places in step if its ranges cover the same tokens. -/
theorem Twin.record (h : Twin a b s s') {p : Part} {range range' : Span}
    (hrange : Span.Twin a b (p == .table) range range') :
    Twin a b (s.record p range) (s'.record p range') :=
  h.outside (h.found.record hrange)

/-- Announcing a type of statement keeps the places in step. -/
theorem Twin.declare (h : Twin a b s s') (type : StatementType) :
    Twin a b (s.declare type) (s'.declare type) := by
  have hfound : (s.found.ofType type).Twin a b (s'.found.ofType type) :=
    ⟨rfl, h.found.table, h.found.columns, h.found.values, h.found.returning, h.found.defaults_eq⟩
  exact h.outside hfound

/-- Noting DEFAULT VALUES keeps the places in step. -/
theorem Twin.noteDefaults (h : Twin a b s s') : Twin a b s.noteDefaults s'.noteDefaults := by
  have hfound : s.found.withDefaultValues.Twin a b s'.found.withDefaultValues :=
    ⟨h.found.type_eq, h.found.table, h.found.columns, h.found.values, h.found.returning, rfl⟩
  exact h.outside hfound

/-! ### Attempts -/

/-- Beginning an attempt keeps the places in step, as both counts go up by one. -/
theorem Twin.enter (h : Twin a b s s') : Twin a b s.enter s'.enter :=
  ⟨h.tokens_eq, h.tokens_eq', h.size_eq, h.size_eq', h.position_eq,
    congrArg (· + 1) h.attempts_eq, h.found, h.repairs_eq⟩

/-- Going back to where an attempt began keeps the places in step, wherever the attempt has come to.
-/
theorem Twin.leave (h : Twin a b s s') (ht : Twin a b t t') :
    Twin a b (s.leave t) (s'.leave t') :=
  ⟨h.tokens_eq, h.tokens_eq', ht.size_eq, ht.size_eq', h.position_eq,
    congrArg (· - 1) ht.attempts_eq, ht.found, ht.repairs_eq⟩

/-! ### Reading -/

/-- Whether the rule passes one token at most. The text of such a part is the text of its token. -/
def Rule.isShort : Rule → Bool
  | empty | take | fail _ => true
  | branch _ yes no => yes.isShort && no.isShort
  | _ => false

/-- Whether a table that the rule keeps is one token at most. So the table is written alike in both
texts. -/
def Rule.shortTable : Rule → Bool
  | seq first second => first.shortTable && second.shortTable
  | branch _ yes no => yes.shortTable && no.shortTable
  | foresee attempt yes no => attempt.shortTable && yes.shortTable && no.shortTable
  | repeatWhile _ body | together body => body.shortTable
  | record part body => (part != .table || body.isShort) && body.shortTable
  | _ => true

/-- A short rule passes one token at most. For the name of a table this is what makes its range that
of a single token. -/
theorem Rule.position_le_of_isShort {value : Nat → State → Outcome} {r : Rule}
    (hr : r.isShort = true) (s : State) : (r.run value s).state.position ≤ s.position + 1 := by
  induction r with
  | empty | fail => exact Nat.le_succ _
  | take =>
      show s.take.position ≤ s.position + 1
      rw [State.position_take]
      split <;> omega
  -- The tests look ahead without passing anything, so the choice costs no token.
  | branch tests yes no ihy ihn =>
      simp only [Rule.isShort, Bool.and_eq_true] at hr
      rw [Rule.run]
      split
      · exact ihy hr.1
      · exact ihn hr.2
  | _ => cases hr

section

variable (hab : List.Forall₂ Token.Same a.tokens b.tokens)
include hab

/-- A repetition keeps two places in step if its body does. The rounds are the same, since the tests
are. -/
theorem repeatWhile_twin (test : TokenKind → Bool) {step : State → Outcome}
    (hstep : ∀ {s s' : State}, Twin a b s s' → Outcome.Twin a b (step s) (step s'))
    (rounds : Nat) (h : Twin a b s s') :
    Outcome.Twin a b (repeatWhile test step rounds s) (repeatWhile test step rounds s') := by
  induction rounds generalizing s s' with
  | zero => exact .ok h
  | succ rounds ih =>
      rw [repeatWhile, repeatWhile, h.passes_eq hab]
      split
      · exact (hstep h).andThen ih
      · exact .ok h

/-- Reading a rule keeps two places in step if reading values does. Every decision looks at kinds,
which are the same in both. -/
theorem run_twin {value : Nat → State → Outcome}
    (hvalue : ∀ (power : Nat) {s s' : State}, Twin a b s s' →
      Outcome.Twin a b (value power s) (value power s'))
    {r : Rule} (hr : r.shortTable = true) (h : Twin a b s s') :
    Outcome.Twin a b (r.run value s) (r.run value s') := by
  induction r generalizing s s' with
  | empty => exact .ok h
  | seq first second ih₁ ih₂ =>
      simp only [Rule.shortTable, Bool.and_eq_true] at hr
      exact (ih₁ hr.1 h).andThen (ih₂ hr.2)
  | expect kind => exact h.expect hab kind
  | take => exact .ok (h.take hab)
  | fail wanted => exact .stop (h.unexpected hab wanted) h
  | branch tests yes no ihy ihn =>
      simp only [Rule.shortTable, Bool.and_eq_true] at hr
      rw [Rule.run, Rule.run, h.passes_eq hab]
      split
      · exact ihy hr.1 h
      · exact ihn hr.2 h
  | foresee attempt yes no iha ihy ihn =>
      simp only [Rule.shortTable, Bool.and_eq_true] at hr
      have hattempt := iha hr.1.1 h.enter
      have hback := h.leave hattempt.state
      simp only [Rule.run, hattempt.isOk_eq]
      split
      · exact ihy hr.1.2 hback
      · exact ihn hr.2 hback
  | repeatWhile test body ih =>
      rw [Rule.run, Rule.run, (h.after hab).length_eq]
      exact repeatWhile_twin hab test (ih hr) _ h
  | value power => exact hvalue power h
  | skip => exact .ok (h.skip hab)
  | record part body ih =>
      simp only [Rule.shortTable, Bool.and_eq_true, Bool.or_eq_true, bne_iff_ne, ne_eq] at hr
      have hbody := ih hr.2 h
      -- How far the body gets is known from the place where it stops.
      have hshort : (part == .table) = true →
          (body.run value s).state.position ≤ s.position + 1 :=
        fun htable => Rule.position_le_of_isShort
          (hr.1.resolve_left (fun hne => hne (beq_iff_eq.1 htable))) s
      rw [Rule.run, Rule.run]
      generalize body.run value s = o at hbody hshort
      generalize body.run value s' = o' at hbody
      cases hbody with
      | ok ht => exact .ok (ht.record (h.rangeFrom ht hshort))
      | stop he ht => exact .stop he ht
  | together body ih =>
      have hbody := ih hr h
      rw [Rule.run, Rule.run]
      generalize body.run value s = o at hbody
      generalize body.run value s' = o' at hbody
      cases hbody with
      | ok ht => exact .ok ht
      | stop he ht => exact .stop he (ht.withFound h.found)
  | declare type => exact .ok (h.declare type)
  | defaults => exact .ok h.noteDefaults
  | finish =>
      rw [Rule.run, Rule.run, h.atEnd_eq hab]
      split
      · exact .ok h
      · exact .stop (h.unexpected hab _) h

/-- Reading a value keeps two places in step, however many levels of nesting are left. -/
theorem readValue_twin (levels power : Nat) (h : Twin a b s s') :
    Outcome.Twin a b (readValue levels power s) (readValue levels power s') := by
  induction levels generalizing power s s' with
  | zero => exact .stop rfl h
  | succ levels ih =>
      have htable : (Grammar.value power).shortTable = true := rfl
      exact run_twin hab (fun power _ _ => ih power) htable h

/-- Reading a rule of a statement keeps two places in step, and both end with the same error or with
none. -/
theorem read_twin {r : Rule} (hr : r.shortTable = true) (h : Twin a b s s') :
    Outcome.Twin a b (r.read s) (r.read s') :=
  run_twin hab (fun power _ _ => readValue_twin hab nestingLimit power) hr h

end

end GeneratedKeys
