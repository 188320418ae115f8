import GeneratedKeys.Proofs.Reading.Tests
import GeneratedKeys.Proofs.Token.Recased
import GeneratedKeys.Statement.Parse

/-!
# `GeneratedKeys.Proofs.Reading.Blind`: reading does not see letter case

The only letters that reading can look at are those of unquoted names, as every other word is a
keyword by now. No test of the grammar asks for them. They are found in messages only, so a
statement whose tokens are all in their small form is read as it is with the tokens as written: it
goes on or stops at the same place, with the same parts and repairs, but for the names that its
messages quote.

* `run_blind`: reading a rule, whatever values are, if its tests and values do not see letter case.
* `readValue_blind`, `read_blind`: the rules of the grammar.
-/

set_option autoImplicit false

namespace GeneratedKeys

/-! ### Small forms -/

namespace TokenKind

/-- The small form of a kind is its own small form. -/
theorem lowered_lowered (kind : TokenKind) : kind.lowered.lowered = kind.lowered := by
  cases kind with
  | identifier name => exact congrArg identifier (Text.lower_lower name)
  | _ => rfl

/-- Whether a kind is of the wanted class does not depend on the case of its letters. -/
theorem sameClass_lowered (kind wanted : TokenKind) :
    kind.lowered.sameClass wanted = kind.sameClass wanted := by
  cases kind with
  | identifier name => cases wanted <;> rfl
  | _ => rfl

/-- A wanted kind without letters of its own is met by the small form exactly if it is met by the
kind itself. -/
theorem lowered_eq_iff {kind wanted : TokenKind} (h : wanted.hasValue = false) :
    kind.lowered = wanted ↔ kind = wanted := by
  rw [← sameClass_iff h, ← sameClass_iff h, sameClass_lowered]

end TokenKind

namespace Token

/-- The small form of a token is its own small form. -/
theorem lowered_lowered (x : Token) : x.lowered.lowered = x.lowered := by
  rw [lowered, lowered, TokenKind.lowered_lowered, Text.lower_lower]

/-- Bringing a token to its small form leaves it where it is. -/
theorem span_lowered (x : Token) : x.lowered.span = x.span := by
  rw [span, stop_lowered]
  rfl

/-- Bringing tokens to their small forms twice changes nothing the second time. -/
theorem map_lowered_map (ts : List Token) :
    (ts.map lowered).map lowered = ts.map lowered := by
  rw [List.map_map]
  exact List.map_congr_left fun x _ => lowered_lowered x

end Token

/-- The repair with its token in the small form. The wanted kind comes from the grammar and has no
name in it. -/
def Repair.lowered : Repair → Repair
  | dropped found wanted => dropped found.lowered wanted
  | supplied wanted place => supplied wanted place

/-- The small form of a repair is its own small form. -/
theorem Repair.lowered_lowered (r : Repair) : r.lowered.lowered = r.lowered := by
  cases r with
  | dropped found wanted => exact congrArg (dropped · wanted) found.lowered_lowered
  | supplied wanted place => rfl

/-- The place with all tokens in their small forms. What was found are places in the text, which the
case of letters does not move. -/
def State.lowered (s : State) : State :=
  { s with
    before := s.before.map Token.lowered
    after := s.after.map Token.lowered
    repairs := s.repairs.map Repair.lowered }

/-- The error without the names that it quotes. Its sort and its place are what two spellings of a
statement have in common. -/
def ParseError.outline : ParseError → ParseError
  | empty => empty
  | unsupported found place => unsupported found.lowered place
  | malformed _ place => malformed "" place
  | tooDeep limit place => tooDeep limit place

/-- The outcome with all tokens in their small forms, without the names that an error quotes. -/
def Outcome.outline : Outcome → Outcome
  | ok s => ok s.lowered
  | stop e s => stop e.outline s.lowered

/-- Reading does not see the case of letters: on the small forms it ends in the same way and at the
same place. -/
def Blind (step : State → Outcome) : Prop :=
  ∀ s, (step s.lowered).outline = (step s).outline

namespace Outcome

/-- Bringing an outcome to its small form does not change whether reading goes on. -/
theorem isOk_outline (o : Outcome) : o.outline.isOk = o.isOk := by
  cases o <;> rfl

/-- The place in the small form of an outcome is the small form of the place. -/
theorem state_outline (o : Outcome) : o.outline.state = o.state.lowered := by
  cases o <;> rfl

/-- Outcomes that differ in letter case both go on or both stop. -/
theorem cases_of_outline_eq {o o' : Outcome} (h : o'.outline = o.outline) :
    (∃ t t', o = ok t ∧ o' = ok t' ∧ t'.lowered = t.lowered) ∨
      ∃ e e' t t', o = stop e t ∧ o' = stop e' t' ∧ e'.outline = e.outline ∧
        t'.lowered = t.lowered := by
  -- Both outcomes are opened; where one goes on and the other stops, the equation is between
  -- different constructors.
  cases o with
  | ok t =>
      cases o' with
      | ok t' => exact .inl ⟨t, t', rfl, rfl, ok.inj h⟩
      | stop e' t' => cases h
  | stop e t =>
      cases o' with
      | ok t' => cases h
      | stop e' t' =>
          obtain ⟨he, ht⟩ := stop.inj h
          exact .inr ⟨e, e', t, t', rfl, rfl, he, ht⟩

/-- What goes on after outcomes that differ in letter case differs in letter case only, if the next
rule does not see it. -/
theorem outline_andThen {o o' : Outcome} {next next' : State → Outcome}
    (h : o'.outline = o.outline)
    (hnext : ∀ {t t' : State}, t'.lowered = t.lowered → (next' t').outline = (next t).outline) :
    (o'.andThen next').outline = (o.andThen next).outline := by
  obtain ⟨t, t', rfl, rfl, ht⟩ | ⟨e, e', t, t', rfl, rfl, -, -⟩ := cases_of_outline_eq h
  · exact hnext ht
  · exact h

end Outcome

/-- Places that differ in letter case only lead to outcomes with the same outline. This is the form
in which blindness is used. -/
theorem Blind.congr {step : State → Outcome} (hstep : Blind step) {s s' : State}
    (h : s'.lowered = s.lowered) : (step s').outline = (step s).outline := by
  rw [← hstep s', h, hstep s]

/-! ### Tests -/

/-- The test does not see the case of a name. It may well see which keyword a word is. -/
def BlindTest (test : TokenKind → Bool) : Prop :=
  ∀ kind : TokenKind, test kind.lowered = test kind

/-- Asking for one kind of token does not see the case of a name. -/
@[simp] theorem blindTest_isA (wanted : TokenKind) : BlindTest (Rule.isA wanted) :=
  fun kind => kind.sameClass_lowered wanted

/-- Asking for one of several words does not see case, as words are told apart by their keywords. -/
@[simp] theorem blindTest_isWordOf (ks : List Keyword) : BlindTest (Rule.isWordOf ks) := by
  intro kind
  have hword : ∀ k : Keyword, Rule.isWord k kind.lowered = Rule.isWord k kind :=
    fun k => blindTest_isA (.keyword k) kind
  simp only [Rule.isWordOf, hword]

/-- A test that asks for the letters of no name does not see case. Only unquoted names have to be
looked at. -/
theorem blindTest_of_identifier {test : TokenKind → Bool}
    (h : ∀ name, test (.identifier (Text.lower name)) = test (.identifier name)) :
    BlindTest test := by
  intro kind
  cases kind with
  | identifier name => exact h name
  | _ => rfl

/-- The test for a bound behind a colon looks at letters: it asks whether a name is a colon and
digits. None of these has another case. -/
@[simp] theorem blindTest_isColonBound : BlindTest Grammar.isColonBound := by
  refine blindTest_of_identifier fun name => ?_
  cases name with
  | nil => rfl
  | cons c digits =>
      by_cases hc : c = ':'
      -- Digits are digits in either case, and no character is lost or added.
      · have hdigits : (Text.lower digits).all Char.isDigit = digits.all Char.isDigit := by
          rw [Text.lower, List.all_map]
          exact congrArg (digits.all ·) (funext Scan.caseless_isDigit)
        have hempty : (Text.lower digits).isEmpty = digits.isEmpty := List.isEmpty_map
        subst hc
        rw [Text.lower_cons, show ':'.toLower = ':' from rfl, Grammar.isColonBound,
          Grammar.isColonBound, hempty, hdigits]
      · -- Neither the character nor its small form is a colon.
        have hlower : c.toLower ≠ ':' := mt (Scan.toLower_eq_iff (by decide)).1 hc
        simp [Grammar.isColonBound, hc, hlower]

/-- Tests that do not see case hold of the small forms exactly if they hold of the tokens
themselves. -/
theorem passes_lowered {tests : List (TokenKind → Bool)} (htests : ∀ test ∈ tests, BlindTest test)
    (ts : List Token) : State.passes tests (ts.map Token.lowered) = State.passes tests ts := by
  induction tests generalizing ts with
  | nil => rfl
  | cons test tests ih =>
      cases ts with
      | nil => rfl
      | cons t ts =>
          have hfirst : test t.kind.lowered = test t.kind := htests test (List.mem_cons_self ..) _
          have hrest := ih (fun test' h => htests test' (List.mem_cons_of_mem _ h)) ts
          rw [List.map_cons, State.passes, State.passes, hrest]
          exact congrArg (· && _) hfirst

/-! ### Steps -/

namespace State

variable (s t : State)

/-- The small form of a place is its own small form. -/
theorem lowered_lowered : s.lowered.lowered = s.lowered := by
  have hrepairs : (s.repairs.map Repair.lowered).map Repair.lowered
      = s.repairs.map Repair.lowered := by
    rw [List.map_map]
    exact List.map_congr_left fun r _ => r.lowered_lowered
  simp only [lowered, Token.map_lowered_map, hrepairs]

/-- The next token of the small form is the small form of the next token. -/
theorem next_lowered : s.lowered.next = s.next.lowered := by
  rw [next, next, lowered, List.head?_map]
  cases s.after.head? <;> rfl

/-- The next token stands at the same bytes in both, so the places of errors are the same. -/
theorem span_next_lowered : s.lowered.next.span = s.next.span := by
  rw [next_lowered, Token.span_lowered]

/-- The small form is at the end exactly if the place is. -/
theorem atEnd_lowered : s.lowered.atEnd = s.atEnd :=
  List.isEmpty_map

/-- Passing a token and bringing the place to its small form can be done in either order. -/
theorem take_lowered : s.lowered.take = s.take.lowered := by
  cases hs : s.after <;> simp [take, lowered, hs]

/-- The same holds of passing several tokens, whichever they are. -/
theorem takeMany_lowered (n : Nat) : takeMany n s.lowered = (takeMany n s).lowered := by
  induction n generalizing s with
  | zero => rfl
  | succ n ih => rw [takeMany, takeMany, take_lowered, ih]

/-- A repair is made in the small form as it is made in the place itself. -/
theorem repair_lowered (r : Repair) : s.lowered.repair r.lowered = (s.repair r).lowered := by
  simp [repair, lowered]

/-- Keeping a part does not look at letters, since a part is kept by its place. -/
theorem record_lowered (p : Part) (range : Span) :
    s.lowered.record p range = (s.record p range).lowered := by
  show (if s.attempts = 0 then _ else _) = lowered (if s.attempts = 0 then _ else _)
  split <;> rfl

/-- Announcing a type does not look at letters: the type comes from the rule. -/
theorem declare_lowered (type : StatementType) :
    s.lowered.declare type = (s.declare type).lowered := by
  show (if s.attempts = 0 then _ else _) = lowered (if s.attempts = 0 then _ else _)
  split <;> rfl

/-- Noting DEFAULT VALUES does not look at letters. -/
theorem noteDefaults_lowered : s.lowered.noteDefaults = s.noteDefaults.lowered := by
  show (if s.attempts = 0 then _ else _) = lowered (if s.attempts = 0 then _ else _)
  split <;> rfl

/-- The bytes passed between two places do not depend on the case of the letters there. -/
theorem rangeFrom_lowered : s.lowered.rangeFrom t.lowered = s.rangeFrom t := by
  have hlast : t.lowered.before.head?.map Token.stop = t.before.head?.map Token.stop := by
    cases ht : t.before <;> simp [lowered, ht, Token.stop_lowered]
  rw [rangeFrom, rangeFrom, hlast, next_lowered]
  rfl

/-- Going back to where an attempt began does not look at letters. -/
theorem leave_lowered : s.lowered.leave t.lowered = (s.leave t).lowered := rfl

/-- The error at the next token differs in the name that it quotes at most. -/
theorem unexpected_lowered (wanted : String) :
    (s.lowered.unexpected wanted).outline = (s.unexpected wanted).outline := by
  rw [unexpected, unexpected, next_lowered, Token.span_lowered]
  rfl

/-- Skipping goes equally far, because it asks for parentheses, a semicolon and a word only. -/
theorem bodyLength_lowered (depth : Nat) (ts : List Token) :
    bodyLength depth (ts.map Token.lowered) = bodyLength depth ts := by
  induction ts generalizing depth with
  | nil => rfl
  | cons x ts ih =>
      have hkind : ∀ wanted : TokenKind, wanted.hasValue = false →
          (x.lowered.kind = wanted ↔ x.kind = wanted) := fun _ => TokenKind.lowered_eq_iff
      simp only [List.map_cons, bodyLength, ih, hkind .semicolon rfl,
        hkind (.keyword .returning) rfl, hkind .leftParen rfl, hkind .rightParen rfl]

/-- Skipping and bringing the place to its small form can be done in either order. -/
theorem skip_lowered : s.lowered.skip = s.skip.lowered := by
  have hafter : s.lowered.after = s.after.map Token.lowered := rfl
  rw [skip, skip, hafter, bodyLength_lowered, takeMany_lowered]

end State

/-- Reading goes on at the place with all tokens in their small forms. -/
theorem outline_ok {s s' : State} (h : s' = s.lowered) :
    (Outcome.ok s').outline = (Outcome.ok s).outline := by
  rw [h]
  exact congrArg Outcome.ok s.lowered_lowered

/-- Reading stops there, with an error that differs in the names that it quotes. -/
theorem outline_stop {e e' : ParseError} {s s' : State} (he : e'.outline = e.outline)
    (h : s' = s.lowered) : (Outcome.stop e' s').outline = (Outcome.stop e s).outline := by
  rw [h]
  exact congrArg₂ Outcome.stop he s.lowered_lowered

/-- Stopping at the next token does not see letter case. The message quotes the token, but the
outline leaves it out. -/
theorem blind_unexpected (wanted : String) : Blind fun s => .stop (s.unexpected wanted) s :=
  fun s => outline_stop (s.unexpected_lowered wanted) rfl

/-- Asking for a token does not see letter case: it asks for the class of the next two tokens, and
the repairs it makes have small forms themselves. -/
theorem blind_expect (wanted : TokenKind) : Blind (State.expect wanted) := by
  intro s
  have hstop := blind_unexpected wanted.describe s
  have hattempts : s.lowered.attempts = s.attempts := rfl
  cases hs : s.after with
  | nil =>
      have hs' : s.lowered.after = [] := congrArg (List.map Token.lowered) hs
      simp only [State.expect, hs, hs', hattempts, s.span_next_lowered]
      split
      -- At the end the wanted token is supplied in both.
      · exact outline_ok (s.repair_lowered (.supplied wanted _))
      · exact hstop
  | cons x rest =>
      have hs' : s.lowered.after = x.lowered :: rest.map Token.lowered :=
        congrArg (List.map Token.lowered) hs
      -- The token behind the next one is looked at for a stray in front of the wanted one.
      have hmore : (rest.map Token.lowered).head?.any (·.kind.sameClass wanted)
          = rest.head?.any (·.kind.sameClass wanted) := by
        cases rest with
        | nil => rfl
        | cons y rest => exact y.kind.sameClass_lowered wanted
      have hfirst : x.lowered.kind.sameClass wanted = x.kind.sameClass wanted :=
        x.kind.sameClass_lowered wanted
      simp only [State.expect, hs, hs', hattempts, hmore, hfirst]
      split
      · exact outline_ok s.take_lowered
      · split
        · refine outline_ok ?_
          -- The stray is dropped and the wanted token passed, in the one order as in the other.
          rw [← State.takeMany_lowered, ← State.repair_lowered]
          rfl
        · exact hstop

/-- Asking for the end does not see letter case. -/
theorem blind_finish : Blind fun s =>
    if s.atEnd then .ok s else .stop (s.unexpected "end of statement") s := by
  intro s
  simp only [State.atEnd_lowered]
  split
  · exact outline_ok rfl
  · exact blind_unexpected _ s

/-! ### Rules -/

/-- No test of the rule sees the case of a name. This is all that the rule itself has to satisfy for
reading it to be blind. -/
@[simp] def Rule.Blind : Rule → Prop
  | seq first second => first.Blind ∧ second.Blind
  | branch tests yes no => (∀ test ∈ tests, BlindTest test) ∧ yes.Blind ∧ no.Blind
  | foresee attempt yes no => attempt.Blind ∧ yes.Blind ∧ no.Blind
  | repeatWhile test body => BlindTest test ∧ body.Blind
  | record _ body | together body => body.Blind
  | _ => True

/-- A repetition does not see letter case if neither its test nor its body does. -/
theorem repeatWhile_blind {test : TokenKind → Bool} (htest : BlindTest test)
    {step : State → Outcome} (hstep : Blind step) (rounds : Nat) :
    Blind (repeatWhile test step rounds) := by
  induction rounds with
  | zero => exact fun s => outline_ok rfl
  | succ rounds ih =>
      intro s
      have hpasses : State.passes [test] s.lowered.after = State.passes [test] s.after :=
        passes_lowered (by simpa using htest) s.after
      rw [repeatWhile, repeatWhile, hpasses]
      split
      · exact Outcome.outline_andThen (hstep s) ih.congr
      · exact outline_ok rfl

/-- Reading a rule does not see letter case if neither its tests nor reading values do. -/
theorem run_blind {value : Nat → State → Outcome} (hvalue : ∀ power, Blind (value power))
    {r : Rule} (hr : r.Blind) : Blind (r.run value) := by
  induction r with
  | empty => exact fun s => outline_ok rfl
  | seq first second ih₁ ih₂ =>
      exact fun s => Outcome.outline_andThen (ih₁ hr.1 s) (ih₂ hr.2).congr
  | expect kind => exact blind_expect kind
  | take => exact fun s => outline_ok s.take_lowered
  | fail wanted => exact blind_unexpected wanted
  -- The tests choose the same branch, as none of them sees the case of a name.
  | branch tests yes no ihy ihn =>
      intro s
      have hpasses : State.passes tests s.lowered.after = State.passes tests s.after :=
        passes_lowered hr.1 s.after
      rw [Rule.run, Rule.run, hpasses]
      split
      · exact ihy hr.2.1 s
      · exact ihn hr.2.2 s
  -- The attempt succeeds in both or in neither, and reading goes on from where it began.
  | foresee attempt yes no iha ihy ihn =>
      intro s
      have hattempt : (attempt.run value s.lowered.enter).outline
          = (attempt.run value s.enter).outline := iha hr.1 s.enter
      have hok : (attempt.run value s.lowered.enter).isOk = (attempt.run value s.enter).isOk := by
        rw [← Outcome.isOk_outline, hattempt, Outcome.isOk_outline]
      -- Nothing is left of the attempt but the count of attempts, which the two have in common.
      have hback : (s.lowered.leave (attempt.run value s.lowered.enter).state).lowered
          = (s.leave (attempt.run value s.enter).state).lowered := by
        rw [← State.leave_lowered, ← State.leave_lowered, State.lowered_lowered,
          ← Outcome.state_outline, hattempt, Outcome.state_outline]
      simp only [Rule.run, hok]
      split
      · exact (ihy hr.2.1).congr hback
      · exact (ihn hr.2.2).congr hback
  | repeatWhile test body ih =>
      intro s
      have hrounds : s.lowered.after.length = s.after.length := List.length_map _
      rw [Rule.run, Rule.run, hrounds]
      exact repeatWhile_blind hr.1 (ih hr.2) _ s
  | value power => exact hvalue power
  | skip => exact fun s => outline_ok s.skip_lowered
  -- The part is the bytes between two places, and bytes have no case.
  | record part body ih =>
      intro s
      refine Outcome.outline_andThen (ih hr s) fun {t t'} ht => ?_
      have hrange : s.lowered.rangeFrom t' = s.rangeFrom t := by
        rw [← s.rangeFrom_lowered t, ← ht, ← s.lowered.rangeFrom_lowered t',
          State.lowered_lowered]
      show Outcome.ok _ = Outcome.ok _
      rw [← State.record_lowered, ← State.record_lowered, ht, hrange]
  -- If the body stops, what was found before is put back, in the small form as well.
  | together body ih =>
      intro s
      rw [Rule.run, Rule.run]
      obtain ⟨t, t', h, h', ht⟩ | ⟨e, e', t, t', h, h', he, ht⟩ :=
        Outcome.cases_of_outline_eq (ih hr s)
      · rw [h, h']
        exact congrArg Outcome.ok ht
      · rw [h, h']
        have hfound : { t' with found := s.found }.lowered = { t with found := s.found }.lowered :=
          congrArg (fun u : State => { u with found := s.found }) ht
        exact congrArg₂ Outcome.stop he hfound
  | declare type => exact fun s => outline_ok (s.declare_lowered type)
  | defaults => exact fun s => outline_ok s.noteDefaults_lowered
  | finish => exact blind_finish

/-! ### The grammar -/

namespace Grammar

open Rule

/-- Asking for a word does not see case, as the kind of a keyword is the same in any spelling. -/
@[simp] theorem blindTest_isWord (k : Keyword) : BlindTest (isWord k) :=
  blindTest_isA (.keyword k)

/-- Asking for a name does not see case, whichever name it is. -/
@[simp] theorem blindTest_isName : BlindTest TokenKind.isName :=
  blindTest_of_identifier fun _ => rfl

/-- Asking for a literal does not see case. Strings keep their letters, and their value is not asked
for. -/
@[simp] theorem blindTest_isLiteral : BlindTest isLiteral :=
  blindTest_of_identifier fun _ => rfl

/-- Asking for a sign does not see case. -/
@[simp] theorem blindTest_isSign : BlindTest isSign :=
  blindTest_of_identifier fun _ => rfl

/-- Asking for a minus sign does not see case. -/
@[simp] theorem blindTest_isNegative : BlindTest isNegative :=
  blindTest_of_identifier fun _ => rfl

/-- Asking for what continues a value does not see case: operators have no letters or are keywords.
-/
@[simp] theorem blindTest_extendsValue (power : Nat) : BlindTest (extendsValue power) :=
  blindTest_of_identifier fun _ => rfl

/-- An optional rule does not see case exactly if its test and the rule itself do not. -/
@[simp] theorem blind_optional {test : TokenKind → Bool} {r : Rule} :
    (Rule.optional test r).Blind ↔ BlindTest test ∧ r.Blind := by
  simp [Rule.optional]

/-- A list with commas does not see case exactly if its parts do not. -/
@[simp] theorem blind_separated {r : Rule} : (separated r).Blind ↔ r.Blind := by
  simp [separated]

/-- Reading a name does not see its case: any name will do. -/
@[simp] theorem blind_name : name.Blind := by
  simp [name]

/-- Reading a column, qualified or not, does not see its case. -/
@[simp] theorem blind_column : column.Blind := by
  simp [column]

/-- No test of a data type sees letter case. -/
@[simp] theorem blind_dataType : dataType.Blind := by
  simp [dataType, scalarType, blobType, ranges, range, precision, length, charset, inOrder, word]

/-- The calls that have a syntax of their own, one by one. None of their tests asks for a name in
particular. -/
theorem blind_calls : ∀ r ∈ [enclosed, substringCall, trimCall, extractCall, countCall,
    aggregateCall, nextValue, genIdCall, castCall, named], r.Blind := by
  simp [enclosed, substringCall, trimCall, extractCall, countCall, aggregateCall, aggregated,
    nextValue, genIdCall, castCall, named, values, inOrder, word]

/-- No test of a value sees letter case. This is checked rule by rule over the grammar of values. -/
theorem blind_value (power : Nat) : (value power).Blind := by
  simpa [value, operand, primary, operation] using blind_calls

/-- What stands between the first words of a statement and its end. -/
theorem blind_clauses : ∀ r ∈ [table, targetColumns, valuesClause, defaultValues, assignment,
    matchingClause], r.Blind := by
  simp [table, targetColumns, valuesClause, defaultValues, assignment, matchingClause, inOrder,
    word]

/-- No test of the end of a statement sees letter case. -/
theorem blind_ending (type : StatementType) : (ending type).Blind := by
  simp [ending, returningClause, returningItem, aliasName, inOrder]

/-- No test of a statement sees letter case, so `read_blind` holds of all four rules. -/
theorem blind_statement (type : StatementType) : (statement type).Blind := by
  have hclauses := blind_clauses
  simp only [List.forall_mem_cons] at hclauses
  cases type <;>
    simp [statement, insert, delete, update, updateOrInsert, inOrder, word, hclauses, blind_ending]

end Grammar

/-- Reading a value does not see letter case, however many levels of nesting are left. The induction
is on the levels, and `run_blind` does each of them. -/
theorem readValue_blind (levels power : Nat) : Blind (readValue levels power) := by
  induction levels generalizing power with
  | zero =>
      intro s
      rw [readValue, readValue, s.span_next_lowered]
      exact outline_stop rfl rfl
  | succ levels ih => exact run_blind ih (Grammar.blind_value power)

/-- Reading a rule of a statement does not see letter case. So two spellings of a statement take the
same course. -/
theorem read_blind {r : Rule} (hr : r.Blind) : Blind r.read :=
  run_blind (readValue_blind nestingLimit) hr

end GeneratedKeys
