import GeneratedKeys.Proofs.Reading.Calls
import GeneratedKeys.Proofs.Reading.Depth
import GeneratedKeys.Proofs.Token.Loops

/-!
# `GeneratedKeys.Proofs.Statement.Terminates`: reading comes to an end

The definitions of this library end because of how they are written: they follow the structure of a
list, count rounds down, or count levels of nesting down. None of these bounds decides a result.
Written as loops and calls that nothing bounds, cutting a text into tokens and reading the statement
in it come to an end by themselves, on every text, and to what the definitions say.

* `computes_skipRound`, `computes_seekRound`: the two loops that pass tokens without reading them.
* `Task.Sound.ends`: what holds of all tasks that a task calls, at once or through others.
* `parseReturns_iff`: reading a statement without any bound is `parse`.
* `reading_ends`: loops, calls and the whole, for every text.
-/

set_option autoImplicit false

namespace GeneratedKeys

open State

/-! ### Passing tokens -/

/-- A round of skipping to a RETURNING, a semicolon or the end, when `depth` parentheses are
open. -/
def skipRound : Nat × State → Round (Nat × State) State
  | (depth, s) =>
    match s.after with
    | [] => .leave s
    | t :: _ =>
      if depth = 0 ∧ (t.kind = .semicolon ∨ t.kind = .keyword .returning) then .leave s
      else .again (t.kind.depth depth, s.take)

/-- A round of skipping to a semicolon or the end. Each round that goes on takes a token. -/
def seekRound (s : State) : Round State State :=
  match s.after with
  | [] => .leave s
  | t :: _ => if t.kind = .semicolon then .leave s else .again s.take

/-- Behind a token that is passed the others are ahead. -/
theorem after_take {s : State} {t : Token} {ts : List Token} (h : s.after = t :: ts) :
    s.take.after = ts := by
  simp [take, h]

/-- Passing a token takes it from what is ahead, so a loop that passes one in each round comes to an
end. -/
theorem shrinks_take {s : State} {t : Token} {ts : List Token} (h : s.after = t :: ts) :
    Shrinks s.after s.take.after :=
  ⟨t, [], by rw [after_take h, h]; rfl⟩

/-- Skipping round by round passes as many tokens as the definition says. The rounds count
parentheses as they go, the definition all at once. -/
theorem computes_skipRound :
    Computes skipRound (fun x => x.2.after) fun x => takeMany (bodyLength x.1 x.2.after) x.2 := by
  refine computes_of_keeps fun x => ?_
  obtain ⟨depth, s⟩ := x
  cases hs : s.after with
  | nil =>
      simp only [skipRound, hs]
      simp [Round.Keeps, hs, bodyLength, takeMany]
  | cons t ts =>
      simp only [skipRound, hs]
      split
      -- The round leaves the loop at a token that ends the skipping.
      · next h => simp [Round.Keeps, hs, bodyLength_cons, h, takeMany]
      -- The token is passed, and the count of open parentheses goes on with it.
      · next h =>
        refine ⟨shrinks_take hs, ?_⟩
        simp only [hs, after_take hs, bodyLength_cons, if_neg h, takeMany]

/-- Skipping to a semicolon round by round passes as many tokens as the definition says, whatever
parentheses stand between. -/
theorem computes_seekRound : Computes seekRound State.after skipToEnd := by
  refine computes_of_keeps fun s => ?_
  cases hs : s.after with
  | nil =>
      simp only [seekRound, hs]
      simp [Round.Keeps, skipToEnd, hs, takeMany]
  | cons t ts =>
      simp only [seekRound, hs]
      split
      · next h => simp [Round.Keeps, skipToEnd, hs, h, takeMany]
      · next h =>
        refine ⟨shrinks_take hs, ?_⟩
        simp [skipToEnd, hs, after_take hs, h, takeMany]

/-! ### Loops, tasks and the statement -/

/-- Every round of a loop leaves it or takes something of what is ahead, and every loop computes
what the definitions say. -/
structure LoopsEnd : Prop where
  /-- Before the end of the text the next token has a character, and takes what it has. -/
  next : ∀ l : Lexer, l.rest ≠ [] →
    l.next.1.text ++ l.next.2.rest = l.rest ∧ Shrinks l.rest l.next.2.rest
  /-- Blanks, words, numbers and line comments. -/
  pass : ∀ p, Computes (Scan.passRound p) id (List.dropWhile p)
  /-- Strings, binary strings and quoted identifiers. -/
  quote : ∀ q, Computes (Scan.quoteRound q) id (Scan.behindQuote? q)
  /-- Alternative strings. -/
  close : ∀ close, Computes (Scan.pairRound close '\x27') id (Scan.behindClose? close)
  /-- Block comments. -/
  block : Computes (Scan.pairRound '*' '/') id Scan.behindBlock?
  /-- These are the loops that tokens are found by. -/
  left : Scan.LeftByLoops
  /-- Handing out all tokens, or the visible ones. -/
  hand : ∀ keep, Computes (Lexer.handRound keep) (fun s => s.2.rest)
    fun s => (s.1 ++ (s.2.restKept keep).1, (s.2.restKept keep).2)
  /-- Skipping to the RETURNING clause. -/
  skip : Computes skipRound (fun x => x.2.after) fun x => takeMany (bodyLength x.1 x.2.after) x.2
  /-- Skipping the rest of a malformed statement. -/
  seek : Computes seekRound State.after skipToEnd

/-- Every loop in which a text is cut into tokens or tokens are skipped comes to an end, with what
the definitions say. -/
theorem loopsEnd : LoopsEnd where
  next _ := Lexer.shrinks_next
  pass := Scan.computes_passRound
  quote := Scan.computes_quoteRound
  close := Scan.computes_behindClose?
  block := Scan.computes_behindBlock?
  left := Scan.leftByLoops
  hand := Lexer.computes_handRound
  skip := computes_skipRound
  seek := computes_seekRound

namespace Task

/-- What holds of the tasks that a task calls, at once or through others, and of the task. -/
structure Ends (start : Task) : Prop where
  /-- A task has one reply. As many values are open and as many attempts are under way then as
  before, whether reading stopped or not. -/
  reply : ∀ x, start.Reaches x → ∃ r, (∀ r', x.code.Returns r' ↔ r' = r) ∧
    r.depth = x.depth ∧ r.outcome.state.attempts = x.state.attempts
  /-- While a value is read more values are open than before it, but no more than the limit. -/
  deeper : ∀ x y power, start.Reaches x → x.rule = .value power →
    Relation.TransGen Calls x y → x.depth < y.depth ∧ y.depth ≤ nestingLimit
  /-- A repetition that goes on to its next round has passed a token. -/
  round : ∀ x y test body, start.Reaches x → x.rule = .repeatWhile test body → x.Calls y →
    y.rule = x.rule → Shrinks x.state.after y.state.after
  /-- Every call leaves less to do. -/
  smaller : ∀ x y, start.Reaches x → x.Calls y → y.measure < x.measure

/-- Every task that is begun in this way comes to an end, and so do all tasks that it calls. -/
theorem Sound.ends {start : Task} (hstart : start.Sound) : start.Ends where
  reply x hx := ⟨x.answer, fun _ => (hstart.reaches hx).returns_iff, rfl,
    attempts_run x.levels x.rule x.state⟩
  deeper _ _ _ hx hrule hy :=
    ⟨(hstart.reaches hx).depth_lt hrule hy, (hstart.reaches (hx.trans hy.to_reflTransGen)).1⟩
  round _ _ _ _ hx hrule hcall hy := (hstart.reaches hx).shrinks hrule hcall hy
  smaller _ _ hx hcall := ((hstart.reaches hx).leads hcall).smaller

/-- The task of reading a statement of a type, in front of the text and with no value open. -/
def ofText (type : StatementType) (t : Text) : Task :=
  ⟨0, Grammar.statement type, State.ofText t⟩

/-- Reading a statement is such a task: no value is open in front of it, and no attempt is under
way. -/
theorem sound_ofText (type : StatementType) (t : Text) : (ofText type t).Sound :=
  ⟨Nat.zero_le _, .inr ⟨steady_statement type, rfl, 0, Nat.zero_le _, guarded_statement type⟩⟩

end Task

/-- Reading the statement in a text, with no bound on rounds and calls, comes to a result. -/
inductive ParseReturns (t : Text) : Except ParseError ParsedStatement → Prop where
  | refused {e : ParseError} :
      announced (significantTokens t) = .error e → ParseReturns t (.error e)
  | read {type : StatementType} {r : Reply} :
      announced (significantTokens t) = .ok type → (Task.ofText type t).code.Returns r →
        ParseReturns t (r.outcome.report t)

/-- Reading without any bound is `parse`: the calls come to an answer for every text, and it is the
one that is reported. -/
theorem parseReturns_iff {t : Text} {result : Except ParseError ParsedStatement} :
    ParseReturns t result ↔ result = parse t := by
  constructor
  · intro h
    cases h with
    | refused hrefused => rw [parse, hrefused]
    | read htype hreply =>
        rw [(Task.sound_ofText _ t).returns_iff.1 hreply, parse, htype]
        rfl
  · rintro rfl
    rw [parse]
    cases hfirst : announced (significantTokens t) with
    | error e => exact .refused hfirst
    | ok type => exact .read hfirst (Task.sound_ofText type t).returns

/-- Cutting a text into tokens and reading the statement in it comes to an end: every loop is left,
every call is replied to, and the answer is that of `parse`. -/
theorem reading_ends (t : Text) :
    LoopsEnd ∧ (∀ type, (Task.ofText type t).Ends) ∧
      ∀ result, ParseReturns t result ↔ result = parse t :=
  ⟨loopsEnd, fun type => (Task.sound_ofText type t).ends, fun _ => parseReturns_iff⟩

end GeneratedKeys
