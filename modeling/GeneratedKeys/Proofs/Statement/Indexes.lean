import GeneratedKeys.Proofs.Reading.Range
import GeneratedKeys.Proofs.Reading.Replay
import GeneratedKeys.Proofs.Statement.Refusal

/-!
# `GeneratedKeys.Proofs.Statement.Indexes`: every token that is looked at is there

Reading the statement in a text by an index looks at no index outside of the vector of tokens. Every
machine on the way is in range, whatever the text is, and so it can go on until nothing remains to
be done. What it has come to then is what `parse` reports.

That the parts kept are not empty is read off the run that replays `parse`: there is only one way to
go on from a machine, so all machines on the way belong to that run.

* `runs_ofText`: the machine in front of a text reads it as `parse` does.
* `Machine.Accesses`: what holds of every machine on the way.
* `reading_in_range`: it does hold of each of them, and the way leads to what `parse` reports.
-/

set_option autoImplicit false

namespace GeneratedKeys

open Machine (Runs runs_of_proceed runs_of_unwind)

variable {t : Text}

/-! ### The vector of tokens -/

/-- The vector holds the tokens that the grammar reads and the token of the end. -/
theorem tokens_readerOfText (t : Text) :
    (Reader.ofText t).tokens = significantTokens t ++ [.atEnd (Text.size t)] :=
  congrArg Reader.tokens (reader_ofText t)

/-- No token that the grammar reads is that of the end, which the lexer has marked by a kind of its
own. -/
theorem eofFree_ofText (t : Text) : (State.ofText t).EofFree :=
  fun _ hx => isEof_of_mem (mem_significantTokens hx).1

/-- The vector of a text ends with the token of the end. -/
theorem ended_ofText (t : Text) : Machine.Ended (Reader.ofText t).tokens := by
  rw [tokens_readerOfText]
  refine ⟨by simp, fun i hi => ?_⟩
  rw [List.length_append, List.length_singleton, Nat.add_sub_cancel]
  rcases Nat.lt_or_ge i (significantTokens t).length with hlt | hge
  · rw [List.getElem_append_left hlt, eofFree_ofText t _ (List.getElem_mem hlt)]
    simpa using Nat.ne_of_lt hlt
  · have hlast : i = (significantTokens t).length := by
      rw [List.length_append, List.length_singleton] at hi
      omega
    subst hlast
    rw [List.getElem_append_right (Nat.le_refl _)]
    simp [Token.atEnd, Token.isEof]

/-- The machine in front of a text is in range: it stands at the first token and has no marks. -/
theorem inRange_ofText (t : Text) : (Machine.ofText t).InRange (Reader.ofText t).tokens where
  tokens_eq := rfl
  index_lt := List.length_pos_iff.2 (ended_ofText t).ne_nil
  descending := List.pairwise_singleton ..
  attempts_eq := rfl

/-- From the beginning of a token to the end of one that is not in front of it there are bytes. -/
theorem start_lt_stop_of_le {i j : Nat} {x y : Token} (hij : i ≤ j)
    (hx : (significantTokens t)[i]? = some x) (hy : (significantTokens t)[j]? = some y) :
    x.start < y.stop := by
  have hbytes : ∀ {z}, z ∈ significantTokens t → z.start < z.stop :=
    fun hz => start_lt_stop (mem_significantTokens hz).1
  obtain ⟨hi, rfl⟩ := List.getElem?_eq_some_iff.1 hx
  obtain ⟨hj, rfl⟩ := List.getElem?_eq_some_iff.1 hy
  rcases Nat.eq_or_lt_of_le hij with rfl | hlt
  · exact hbytes (List.getElem_mem hi)
  · have horder := List.pairwise_iff_getElem.1 (pairwise_significantTokens t) i j hi hj hlt
    calc (significantTokens t)[i].start
        < (significantTokens t)[i].stop := hbytes (List.getElem_mem hi)
      _ ≤ (significantTokens t)[j].start := horder
      _ < (significantTokens t)[j].stop := hbytes (List.getElem_mem hj)

/-! ### The whole run -/

/-- In the rules of all statements the token of the end passes no test. -/
theorem wary_statement (type : StatementType) : (Grammar.statement type).wary = true := by
  cases type <;> rfl

variable {lexical : Diagnostics} {depth : Nat} {s : State} {stack : List Frame}

/-- Goes on with the statement that is announced, or with the error. It is what the first step of
the machine comes to. -/
def Reader.begin (p : Reader) (stack : List Frame) : Except ParseError StatementType → Machine
  | .ok type => p.goOn (.read (Grammar.statement type) :: stack)
  | .error e => p.fail e stack

/-- The first tokens announce the same statement to a machine, which finds the token of the end
where the list is empty. -/
theorem announce?_reader (hs : s.EofFree) :
    (s.reader lexical depth).announce? stack
      = some ((s.reader lexical depth).begin stack (announced s.after)) := by
  rw [Reader.announce?]
  cases hafter : s.after with
  | nil =>
      rw [State.ahead?_of_nil hafter]
      rfl
  | cons x xs =>
      have hend := hs.next hafter
      obtain ⟨kind, text, start⟩ := x
      rw [State.ahead?_of_cons hafter, Option.bind_some, announced]
      split
      · next hkind => cases hkind; rfl
      · next hkind => cases hkind; rfl
      -- Behind UPDATE the second token is looked at.
      · next hkind =>
          cases hkind
          rw [State.passes?_reader (List.forall_mem_singleton.2 rfl), hafter, List.drop_one,
            List.tail_cons]
          cases State.passes [Rule.isWord .or] xs <;> rfl
      -- A token in front of the end is not that of the end.
      · next hkind => cases hkind; cases hend
      · split
        · contradiction
        · contradiction
        · contradiction
        · rfl

/-- A problem that is reported is one of those met so far. -/
theorem reader_report (lexical : Diagnostics) (depth : Nat) (s : State) (d : Diagnostic) :
    (s.reader lexical depth).report d
      = State.reader ((lexical.recordAll (s.repairs.map Repair.diagnostic)).record d) depth
        { s with repairs := [] } := rfl

/-- Skipping to the end moves the index only. What was found and which problems were met stays. -/
theorem reader_skipToEnd (s : State) :
    s.skipToEnd.reader lexical depth
      = { s.reader lexical depth with index := s.skipToEnd.position } := by
  rw [State.skipToEnd]
  generalize (s.after.takeWhile fun t => t.kind ≠ .semicolon).length = k
  induction k generalizing s with
  | zero => rfl
  | succ k ih =>
      rw [State.takeMany, ih]
      cases hafter : s.after with
      | nil => rw [State.take, hafter]
      | cons x xs => rw [State.reader_take hafter]

/-- Behind a statement that was read there is the report of it, and behind one that was not there is
the report of what was found in it, or the error. -/
theorem runs_recover (o : Outcome) (hs : o.state.EofFree) :
    ∃ e, Runs (o.machine (lexicalProblems (tokens t)) 0 [.recover]) e ∧ e.stack = [] ∧
      e.result t = o.report t := by
  cases o with
  | ok s =>
      refine ⟨_, runs_of_proceed rfl trivial, rfl, ?_⟩
      rw [Outcome.report, State.report, List.append_nil]
      rfl
  | stop e s =>
      cases e with
      -- The error is noted, and the machine goes on to the end of the statement.
      | malformed message place =>
          have hreport := congrArg (fun p => p.goOn [.seek])
            (reader_report (lexicalProblems (tokens t)) 0 s ⟨.abandoned, message, place⟩)
          refine ⟨_, .trans (runs_of_unwind hreport) (runs_seek hs), rfl, ?_⟩
          rw [Outcome.report, report_skipToEnd, State.report, reader_skipToEnd]
          simp [Machine.result, Reader.goOn, State.reader, Diagnostics.recordAll_append]
          rfl
      -- Any other error refuses the text.
      | _ => exact ⟨_, runs_of_unwind rfl, rfl, rfl⟩

/-- The machine in front of a text comes to what is reported of it. So it ends for every text, and
no access fails on the way. -/
theorem runs_ofText (t : Text) :
    ∃ e, (Machine.ofText t).Runs e ∧ e.stack = [] ∧ e.result t = parse t := by
  have hs := eofFree_ofText t
  have hfirst : Runs (Machine.ofText t)
      (((State.ofText t).reader (lexicalProblems (tokens t)) 0).begin [.recover]
        (announced (significantTokens t))) := by
    rw [Machine.ofText, reader_ofText]
    exact runs_of_proceed (announce?_reader hs) trivial
  rw [parse]
  cases htype : announced (significantTokens t) with
  | error e =>
      rw [htype] at hfirst
      obtain ⟨m, hm, hstack, hresult⟩ := runs_recover (t := t) (.stop e (State.ofText t)) hs
      refine ⟨m, .trans hfirst hm, hstack, hresult.trans ?_⟩
      rcases announced_eq_error_iff.1 htype with ⟨-, rfl⟩ | ⟨x, xs, -, -, rfl⟩ <;> rfl
  | ok type =>
      rw [htype] at hfirst
      have hfits : (Grammar.statement type).Fits (State.ofText t) :=
        .inr ⟨steady_statement type, rfl, 0, Nat.zero_le _, guarded_statement type⟩
      have hreplays : Replays (lexicalProblems (tokens t)) nestingLimit (Grammar.statement type)
          (State.ofText t) := replays_run (Nat.le_refl _) (wary_statement type) hfits hs
      -- No value is open yet, so all levels of nesting are left.
      have hread := hreplays [.recover]
      rw [Nat.sub_self] at hread
      have htokens := Rule.tokens_read (Grammar.statement type) (State.ofText t)
      obtain ⟨m, hm, hstack, hresult⟩ := runs_recover (t := t) _ (hs.of_tokens_eq htokens)
      exact ⟨m, .trans hfirst (.trans hread hm), hstack, hresult⟩

/-! ### All machines on the way -/

/-- All machines on the way to an end belong to the one run that leads there. -/
theorem captured_of_runs {m e d : Machine} (hrun : m.Runs e) (hend : e.stack = [])
    (hd : m.Reaches d) : d.Captured := by
  induction hrun using Relation.ReflTransGen.head_induction_on with
  | refl =>
      obtain ⟨p, stack, error?⟩ := e
      subst hend
      rcases hd.cases_head with rfl | ⟨x, hx, -⟩
      · trivial
      · cases hx
  | head hstep _ ih =>
      rcases hd.cases_head with rfl | ⟨x, hx, hxd⟩
      · exact hstep.1
      · cases hstep.2.symm.trans hx
        exact ih hxd

/-- The token at the index `start` begins at the byte `first` and was passed. The token passed last
ends behind that byte. -/
def Reader.Covers (p : Reader) (start first : Nat) : Prop :=
  start < p.index ∧ ∃ x y, p.tokens[start]? = some x ∧ x.start = first ∧
    p.behind? = some y ∧ first < y.stop

/-- If a part that was read begins with a token that was passed, it ends behind its beginning. -/
theorem Machine.Captured.covers {m : Machine} (hcaptured : m.Captured)
    (hm : m.InRange (Reader.ofText t).tokens) {part : Part} {start first : Nat} {stack : List Frame}
    (hstack : m.stack = .keep part start first :: stack) (herror : m.error? = none) :
    m.reader.Covers start first := by
  obtain ⟨p, _, _⟩ := m
  cases hstack
  cases herror
  obtain ⟨hlt, x, hx, hfirst⟩ := hcaptured
  have htokens : p.tokens = significantTokens t ++ [.atEnd (Text.size t)] :=
    hm.tokens_eq.trans (tokens_readerOfText t)
  -- The index is at most that of the end, so the token passed last is one that the grammar reads.
  have hindex : p.index < (significantTokens t).length + 1 := by
    have := hm.index_lt
    rwa [tokens_readerOfText, List.length_append] at this
  have hy : p.index - 1 < (significantTokens t).length := by omega
  -- Up to there the vector holds the tokens that the grammar reads.
  have hsignificant : ∀ i, i < (significantTokens t).length →
      p.tokens[i]? = (significantTokens t)[i]? := by
    intro i hi
    rw [htokens, List.getElem?_append_left hi]
  refine ⟨hlt, x, (significantTokens t)[p.index - 1], hx, hfirst, ?_, ?_⟩
  · exact (hsignificant _ hy).trans (List.getElem?_eq_getElem hy)
  · rw [← hfirst]
    have hx' := (hsignificant start (by omega)).symm.trans hx
    exact start_lt_stop_of_le (Nat.le_sub_one_of_lt hlt) hx' (List.getElem?_eq_getElem hy)

/-- What holds of a machine that reads a text: where its index is, that no access fails, and how a
step moves the index. Every machine that is reached on the way has it. -/
structure Machine.Accesses (t : Text) (m : Machine) : Prop where
  /-- The vector is never changed. -/
  tokens_eq : m.reader.tokens = (Reader.ofText t).tokens
  /-- Its last token, and no other one, is that of the end. -/
  ended : Ended m.reader.tokens
  /-- The index is at most that of the last token. -/
  index_le : m.reader.index ≤ m.reader.tokens.length - 1
  /-- The indexes that are looked at are inside the vector. -/
  ahead_lt : ∀ n, m.reader.aheadIndex n < m.reader.tokens.length
  behind_lt : m.reader.behindIndex < m.reader.tokens.length
  /-- No access fails. -/
  isSome_step : m.stack ≠ [] → m.step.isSome
  /-- The attempts under way did not begin behind the index. -/
  mark_le : ∀ mark ∈ Frame.marks m.stack, mark ≤ m.reader.index
  /-- Only the end of an attempt moves the index back, to where the attempt began. -/
  step_index : ∀ m', m.step = some m' → m.reader.index ≤ m'.reader.index ∨
    ∃ mark yes no stack, m.stack = .rewind mark yes no :: stack ∧ m'.reader.index = mark
  /-- Until an attempt ends that is under way, the index does not decrease. -/
  persists_index : ∀ m', m.Persists m' → m.reader.index ≤ m'.reader.index
  /-- A part that was read begins with a token that was passed, and it ends behind its beginning. -/
  covers : ∀ part start first stack, m.stack = .keep part start first :: stack → m.error? = none →
    m.reader.Covers start first

/-- A text is read inside of its tokens: every access on the way finds one, the index moves back
with attempts only, and the parts kept are not empty. The way leads to what `parse` reports. -/
theorem reading_in_range (t : Text) :
    (∀ m, (Machine.ofText t).Reaches m → m.Accesses t) ∧
      ∃ m, (Machine.ofText t).Reaches m ∧ m.stack = [] ∧ m.result t = parse t := by
  obtain ⟨e, hrun, hend, hresult⟩ := runs_ofText t
  have hended := ended_ofText t
  refine ⟨fun m hm => ?_, e, hrun.lift id fun _ _ h => h.2, hend, hresult⟩
  -- The machine stays in range with every step.
  have hrange : m.InRange (Reader.ofText t).tokens := (inRange_ofText t).reaches hended hm
  have htokens := hrange.tokens_eq
  exact {
    tokens_eq := htokens
    ended := htokens ▸ hended
    index_le := Nat.le_sub_one_of_lt (htokens ▸ hrange.index_lt)
    ahead_lt := fun n => htokens ▸ hrange.aheadIndex_lt n
    behind_lt := htokens ▸ hrange.behindIndex_lt
    isSome_step := hrange.isSome_step
    mark_le := hrange.mark_le
    step_index := fun _ hstep => Machine.index_le_of_step hstep
    persists_index := fun _ => hrange.index_le hended
    covers := fun _ _ _ _ => (captured_of_runs hrun hend hm).covers hrange }

-- Twelve steps into this text the name of its table was read, the token at the index 2.
example : ((Option.bind · Machine.step)^[12] (some (.ofText "DELETE FROM T".toList))).any (fun m =>
    match m.stack with
    | .keep .table 2 12 :: _ => m.reader.index == 3
    | _ => false) = true := by decide +kernel

end GeneratedKeys
