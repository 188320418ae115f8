import GeneratedKeys.Statement.Parse

/-!
# `GeneratedKeys.Proofs.Reading.Trace`: what happens to the tokens that are read

Reading a rule passes tokens, drops a stray one or supplies a missing one, and keeps
parts of the statement on its way. A list of `Move`s says what happened to the tokens,
and a list of `Note`s what was kept. Both are plain lists, so the trace of one rule after
the other is the two traces joined.

Three views of a list of moves matter. `consumed` is the stretch of the statement that
was read, `kept` is the same stretch without its strays and with what was missing, and
`repairs` is the list of the differences.

* `State.follow` replays a trace: it gives the place that reading ends at.
* `kept_eq_consumed`: the first two views agree where nothing was repaired.
-/

set_option autoImplicit false

namespace GeneratedKeys

/-- What happens to a token while a rule is read. A trace is a list of moves in the order of the
text. -/
inductive Move where
  /-- The token is passed as it stands. -/
  | pass (t : Token)
  /-- The token is a stray one in front of a wanted one. -/
  | drop (t : Token) (wanted : TokenKind)
  /-- A closing parenthesis is missing at the end. -/
  | supply
  deriving DecidableEq, Repr

/-- What is kept of a statement while a rule is read. A part keeps its moves, from which both its
range and its tokens can be told. -/
inductive Note where
  /-- A part, with the moves that were made while it was read. -/
  | part (p : Part) (moves : List Move)
  | type (t : StatementType)
  | defaults
  deriving DecidableEq, Repr

/-- The token that stands for a closing parenthesis which was not written. It has no text. -/
def Token.closing : Token := ⟨.rightParen, [], 0⟩

namespace Move

/-- The tokens of the statement that were passed or dropped. They are exactly those between the two
places. -/
def consumed (ms : List Move) : List Token :=
  ms.flatMap fun
    | pass t | drop t _ => [t]
    | supply => []

/-- The tokens that a repaired statement has in their place: without the stray ones, and with those
supplied. -/
def kept (ms : List Move) : List Token :=
  ms.flatMap fun
    | pass t => [t]
    | drop _ _ => []
    | supply => [.closing]

/-- The repairs, in a text of `size` bytes. A token is supplied at the end of the text only, so its
place is that end. -/
def repairs (size : Nat) (ms : List Move) : List Repair :=
  ms.flatMap fun
    | pass _ => []
    | drop t wanted => [.dropped t wanted]
    | supply => [.supplied .rightParen ⟨size, size⟩]

/-- The moves that read the repaired statement. All of them are passes, so it needs no repair any
more. -/
def mended (ms : List Move) : List Move :=
  (kept ms).map pass

/-- The bytes from the first token consumed to the last. Moves that consume nothing cover no byte;
by convention that range stands at the beginning. -/
def range (ms : List Move) : Span :=
  let first := ((consumed ms).head?.map Token.start).getD 0
  ⟨first, max first (((consumed ms).getLast?.map Token.stop).getD first)⟩

/-- Whether every token was passed as it stands, so that nothing was repaired. -/
def Clean (ms : List Move) : Prop :=
  ∀ m ∈ ms, ∃ t, m = pass t

/-- No moves consume no token. -/
@[simp] theorem consumed_nil : consumed [] = [] := rfl

/-- No moves keep no token. -/
@[simp] theorem kept_nil : kept [] = [] := rfl

/-- Without moves there is nothing to repair. -/
@[simp] theorem repairs_nil (size : Nat) : repairs size [] = [] := rfl

/-- Without moves there is nothing to read again. -/
@[simp] theorem mended_nil : mended [] = [] := rfl

/-- A token that is passed is consumed first, and then what the other moves consume. -/
@[simp] theorem consumed_pass (t : Token) (ms : List Move) :
    consumed (pass t :: ms) = t :: consumed ms := rfl

/-- A token that is passed is kept as it stands. -/
@[simp] theorem kept_pass (t : Token) (ms : List Move) : kept (pass t :: ms) = t :: kept ms := rfl

/-- Passing a token is no repair, so only the other moves count. -/
@[simp] theorem repairs_pass (size : Nat) (t : Token) (ms : List Move) :
    repairs size (pass t :: ms) = repairs size ms := rfl

/-- Dropping a token is one repair, at the place of the token. -/
@[simp] theorem repairs_drop (size : Nat) (t : Token) (wanted : TokenKind) (ms : List Move) :
    repairs size (drop t wanted :: ms) = .dropped t wanted :: repairs size ms := rfl

/-- Supplying a parenthesis is one repair, and its place is the end of the text. -/
@[simp] theorem repairs_supply (size : Nat) (ms : List Move) :
    repairs size (supply :: ms) = .supplied .rightParen ⟨size, size⟩ :: repairs size ms := rfl

/-- A token that is passed is passed again when the repaired statement is read. -/
@[simp] theorem mended_pass (t : Token) (ms : List Move) :
    mended (pass t :: ms) = pass t :: mended ms := rfl

/-- Two traces one after the other consume the tokens of the first and then those of the second. -/
@[simp] theorem consumed_append (ms ms' : List Move) :
    consumed (ms ++ ms') = consumed ms ++ consumed ms' := List.flatMap_append

/-- Two traces one after the other keep the tokens of the first and then those of the second. -/
@[simp] theorem kept_append (ms ms' : List Move) : kept (ms ++ ms') = kept ms ++ kept ms' :=
  List.flatMap_append

/-- The repairs of two traces one after the other come in the order of the traces, so problems are
listed from left to right. -/
@[simp] theorem repairs_append (size : Nat) (ms ms' : List Move) :
    repairs size (ms ++ ms') = repairs size ms ++ repairs size ms' := List.flatMap_append

/-- The repaired statement is read by the two parts one after the other. -/
@[simp] theorem mended_append (ms ms' : List Move) :
    mended (ms ++ ms') = mended ms ++ mended ms' := by
  simp [mended]

/-- Passing all tokens of a list consumes the list. -/
@[simp] theorem consumed_map_pass (ts : List Token) : consumed (ts.map pass) = ts := by
  induction ts with
  | nil => rfl
  | cons t ts ih => rw [List.map_cons, consumed_pass, ih]

/-- Passing all tokens of a list keeps the list. -/
@[simp] theorem kept_map_pass (ts : List Token) : kept (ts.map pass) = ts := by
  induction ts with
  | nil => rfl
  | cons t ts ih => rw [List.map_cons, kept_pass, ih]

/-- Reading the repaired statement consumes what the first reading kept. This ties the two readings
together. -/
@[simp] theorem consumed_mended (ms : List Move) : consumed (mended ms) = kept ms :=
  consumed_map_pass (kept ms)

/-- No moves repair nothing. -/
theorem clean_nil : Clean [] := by simp [Clean]

/-- Passing tokens repairs nothing, so a trace that is given by its tokens is clean. -/
theorem clean_map_pass (ts : List Token) : Clean (ts.map pass) := by
  simp [Clean]

/-- Two traces one after the other repair nothing exactly if neither of them does. -/
theorem clean_append {ms ms' : List Move} : Clean (ms ++ ms') ↔ Clean ms ∧ Clean ms' := by
  simp only [Clean, List.mem_append, or_imp, forall_and]

/-- A trace repairs nothing exactly if its first move passes a token and the others repair nothing.
-/
theorem clean_cons {m : Move} {ms : List Move} :
    Clean (m :: ms) ↔ (∃ t, m = pass t) ∧ Clean ms := by
  simp [Clean]

/-- A stretch of moves consumes a stretch of the tokens, so a part of a rule is a part of its
tokens. -/
theorem consumed_infix {run ms : List Move} (h : run <:+: ms) : consumed run <:+: consumed ms := by
  obtain ⟨before, after, rfl⟩ := h
  rw [consumed_append, consumed_append]
  exact List.infix_append ..

/-- A stretch of moves that repair nothing repairs nothing. -/
theorem Clean.of_infix {run ms : List Move} (h : Clean ms) (hrun : run <:+: ms) : Clean run :=
  fun m hm => h m (hrun.subset hm)

/-- Moves that repair nothing pass a list of tokens, so a clean trace is determined by the tokens
that it consumes. -/
theorem Clean.eq_map_pass {ms : List Move} (h : Clean ms) : ms = (consumed ms).map pass := by
  induction ms with
  | nil => rfl
  | cons m ms ih =>
    obtain ⟨⟨t, rfl⟩, hms⟩ := clean_cons.1 h
    rw [consumed_pass, List.map_cons, ← ih hms]

/-- Where nothing was repaired the repaired statement is the statement, token by token. -/
theorem Clean.kept_eq_consumed {ms : List Move} (h : Clean ms) : kept ms = consumed ms := by
  rw [h.eq_map_pass, kept_map_pass, consumed_map_pass]

/-- Moves that repair nothing are the moves that read the repaired statement, since that is the
statement itself. -/
theorem Clean.mended_eq_self {ms : List Move} (h : Clean ms) : mended ms = ms := by
  rw [mended, h.kept_eq_consumed, ← h.eq_map_pass]

/-- Nothing was repaired exactly when there is no repair. It does not depend on the size of the
text. -/
theorem repairs_eq_nil {size : Nat} {ms : List Move} : repairs size ms = [] ↔ Clean ms := by
  induction ms with
  | nil => simp [clean_nil]
  | cons m ms ih =>
    cases m with
    | pass t => simp [clean_cons, ih]
    | drop t wanted => simp [repairs, clean_cons]
    | supply => simp [repairs, clean_cons]

/-- The bytes from a first token to a last one, which is how a range is told from the tokens that it
covers. -/
theorem exists_range {ms : List Move} {t : Token} {ts : List Token} (h : consumed ms = t :: ts) :
    ∃ l ∈ consumed ms, (consumed ms).getLast? = some l ∧
      range ms = ⟨t.start, max t.start l.stop⟩ := by
  obtain ⟨l, hl⟩ : ∃ l, (consumed ms).getLast? = some l := by
    rw [h, List.getLast?_cons]
    exact ⟨_, rfl⟩
  refine ⟨l, List.mem_of_getLast? hl, hl, ?_⟩
  rw [range, hl, h]
  rfl

/-- The bytes of tokens that stop at some place stop there, so a part does not reach beyond its
tokens. -/
theorem range_stop_le {ms : List Move} {k : Nat} (h : ∀ t ∈ consumed ms, t.stop ≤ k) :
    (range ms).stop ≤ k := by
  cases hcons : consumed ms with
  | nil =>
      rw [range, hcons]
      exact Nat.zero_le k
  | cons t ts =>
      obtain ⟨l, hl, -, hrange⟩ := exists_range hcons
      have ht : t.stop ≤ k := h t (by rw [hcons]; exact List.mem_cons_self ..)
      rw [hrange]
      exact Nat.max_le.2 ⟨Nat.le_trans (Nat.le_add_right ..) ht, h l hl⟩

/-- One token covers its bytes: the range of a part of one token is the token's span. -/
theorem range_pass (t : Token) : range [pass t] = t.span := by
  rw [range, Token.span]
  exact congrArg (Span.mk t.start) (Nat.max_eq_right (Nat.le_add_right ..))

end Move

namespace Note

/-- The note as reading the repaired statement leaves it. It is about the same part. -/
def mended : Note → Note
  | part p ms => part p (Move.mended ms)
  | type t => type t
  | defaults => defaults

/-- Keeps what the note stands for, a part by the bytes that its moves range over. -/
def apply (s : Statement Span) : Note → Statement Span
  | part p ms => s.record p (Move.range ms)
  | type t => s.ofType t
  | defaults => s.withDefaultValues

end Note

/-- The place that a trace leads to, when `rest` is ahead there. The moves say which tokens lie
behind, and the notes what was found. -/
def State.follow (s : State) (ms : List Move) (ks : List Note) (rest : List Token) : State :=
  { s with
    before := (Move.consumed ms).reverse ++ s.before
    after := rest
    found := ks.foldl Note.apply s.found
    repairs := s.repairs ++ Move.repairs s.size ms }

namespace State

/-- What is ahead behind a trace is what was said to be ahead there. -/
@[simp] theorem after_follow (s : State) (ms : List Move) (ks : List Note) (rest : List Token) :
    (s.follow ms ks rest).after = rest := rfl

/-- A trace is made outside attempts or inside as many as before: following one begins and ends
none. -/
@[simp] theorem attempts_follow (s : State) (ms : List Move) (ks : List Note)
    (rest : List Token) : (s.follow ms ks rest).attempts = s.attempts := rfl

/-- Following one trace and then another is following the two joined. This is the induction step of
every statement about traces. -/
@[simp] theorem follow_follow (s : State) (ms ms' : List Move) (ks ks' : List Note)
    (mid rest : List Token) :
    (s.follow ms ks mid).follow ms' ks' rest = s.follow (ms ++ ms') (ks ++ ks') rest := by
  simp [follow]

/-- Following no moves stays at the place, with nothing kept and nothing repaired. -/
theorem follow_nil (s : State) : s.follow [] [] s.after = s := by
  simp [follow]

end State

end GeneratedKeys
