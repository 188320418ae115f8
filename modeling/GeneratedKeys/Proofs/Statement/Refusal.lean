import GeneratedKeys.Proofs.Reading.Nests
import GeneratedKeys.Proofs.Statement.Problems
import GeneratedKeys.Proofs.Statement.Shape

/-!
# `GeneratedKeys.Proofs.Statement.Refusal`: when a statement is not parsed

A text is refused for three reasons only: nothing in it is a token of the language, its first token
begins no statement of a known type, or a value is nested too deep. Whatever else is wrong with a
statement is reported as a problem of it. The first two reasons are seen on the first token. For
the third one `BeginsInside t d x` tells, without a limit, that a value begins at the token `x`
inside `d` other values.

* `parse_refusals`: for each reason, exactly when a text is refused for it and at which place.
* `announced_eq_error_iff`: what is seen on the first token.
* `beginsInside_first_iff`: the first value nested so deep, as a place in the tokens and as a token
  of the text.
-/

set_option autoImplicit false

namespace GeneratedKeys

open Grammar

/-- The kinds of token that a statement begins with. Three words open the four types. -/
def openingWords : List TokenKind :=
  [.keyword .insert, .keyword .delete, .keyword .update]

/-- Whether a token is neither hidden nor faulty. It may be the end, so every text has such a token.
-/
def Token.isReadable (x : Token) : Bool :=
  x.channel == .default && !x.isError

/-- A value of the statement begins at the token `x`, inside `depth` other values. It is said of the
grammar, not of how deep reading goes. -/
def BeginsInside (t : Text) (depth : Nat) (x : Token) : Prop :=
  ∃ type rest, Announces (significantTokens t) type ∧
    Nests depth (statement type) (significantTokens t) rest ∧ x = nextToken (Text.size t) rest

/-! ### The first token -/

/-- The first tokens announce one type, and it is computed from them. -/
theorem Announces.announced_eq {ts : List Token} {type : StatementType} (h : Announces ts type) :
    announced ts = .ok type := by
  cases h with
  | insert ht => simp only [announced, ht]
  | delete ht => simp only [announced, ht]
  | @update t ts ht hor =>
      have hno : State.passes [Rule.isWord .or] ts = false := by
        rw [← Bool.not_eq_true]
        intro hp
        obtain ⟨u, us, rfl, hu⟩ := State.passes_one_iff.1 hp
        exact hor u rfl (Rule.isWord_iff.1 hu)
      simp [announced, ht, hno]
  | updateOrInsert ht hu => simp [announced, ht, Rule.passes_isWord hu]

/-- No type is announced if there is no token, or the first one is none of the opening words. -/
theorem announced_eq_error_iff {ts : List Token} {e : ParseError} :
    announced ts = .error e ↔ (ts = [] ∧ e = .empty) ∨
      ∃ x xs, ts = x :: xs ∧ x.kind ∉ openingWords ∧ e = .unsupported x.kind x.span := by
  cases ts with
  | nil => simp [announced, eq_comm]
  | cons x xs =>
      rw [announced]
      split
      · next hx => simp [hx, openingWords]
      · next hx => simp [hx, openingWords]
      · next hx =>
        split <;> simp [hx, openingWords]
      -- The first token is none of the three words.
      · next hinsert hdelete hupdate =>
        have hx : x.kind ∉ openingWords := by
          rw [openingWords, List.mem_cons, List.mem_cons, List.mem_singleton]
          rintro (h | h | h)
          · exact hinsert h
          · exact hdelete h
          · exact hupdate h
        simp [hx, eq_comm]

/-- The first token that is neither hidden nor faulty is the first one that the grammar reads, or
the end. -/
theorem find?_restAll (t : Text) :
    (Lexer.ofText t).restAll.1.find? Token.isReadable
      = some (nextToken (Text.size t) (significantTokens t)) := by
  have hfilter : (tokens t).filter Token.isReadable = significantTokens t := by
    refine List.filter_congr fun x hx => ?_
    rw [Token.isReadable, Token.isSignificant, isEof_of_mem hx, Token.isHidden]
    cases x.channel <;> simp
  rw [Lexer.restAll_ofText, allTokens, List.find?_append, ← List.head?_filter, hfilter, nextToken]
  cases significantTokens t with
  | nil => rfl
  | cons x xs => rfl

/-- The text has no tokens to read if all of them are hidden or faulty, apart from that of the end.
The empty text is one example. -/
theorem significantTokens_eq_nil_iff {t : Text} :
    significantTokens t = [] ↔ ∀ x ∈ (Lexer.ofText t).restAll.1, x.channel = .default →
      x.isError = true ∨ x.isEof = true := by
  constructor
  · intro h x hx hchannel
    rcases Lexer.mem_restAll_iff.1 hx with hx' | hx'
    -- A token that is visible and free of faults would be read by the grammar.
    · have hnot : x ∉ significantTokens t := by rw [h]; exact List.not_mem_nil
      rw [significantTokens, List.mem_filter] at hnot
      simp only [Token.isSignificant, Token.isHidden, hchannel] at hnot
      simpa [hx', Decidable.imp_iff_not_or] using hnot
    · rw [hx']
      exact .inr rfl
  · intro h
    rw [List.eq_nil_iff_forall_not_mem]
    intro x hx
    -- A token that the grammar reads is visible, not faulty and not the end.
    have hread := (List.mem_filter.1 hx).2
    simp only [Token.isSignificant, Token.isHidden, Bool.and_eq_true, Bool.not_eq_true'] at hread
    have hchannel : x.channel = .default := by
      cases hc : x.channel with
      | default => rfl
      | hidden => simp [hc] at hread
    rcases h x (mem_restAll_of_significant (List.mem_append_left _ hx)) hchannel with herror | heof
    · rw [herror] at hread
      cases hread.1.2
    · rw [heof] at hread
      cases hread.2

/-! ### Places and tokens -/

/-- The next token is further on if fewer tokens are left, also if the next one is that of the end.
-/
theorem nextToken_start_lt {t : Text} {ts rest : List Token} (hts : ts <:+ significantTokens t)
    (hrest : rest <:+ ts) (hlt : rest.length < ts.length) :
    (nextToken (Text.size t) ts).start < (nextToken (Text.size t) rest).start := by
  obtain ⟨front, hfront⟩ := hrest
  cases front with
  | nil =>
      rw [← hfront] at hlt
      exact absurd hlt (Nat.lt_irrefl _)
  | cons x front =>
      subst hfront
      have hx : x ∈ tokens t := (List.mem_filter.1 (hts.subset (List.mem_cons_self ..))).1
      -- The first token ends in front of every one that comes later, the end included.
      have horder : InOrder (Text.size t) (x :: front ++ rest) :=
        (inOrder_significantTokens t).sublist ((hts.sublist).append_right _)
      rw [InOrder, List.append_assoc, List.cons_append, List.pairwise_cons] at horder
      have hstop := horder.1 (nextToken (Text.size t) rest)
        (List.mem_append_right _ (nextToken_mem ..))
      exact Nat.lt_of_lt_of_le (start_lt_stop hx) hstop

/-- The earlier of two places is the one that more tokens are left at. -/
theorem nextToken_start_le_iff {t : Text} {ts rest : List Token}
    (hts : ts <:+ significantTokens t) (hrest : rest <:+ significantTokens t) :
    (nextToken (Text.size t) ts).start ≤ (nextToken (Text.size t) rest).start ↔
      rest.length ≤ ts.length := by
  constructor
  · intro hle
    by_contra hlt
    -- Fewer tokens would be left at the earlier place, so it would be further on.
    have hsuffix := List.suffix_of_suffix_length_le hts hrest (by omega)
    have := nextToken_start_lt hrest hsuffix (by omega)
    omega
  · intro hle
    have hsuffix := List.suffix_of_suffix_length_le hrest hts hle
    rcases Nat.lt_or_eq_of_le hle with hlt | heq
    · exact Nat.le_of_lt (nextToken_start_lt hts hsuffix hlt)
    · have hsame : ts = rest := (hsuffix.eq_of_length heq).symm
      exact Nat.le_of_eq (by rw [hsame])

/-- The first value inside `depth` others, as a place in the tokens and as a token of the text. -/
theorem beginsInside_first_iff {t : Text} {type : StatementType}
    (h : Announces (significantTokens t) type) (depth : Nat) (place : Span) :
    (∃ rest, NestsFirst depth (statement type) (significantTokens t) rest ∧
        place = (nextToken (Text.size t) rest).span) ↔
      ∃ x, BeginsInside t depth x ∧ (∀ y, BeginsInside t depth y → x.start ≤ y.start) ∧
        place = x.span := by
  -- There is one type that is announced, so all values are looked for in the same rule.
  have htype : ∀ {type'}, Announces (significantTokens t) type' → type' = type := by
    intro type' h'
    exact Except.ok.inj (h'.announced_eq.symm.trans h.announced_eq)
  constructor
  -- More tokens left means that the value begins earlier.
  · rintro ⟨rest, ⟨hnests, hfirst⟩, rfl⟩
    refine ⟨_, ⟨type, rest, h, hnests, rfl⟩, ?_, rfl⟩
    rintro y ⟨type', rest', h', hnests', rfl⟩
    rw [htype h'] at hnests'
    exact (nextToken_start_le_iff hnests.suffix hnests'.suffix).2 (hfirst rest' hnests')
  · rintro ⟨x, ⟨type', rest, h', hnests, rfl⟩, hleast, rfl⟩
    rw [htype h'] at hnests
    refine ⟨rest, ⟨hnests, ?_⟩, rfl⟩
    intro rest' hnests'
    have hstart := hleast _ ⟨type, rest', h, hnests', rfl⟩
    exact (nextToken_start_le_iff hnests.suffix hnests'.suffix).1 hstart

/-- A value begins at a token of the text or at its end. -/
theorem BeginsInside.mem_restAll {t : Text} {depth : Nat} {x : Token} (h : BeginsInside t depth x) :
    x ∈ (Lexer.ofText t).restAll.1 := by
  obtain ⟨type, rest, -, hnests, rfl⟩ := h
  refine mem_restAll_of_significant ?_
  rcases List.mem_append.1 (nextToken_mem (Text.size t) rest) with hx | hx
  · exact List.mem_append_left _ (hnests.suffix.subset hx)
  · exact List.mem_append_right _ hx

/-! ### Refused statements -/

/-- Only a malformed statement is reported all the same. Any other error is the answer, with nothing
besides. -/
theorem Outcome.report_eq_error_iff {t : Text} {o : Outcome} {e : ParseError} :
    o.report t = .error e ↔
      (∃ u, o = .stop e u) ∧ ∀ message place, e ≠ .malformed message place := by
  cases o with
  | ok s => simp [Outcome.report]
  | stop e' s =>
      cases e' with
      -- A malformed statement is reported, so there is no error.
      | malformed message place =>
          simp only [Outcome.report, reduceCtorEq, false_iff, not_and, not_forall, not_not]
          rintro ⟨u, hu⟩
          exact ⟨message, place, (Outcome.stop.inj hu).1.symm⟩
      | _ =>
          simp only [Outcome.report, Except.error.injEq, Outcome.stop.injEq, exists_and_left,
            exists_eq', and_true, iff_self_and]
          rintro rfl message place
          exact ParseError.noConfusion

/-- With a type announced, a text is parsed by reading the rule of the type. -/
theorem Announces.parse_eq {t : Text} {type : StatementType}
    (h : Announces (significantTokens t) type) :
    parse t = ((statement type).read (State.ofText t)).report t := by
  rw [parse, h.announced_eq]

/-- A value that is nested too deep makes the text refused, though the error may be about another
one in front of it. -/
theorem BeginsInside.exists_error {t : Text} {x : Token} (h : BeginsInside t nestingLimit x) :
    ∃ place, parse t = .error (.tooDeep nestingLimit place) := by
  obtain ⟨type, rest, hannounces, hnests, -⟩ := h
  obtain ⟨⟨place, u, hrun⟩, -⟩ :=
    cut_of_nests hnests (steady_statement type) (s := State.ofText t) rfl rfl
  refine ⟨place, ?_⟩
  rw [hannounces.parse_eq]
  exact congrArg (Outcome.report t) hrun

/-- A text is refused on its first token, or reading it stops as too deep. -/
theorem parse_eq_error_iff {t : Text} {e : ParseError} :
    parse t = .error e ↔ announced (significantTokens t) = .error e ∨
      ∃ x, e = .tooDeep nestingLimit x.span ∧ BeginsInside t nestingLimit x ∧
        ∀ y, BeginsInside t nestingLimit y → x.start ≤ y.start := by
  cases htype : announced (significantTokens t) with
  | error e' =>
      have hnone : ∀ x, ¬ BeginsInside t nestingLimit x := by
        rintro x ⟨type, rest, h, -⟩
        cases htype.symm.trans h.announced_eq
      have hparse : parse t = .error e' := by rw [parse, htype]
      rw [hparse, Except.error.injEq, Except.error.injEq]
      constructor
      · exact .inl
      · rintro (h | ⟨x, -, hx, -⟩)
        · exact h
        · exact absurd hx (hnone x)
  | ok type =>
      have hannounces := announces_of_announced htype
      -- Whether and where reading is cut off is told by the first value nested so deep.
      have hdeep := tooDeep_run_iff (d := nestingLimit) (steady_statement type)
        (guarded_statement type) (s := State.ofText t) rfl
      rw [hannounces.parse_eq, Outcome.report_eq_error_iff]
      constructor
      · rintro ⟨⟨u, hrun⟩, hmalformed⟩
        obtain ⟨ms, ks, rest, reason, -, rfl, rfl⟩ := stalls_statement type rfl hrun
        cases reason with
        | wanted what => exact absurd rfl (hmalformed _ _)
        | tooDeep =>
            obtain ⟨x, hx, hleast, hplace⟩ := (beginsInside_first_iff hannounces nestingLimit _).1
              ((hdeep _ _).1 ⟨_, hrun⟩).2
            exact .inr ⟨x, congrArg (ParseError.tooDeep nestingLimit) hplace, hx, hleast⟩
      · rintro (h | ⟨x, rfl, hx, hleast⟩)
        · cases h
        · refine ⟨(hdeep _ _).2 ⟨rfl, ?_⟩, fun message place => ParseError.noConfusion⟩
          exact (beginsInside_first_iff hannounces nestingLimit x.span).2 ⟨x, hx, hleast, rfl⟩

/-- The kind of the first token is an opening word exactly if a type is announced. -/
theorem exists_announces_iff {t : Text} :
    (∃ type, Announces (significantTokens t) type) ↔
      (nextToken (Text.size t) (significantTokens t)).kind ∈ openingWords := by
  cases hannounced : announced (significantTokens t) with
  | ok type =>
      have h := announces_of_announced hannounced
      refine iff_of_true ⟨type, h⟩ ?_
      generalize significantTokens t = ts at h
      cases h with
      | insert hx | delete hx | update hx | updateOrInsert hx =>
          simp [nextToken, hx, openingWords]
  | error e =>
      refine iff_of_false ?_ ?_
      · rintro ⟨type, h⟩
        cases hannounced.symm.trans h.announced_eq
      -- No type is announced at the end, or in front of a token that opens no statement.
      · rcases announced_eq_error_iff.1 hannounced with ⟨hnil, -⟩ | ⟨x, xs, hcons, hx, -⟩
        · rw [hnil]
          simp [nextToken, Token.atEnd, openingWords]
        · rw [hcons]
          exact hx

/-- When a text is refused, and for which reason. A malformed statement is never refused: it is
reported. Nothing is there to read if all tokens but the end are hidden or faulty. Of the other
tokens the first one must be an opening word. And the first value, if any, that begins inside 256
other ones is where reading stops. Everything else is parsed. -/
theorem parse_refusals (t : Text) :
    (∀ message place, parse t ≠ .error (.malformed message place)) ∧
    (parse t = .error .empty ↔
      ∀ x ∈ (Lexer.ofText t).restAll.1, x.channel = .default →
        x.isError = true ∨ x.isEof = true) ∧
    (∀ found place, parse t = .error (.unsupported found place) ↔
      ∃ x, (Lexer.ofText t).restAll.1.find? Token.isReadable = some x ∧
        x.isEof = false ∧ x.kind ∉ openingWords ∧ found = x.kind ∧ place = x.span) ∧
    (∀ limit place, parse t = .error (.tooDeep limit place) ↔
      limit = 256 ∧ ∃ x ∈ (Lexer.ofText t).restAll.1, BeginsInside t 256 x ∧
        (∀ y, BeginsInside t 256 y → x.start ≤ y.start) ∧ place = x.span) ∧
    ((∃ p, parse t = .ok p) ↔
      (∃ x, (Lexer.ofText t).restAll.1.find? Token.isReadable = some x ∧
        x.kind ∈ openingWords) ∧ ∀ x, ¬ BeginsInside t 256 x) := by
  have hfirst := find?_restAll t
  refine ⟨?malformed, ?empty, ?unsupported, ?tooDeep, ?parsed⟩
  case malformed =>
    intro message place h
    rcases parse_eq_error_iff.1 h with h | ⟨x, h, -⟩
    · rcases announced_eq_error_iff.1 h with ⟨-, h⟩ | ⟨x, xs, -, -, h⟩ <;> cases h
    · cases h
  case empty =>
    rw [parse_eq_error_iff, announced_eq_error_iff, significantTokens_eq_nil_iff]
    simp
  case unsupported =>
    intro found place
    rw [parse_eq_error_iff, announced_eq_error_iff, hfirst]
    cases hts : significantTokens t with
    | nil => simp [nextToken, Token.atEnd, Token.isEof]
    | cons x xs =>
        have heof : x.isEof = false :=
          isEof_of_significant (t := t) (by rw [hts]; exact List.mem_cons_self ..)
        simp [nextToken, heof]
  case tooDeep =>
    intro limit place
    rw [parse_eq_error_iff, announced_eq_error_iff]
    constructor
    -- The errors of the first token are others, so it is the nesting that refuses the text.
    · rintro ((⟨-, h⟩ | ⟨x, xs, -, -, h⟩) | ⟨x, h, hx, hleast⟩)
      · cases h
      · cases h
      · obtain ⟨rfl, rfl⟩ := ParseError.tooDeep.inj h
        exact ⟨rfl, x, hx.mem_restAll, hx, hleast, rfl⟩
    · rintro ⟨rfl, x, -, hx, hleast, rfl⟩
      exact .inr ⟨x, rfl, hx, hleast⟩
  case parsed =>
    rw [hfirst]
    simp only [Option.some.injEq, exists_eq_left']
    rw [← exists_announces_iff]
    constructor
    · rintro ⟨p, hp⟩
      obtain ⟨type, ks, htype, -⟩ := trace_of_parse hp
      refine ⟨⟨type, announces_of_announced htype⟩, fun x hx => ?_⟩
      obtain ⟨e, herror⟩ := hx.exists_error
      cases hp.symm.trans herror
    -- With a type announced and no value too deep no reason to refuse the text is left.
    · rintro ⟨⟨type, htype⟩, hnone⟩
      cases hparse : parse t with
      | ok p => exact ⟨p, rfl⟩
      | error e =>
          rcases parse_eq_error_iff.1 hparse with h | ⟨x, -, hx, -⟩
          · cases htype.announced_eq.symm.trans h
          · exact absurd hx (hnone x)

/-- Behind 256 parentheses a value is missing, which would be the 257th one. -/
example : parse ("INSERT INTO T VALUES (".toList ++ List.replicate 256 '(')
    = .error (.tooDeep 256 ⟨278, 278⟩) := by decide +kernel

end GeneratedKeys
