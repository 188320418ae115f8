import GeneratedKeys.Proofs.Reading.Blind
import GeneratedKeys.Proofs.Reading.Parsed

/-!
# `GeneratedKeys.Proofs.Statement.LetterCase`: how the words of a statement are written

Keywords and unquoted names may be written in any letter case. If they are written in another one,
while strings, quoted names and comments stay as they are, then the tokens are at the same bytes and
of the same kinds, and parsing has the same outcome: the same error, or the same parts and the same
problems, each at the same bytes. Only the letters of names and parts are in the other case.

* `parse_recased`: the tokens and the outcome of a statement with its words in other letter case.
-/

set_option autoImplicit false

namespace GeneratedKeys

/-- Kinds that are the same but for the letter case of a name. Keywords are in the first case, as
their kind does not show it. -/
inductive TokenKind.Recased : TokenKind → TokenKind → Prop where
  | same (kind : TokenKind) : Recased kind kind
  | name {name name' : Text} : Text.lower name' = Text.lower name →
      Recased (.identifier name) (.identifier name')

/-- Tokens of the same bytes and of the same kind but for the letter case of a name. -/
structure Token.Recased (x y : Token) : Prop where
  span_eq : y.span = x.span
  channel_eq : y.channel = x.channel
  kind : x.kind.Recased y.kind

/-- The same reason for an error at the same place. Messages may differ, since they quote names as
written. -/
inductive ParseError.Recased : ParseError → ParseError → Prop where
  | empty : Recased .empty .empty
  | unsupported {found found' : TokenKind} {place : Span} : found.Recased found' →
      Recased (.unsupported found place) (.unsupported found' place)
  | malformed {message message' : String} {place : Span} :
      Recased (.malformed message place) (.malformed message' place)
  | tooDeep {limit : Nat} {place : Span} : Recased (.tooDeep limit place) (.tooDeep limit place)

/-- What was done about a problem, and its place. This is the part of it that letter case does not
touch. -/
def Diagnostic.mark (d : Diagnostic) : DiagnosticKind × Span :=
  (d.kind, d.span)

/-- The same parts but for their letter case, and problems that were handled alike at the same
places. -/
structure ParsedStatement.Recased (p q : ParsedStatement) : Prop where
  statement_eq : q.statement.map Text.lower = p.statement.map Text.lower
  marks_eq : q.diagnostics.entries.map Diagnostic.mark = p.diagnostics.entries.map Diagnostic.mark

/-- An error for the same reason, or a statement with the same parts and problems. One of the two
texts is never refused where the other is read. -/
inductive RecasedOutcome :
    Except ParseError ParsedStatement → Except ParseError ParsedStatement → Prop where
  | error {e e' : ParseError} : e.Recased e' → RecasedOutcome (.error e) (.error e')
  | ok {p p' : ParsedStatement} : p.Recased p' → RecasedOutcome (.ok p) (.ok p')

/-! ### Tokens -/

namespace TokenKind

/-- Only a name has another small form, so every other kind is compared by equality. -/
theorem lowered_eq_or (kind : TokenKind) :
    kind.lowered = kind ∨ ∃ name, kind = .identifier name := by
  cases kind with
  | identifier name => exact .inr ⟨name, rfl⟩
  | _ => exact .inl rfl

/-- Kinds with the same small form differ in the case of a name at most. -/
theorem recased_of_lowered_eq {kind kind' : TokenKind} (h : kind'.lowered = kind.lowered) :
    kind.Recased kind' := by
  rcases kind.lowered_eq_or with hkind | ⟨name, rfl⟩
  · rcases kind'.lowered_eq_or with hkind' | ⟨name', rfl⟩
    · rw [← hkind, ← h, hkind']
      exact .same kind'
    · rw [← hkind, ← h]
      exact .name (Text.lower_lower name').symm
  · cases kind' with
    | identifier name' => exact .name (identifier.inj h)
    | _ => cases h

/-- The small form of a kind is on the same channel, so the same tokens are read. -/
theorem channel_lowered (kind : TokenKind) : kind.lowered.channel = kind.channel := by
  cases kind <;> rfl

/-- The small form of a kind has the same fault, or none. -/
theorem fault?_lowered (kind : TokenKind) : kind.lowered.fault? = kind.fault? := by
  cases kind <;> rfl

end TokenKind

namespace Token

/-- Tokens with the same small form are at the same place and differ in the case of letters at most.
-/
theorem recased_of_lowered_eq {x y : Token} (h : y.lowered = x.lowered) : x.Recased y := by
  have hkind : y.kind.lowered = x.kind.lowered := congrArg kind h
  refine ⟨?_, ?_, TokenKind.recased_of_lowered_eq hkind⟩
  · rw [← span_lowered, h, span_lowered]
  · rw [channel, channel, ← TokenKind.channel_lowered, hkind, TokenKind.channel_lowered]

/-- The grammar reads the small form of a token exactly if it reads the token. -/
theorem isSignificant_lowered (x : Token) : x.lowered.isSignificant = x.isSignificant := by
  rcases x with ⟨kind, text, start⟩
  cases kind <;> rfl

/-- The problem of a faulty token does not depend on letter case. -/
theorem problem?_lowered (x : Token) : x.lowered.problem? = x.problem? := by
  rw [problem?, problem?, span_lowered]
  exact congrArg (Option.map _) x.kind.fault?_lowered

end Token

/-- Tokens with the same small forms, one by one: each pair has the same place, and the same kind up
to a name. -/
theorem forall₂_recased {ts us : List Token} (h : us.map Token.lowered = ts.map Token.lowered) :
    List.Forall₂ Token.Recased ts us := by
  have hlowered : List.Forall₂ (· = ·) (ts.map Token.lowered) (us.map Token.lowered) := by
    rw [List.forall₂_eq_eq_eq, h]
  rw [List.forall₂_map_left_iff, List.forall₂_map_right_iff] at hlowered
  exact hlowered.imp fun _ _ hxy => Token.recased_of_lowered_eq hxy.symm

/-- Nor do the lexical problems of all tokens, since faulty tokens are not touched by letter case.
-/
theorem lexicalProblems_lowered (ts : List Token) :
    lexicalProblems (ts.map Token.lowered) = lexicalProblems ts := by
  rw [lexicalProblems, lexicalProblems, List.filterMap_map]
  exact congrArg (fun f => Diagnostics.none.recordAll (ts.filterMap f))
    (funext Token.problem?_lowered)

/-- The tokens that the grammar reads may be picked out before or after they are brought to their
small forms. -/
theorem filter_isSignificant_lowered (ts : List Token) :
    (ts.map Token.lowered).filter Token.isSignificant
      = (ts.filter Token.isSignificant).map Token.lowered := by
  rw [List.filter_map]
  exact congrArg (fun p => (ts.filter p).map Token.lowered) (funext Token.isSignificant_lowered)

/-! ### The first tokens -/

/-- The first tokens announce the same type of statement, or none for the same reason. -/
theorem announced_lowered (ts : List Token) :
    (announced (ts.map Token.lowered)).mapError ParseError.outline
      = (announced ts).mapError ParseError.outline := by
  cases ts with
  | nil => rfl
  | cons x rest =>
      -- Whether OR follows is asked by its word, which has the same small form in any case.
      have hor : State.passes [Rule.isWord .or] (rest.map Token.lowered)
          = State.passes [Rule.isWord .or] rest := passes_lowered (by simp) rest
      have hkind : x.lowered.kind = x.kind.lowered := rfl
      rw [List.map_cons, announced, announced, hor, hkind, x.span_lowered]
      generalize x.kind = kind
      cases kind with
      -- Only an error quotes a name, and it is brought to its small form on both sides.
      | identifier name =>
          show Except.error (ParseError.unsupported (TokenKind.identifier name).lowered.lowered _)
            = Except.error (ParseError.unsupported (TokenKind.identifier name).lowered _)
          rw [TokenKind.lowered_lowered]
      | _ => rfl

/-! ### Reports -/

/-- Errors with the same outline have the same reason and place. What the outline leaves out are the
names quoted. -/
theorem ParseError.recased_of_outline_eq {e e' : ParseError} (h : e'.outline = e.outline) :
    e.Recased e' := by
  cases e with
  | empty =>
      cases e' <;> cases h
      exact .empty
  -- The only error that quotes a token: its kinds differ in the case of a name at most.
  | unsupported found place =>
      cases e' with
      | unsupported found' place' =>
          obtain ⟨hfound, rfl⟩ := unsupported.inj h
          exact .unsupported (TokenKind.recased_of_lowered_eq hfound)
      | _ => cases h
  | malformed message place =>
      cases e' <;> cases h
      exact .malformed
  | tooDeep limit place =>
      cases e' <;> cases h
      exact .tooDeep

/-- What was done about a repair, and where, does not depend on letter case. -/
theorem Repair.mark_lowered (r : Repair) : r.lowered.diagnostic.mark = r.diagnostic.mark := by
  cases r with
  | dropped found wanted => exact congrArg (DiagnosticKind.recovered, ·) found.span_lowered
  | supplied wanted place => rfl

/-- The same parts are cut out of the text in the other letter case. -/
theorem map_lower_slice {t u : Text} (hlower : Text.lower u = Text.lower t)
    (found : Statement Span) :
    (found.map (·.slice u)).map Text.lower = (found.map (·.slice t)).map Text.lower := by
  have hslice : ∀ s : Span, Text.lower (s.slice u) = Text.lower (s.slice t) := by
    intro s
    rw [← s.slice_lower, hlower, s.slice_lower]
  simp [Statement.map, Function.comp_def, hslice]

section

variable {t u : Text} (h : Text.Recased t u)
include h

/-- A text in other letter case has as many bytes, as its small form has as many as either. -/
theorem Text.Recased.size_eq : Text.size u = Text.size t := by
  rw [← Text.size_lower, (lowered_tokens_recased h).1, Text.size_lower]

/-- The tokens, one by one, that of the end included. -/
theorem Text.Recased.forall₂_restAll :
    List.Forall₂ Token.Recased (Lexer.ofText t).restAll.1 (Lexer.ofText u).restAll.1 := by
  refine forall₂_recased ?_
  show (tokens u ++ [Token.atEnd (0 + Text.size u)]).map Token.lowered
    = (tokens t ++ [Token.atEnd (0 + Text.size t)]).map Token.lowered
  rw [List.map_append, List.map_append, (lowered_tokens_recased h).2, h.size_eq]

/-- The tokens that the grammar reads have the same small forms, since which tokens it reads does
not depend on case. -/
theorem Text.Recased.significantTokens_eq :
    (significantTokens u).map Token.lowered = (significantTokens t).map Token.lowered := by
  rw [significantTokens, significantTokens, ← filter_isSignificant_lowered,
    ← filter_isSignificant_lowered, (lowered_tokens_recased h).2]

/-- Reading begins at the same place, up to the case of names in the tokens ahead. -/
theorem Text.Recased.lowered_ofText : (State.ofText u).lowered = (State.ofText t).lowered := by
  simp only [State.ofText, State.initial, State.lowered, h.significantTokens_eq, h.size_eq]

/-- Reports on the same state have the same parts up to letter case, sliced from either text. -/
theorem recased_report {s s' : State} (hs : s'.lowered = s.lowered) {last last' : List Diagnostic}
    (hlast : last'.map Diagnostic.mark = last.map Diagnostic.mark) :
    (s.report t last).Recased (s'.report u last') := by
  obtain ⟨hlower, htokens⟩ := lowered_tokens_recased h
  have hfound : s'.lowered.found = s.lowered.found := congrArg State.found hs
  -- The lexical problems are the same ones, since faults have no letter case.
  have hlexical : lexicalProblems (tokens u) = lexicalProblems (tokens t) := by
    rw [← lexicalProblems_lowered, htokens, lexicalProblems_lowered]
  -- The marks of the repairs can be read off their small forms.
  have hmark : ∀ rs : List Repair, (rs.map Repair.diagnostic).map Diagnostic.mark
      = (rs.map Repair.lowered).map (fun r => r.diagnostic.mark) := by
    intro rs
    rw [List.map_map, List.map_map]
    exact List.map_congr_left fun r _ => r.mark_lowered.symm
  have hrepairs : s'.repairs.map Repair.lowered = s.repairs.map Repair.lowered :=
    congrArg State.repairs hs
  constructor
  · rw [State.report, State.report, show s'.found = s.found from hfound]
    exact map_lower_slice hlower s.found
  · simp only [entries_report, List.map_append, hmark, hrepairs, hlexical, hlast]

/-- Reports on outcomes that differ in letter case differ in nothing else. There is one case for
each way in which reading ends. -/
theorem recasedOutcome_report {o o' : Outcome} (ho : o'.outline = o.outline) :
    RecasedOutcome (o.report t) (o'.report u) := by
  obtain ⟨s, s', rfl, rfl, hs⟩ | ⟨e, e', s, s', rfl, rfl, he, hs⟩ :=
    Outcome.cases_of_outline_eq ho
  · exact .ok (recased_report h hs rfl)
  · have herror := ParseError.recased_of_outline_eq he
    cases herror with
    | malformed =>
        rw [Outcome.report, Outcome.report, report_skipToEnd, report_skipToEnd]
        exact .ok (recased_report h hs rfl)
    | empty => exact .error .empty
    | unsupported hfound => exact .error (.unsupported hfound)
    | tooDeep => exact .error .tooDeep

/-- A statement with its words in other letter case is parsed with the same outcome. -/
theorem recasedOutcome_parse : RecasedOutcome (parse t) (parse u) := by
  have hannounced : (announced (significantTokens u)).mapError ParseError.outline
      = (announced (significantTokens t)).mapError ParseError.outline := by
    rw [← announced_lowered, h.significantTokens_eq, announced_lowered]
  rw [parse, parse]
  revert hannounced
  generalize announced (significantTokens t) = a, announced (significantTokens u) = a'
  intro hannounced
  cases a with
  -- No type is announced, for the same reason in both texts.
  | error e =>
      cases a' with
      | error e' => exact .error (ParseError.recased_of_outline_eq (Except.error.inj hannounced))
      | ok type' => cases hannounced
  | ok type =>
      cases a' with
      | error e' => cases hannounced
      | ok type' =>
          -- The same type is announced, and reading its rule does not see letter case.
          obtain rfl : type' = type := Except.ok.inj hannounced
          exact recasedOutcome_report h
            ((read_blind (Grammar.blind_statement type')).congr h.lowered_ofText)

end

/-- Letter case of words is irrelevant. If only keywords and unquoted names are written in another
case, then all tokens are at the same bytes, on the same channels and of the same kinds but for the
case of names. Parsing refuses the statement for the same reason at the same place, or reports the
same parts but for their case, and problems of the same kinds at the same places. -/
theorem parse_recased {t u : Text} (h : Text.Recased t u) :
    List.Forall₂ Token.Recased (Lexer.ofText t).restAll.1 (Lexer.ofText u).restAll.1 ∧
      RecasedOutcome (parse t) (parse u) :=
  ⟨h.forall₂_restAll, recasedOutcome_parse h⟩

/-- The marks and the letters of the string are as they were, and the stray name in front of the
sign is dropped in both. -/
theorem parse_recased_update :
    ∃ p, parse "UPDATE t sEt \"Ab\" X = Q'[aB]' || a".toList = .ok p ∧
      p.statement.map Text.lower
        = ⟨some .update, some ['t'], ["\"ab\"".toList], ["q'[ab]' || a".toList], [], false⟩ ∧
      p.diagnostics.entries.map Diagnostic.mark = [(.recovered, ⟨18, 19⟩)] := by
  have hparse : parse "update T set \"Ab\" x = Q'[aB]' || A".toList = .ok
      ⟨⟨some .update, some ['T'], ["\"Ab\"".toList], ["Q'[aB]' || A".toList], [], false⟩,
        ⟨[⟨.recovered, "Extraneous input identifier x, expected '='", ⟨18, 19⟩⟩], 1⟩⟩ := by rfl
  -- The text is cut into the pieces that have letters to change and those in between.
  have hrecased : Text.Recased "update T set \"Ab\" x = Q'[aB]' || A".toList
      "UPDATE t sEt \"Ab\" X = Q'[aB]' || a".toList := by
    refine ⟨["UPDATE".toList, [' '], ['t'], [' '], "sEt".toList, [' '], "\"Ab\"".toList, [' '],
      ['X'], [' '], ['='], [' '], "Q'[aB]'".toList, [' '], "||".toList, [' '], ['a']], ?_,
      by decide⟩
    decide +kernel
  have houtcome := (parse_recased hrecased).2
  rw [hparse] at houtcome
  generalize parse "UPDATE t sEt \"Ab\" X = Q'[aB]' || a".toList = o at houtcome ⊢
  cases houtcome with
  | ok hp => exact ⟨_, rfl, hp.statement_eq, hp.marks_eq⟩

end GeneratedKeys
