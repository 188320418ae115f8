import GeneratedKeys.Proofs.Reading.Labels
import GeneratedKeys.Proofs.Reading.Leads
import Mathlib.Data.List.Forall2

/-!
# `GeneratedKeys.Proofs.Statement.Problems`: the problems of a statement

Problems are met by three parties. The lexer meets all pieces that are no tokens before anything
is read, reading makes repairs on its way, and at most one error ends it. Reading never goes back,
so its repairs and its error are met from the front of the text to its end, whatever was attempted
in between.

* `parse_problems`: the problems of any parse that reports anything, in their order and with their
  places; without an error the type of the statement is known.
* `problems_of_parse`: the moves that a parse has made and the problems that they stand for.
-/

set_option autoImplicit false

namespace GeneratedKeys

open Grammar Move

/-- The problem is what is said of a faulty token: its fault in words, at its place. -/
def Token.Faulty (x : Token) (d : Diagnostic) : Prop :=
  ∃ fault, x.kind = .error fault ∧ d = ⟨.lexical, fault.message, x.span⟩

/-- The problems of a statement that consists of the tokens, that of its end included: how many, in
which phases, and where. -/
structure Diagnostics.Structured (ts : List Token) (ds : Diagnostics) : Prop where
  /-- Every problem counts once. -/
  count_eq : ds.count = ds.entries.length
  /-- First what is said of the faulty tokens, one by one, then the repairs, then at most one
  error. -/
  phases : ∃ lexical recovered abandoned : List Diagnostic,
    ds.entries = lexical ++ (recovered ++ abandoned) ∧
    List.Forall₂ Token.Faulty (ts.filter Token.isError) lexical ∧
    (∀ d ∈ recovered, d.kind = .recovered) ∧
    (∀ d ∈ abandoned, d.kind = .abandoned) ∧ abandoned.length ≤ 1
  /-- Every problem is at a token. -/
  placed : ∀ d ∈ ds.entries, ∃ x ∈ ts, d.span = x.span
  /-- The repairs and the error are met one behind the other. -/
  ordered : (ds.entries.filter fun d => d.kind ≠ .lexical).Pairwise
    fun d e => d.span.start ≤ e.span.start

/-! ### Lexical problems -/

/-- The lexical problems are what is said of the faulty tokens, one by one. -/
theorem faulty_lexicalProblems (ts : List Token) :
    List.Forall₂ Token.Faulty (ts.filter Token.isError) (lexicalProblems ts).entries := by
  induction ts with
  | nil => exact .nil
  | cons x ts ih =>
      rw [entries_lexicalProblems] at ih ⊢
      cases hfault : x.kind.fault? with
      -- A token without a fault is in neither list.
      | none =>
          rw [List.filter_cons_of_neg (by simp [Token.isError, hfault]), List.filterMap_cons_none
            (by rw [Token.problem?, hfault]; rfl)]
          exact ih
      | some fault =>
          -- A token with a fault is of the kind for that fault.
          have hkind : x.kind = .error fault := by
            revert hfault
            cases x.kind <;> simp [TokenKind.fault?]
          rw [List.filter_cons_of_pos (by simp [Token.isError, hfault]), List.filterMap_cons_some
            (by rw [Token.problem?, hfault]; rfl)]
          exact .cons ⟨fault, hkind, rfl⟩ ih

/-- A lexical problem is at its token, so its place is that of a piece of the text. -/
theorem exists_of_mem_lexicalProblems {ts : List Token} {d : Diagnostic}
    (h : d ∈ (lexicalProblems ts).entries) : ∃ x ∈ ts, d.span = x.span := by
  rw [entries_lexicalProblems] at h
  obtain ⟨x, hx, hproblem⟩ := List.mem_filterMap.1 h
  obtain ⟨fault, -, rfl⟩ := Option.map_eq_some_iff.1 hproblem
  exact ⟨x, hx, rfl⟩

/-- The token of the end is not faulty, so the faulty ones are those of the text. -/
theorem filter_isError_restAll (t : Text) :
    (Lexer.ofText t).restAll.1.filter Token.isError = (tokens t).filter Token.isError := by
  rw [Lexer.restAll_ofText, allTokens, List.filter_append]
  exact List.append_nil _

/-- A token that the grammar reads is not the end, so the end is met only where no token is left. -/
theorem isEof_of_significant {t : Text} {x : Token} (h : x ∈ significantTokens t) :
    x.isEof = false :=
  isEof_of_mem (List.mem_filter.1 h).1

/-- The significant tokens and the token of the end are among all tokens. -/
theorem mem_restAll_of_significant {t : Text} {x : Token}
    (h : x ∈ significantTokens t ++ [Token.atEnd (Text.size t)]) :
    x ∈ (Lexer.ofText t).restAll.1 := by
  rcases List.mem_append.1 h with h | h
  · exact Lexer.mem_restAll_iff.2 (.inl (List.mem_filter.1 h).1)
  · exact Lexer.mem_restAll_iff.2 (.inr (List.mem_singleton.1 h))

/-! ### Repairs and errors -/

/-- A repair is reported as recovered from, whichever of the two it is. -/
theorem kind_of_repair (r : Repair) : r.diagnostic.kind = .recovered := by
  cases r <;> rfl

/-- A malformed statement is one where something else was wanted at the next token. -/
theorem Reason.place_of_malformed {s : State} {reason : Reason} {message : String} {place : Span}
    (h : .malformed message place = reason.error s) :
    place = (nextToken s.size s.after).span := by
  cases reason with
  | wanted what => exact (ParseError.malformed.inj h).2
  | tooDeep => cases h

/-- A statement that is read to its end has settled its type. -/
theorem Reads.isSome_type {n : Nat} {type : StatementType} {ts rest : List Token} {ms : List Move}
    {ks : List Note} (h : Reads n (statement type) ts ms ks rest) (t : Text) :
    (partsOf t ks).type?.isSome = true := by
  have hsurely : (statement type).surely (.type type) = true := by cases type <;> rfl
  exact isSome_type_partsOf (h.exists_label hsurely)

/-- The moves that a parse has made and the problems that they stand for. Either nothing comes
behind the repairs and the type is known, or an error does that is met at the place reached. -/
theorem problems_of_parse {t : Text} {p : ParsedStatement} (h : parse t = .ok p) :
    ∃ (ms : List Move) (rest : List Token) (last : List Diagnostic),
      Leads (significantTokens t) ms rest ∧
      p.diagnostics.entries = (lexicalProblems (tokens t)).entries ++
        ((repairs (Text.size t) ms).map Repair.diagnostic ++ last) ∧
      ((last = [] ∧ p.statement.type?.isSome = true) ∨
        ∃ message, last = [⟨.abandoned, message, (nextToken (Text.size t) rest).span⟩]) := by
  obtain ⟨type, s, -, ⟨hrun, rfl⟩ | ⟨message, place, hrun, rfl⟩⟩ := exists_read_of_parse h
  · obtain ⟨ms, ks, rest, hread, rfl⟩ := reads_statement type rfl hrun
    exact ⟨ms, rest, [], hread.leads, entries_report _ _ _, .inl ⟨rfl, hread.isSome_type t⟩⟩
  · obtain ⟨ms, ks, rest, reason, hstalls, rfl, hreason⟩ := stalls_statement type rfl hrun
    rw [report_skipToEnd, reason.place_of_malformed hreason]
    exact ⟨ms, rest, _, hstalls.leads, entries_report _ _ _, .inr ⟨message, rfl⟩⟩

/-! ### All problems -/

/-- Entries of which only the first ones are lexical problems: leaving these out leaves the others,
in their order. -/
theorem filter_not_lexical {lexical others : List Diagnostic}
    (hlexical : ∀ d ∈ lexical, d.kind = .lexical) (hothers : ∀ d ∈ others, d.kind ≠ .lexical) :
    (lexical ++ others).filter (fun d => d.kind ≠ .lexical) = others := by
  have hnone : lexical.filter (fun d => d.kind ≠ .lexical) = [] :=
    List.filter_eq_nil_iff.2 fun d hd => by simp [hlexical d hd]
  have hall : others.filter (fun d => d.kind ≠ .lexical) = others :=
    List.filter_eq_self.2 fun d hd => by simp [hothers d hd]
  rw [List.filter_append, hnone, hall, List.nil_append]

/-- The places of the repairs that moves make and of an error behind them, or of none. -/
theorem places_sublist (size : Nat) (ms : List Move) {next : Token} {last : List Diagnostic}
    (hlast : last = [] ∨ ∃ message, last = [⟨.abandoned, message, next.span⟩]) :
    (((repairs size ms).map Repair.diagnostic ++ last).map Diagnostic.span).Sublist
      ((repairs size ms).map (fun r => r.diagnostic.span) ++ [next.span]) := by
  rw [List.map_append, List.map_map]
  refine List.Sublist.append (List.Sublist.refl _) ?_
  rcases hlast with rfl | ⟨message, rfl⟩
  · exact List.nil_sublist _
  · exact List.Sublist.refl _

/-- The problems that a parse reports, whatever they are: what is said of the faulty tokens in
their order, then the repairs, then at most one error. Every problem is at a token, and but for
the lexical ones they are met from the front of the text to its end. If there is no error, the
type of the statement is known. -/
theorem parse_problems {t : Text} {p : ParsedStatement} (h : parse t = .ok p) :
    p.diagnostics.Structured (Lexer.ofText t).restAll.1 ∧
      ((∀ d ∈ p.diagnostics.entries, d.kind ≠ .abandoned) → p.statement.type?.isSome = true) := by
  obtain ⟨ms, rest, last, hleads, hentries, hlast⟩ := problems_of_parse h
  -- Behind the repairs stands one error at most, at the next token.
  have hsplit : last = [] ∨
      ∃ message, last = [⟨.abandoned, message, (nextToken (Text.size t) rest).span⟩] :=
    hlast.imp_left And.left
  have habandoned : ∀ d ∈ last, d.kind = .abandoned := by
    intro d hd
    rcases hsplit with rfl | ⟨message, rfl⟩
    · cases hd
    · rw [List.mem_singleton.1 hd]
  have hrecovered : ∀ d ∈ (repairs (Text.size t) ms).map Repair.diagnostic,
      d.kind = .recovered := by
    intro d hd
    obtain ⟨r, -, rfl⟩ := List.mem_map.1 hd
    exact kind_of_repair r
  -- The places of the repairs and of the error are among those that the moves go through.
  have hsub := places_sublist (Text.size t) ms hsplit
  refine ⟨⟨counted_of_parse h, ⟨_, _, last, hentries, ?phases, hrecovered, habandoned, ?one⟩,
    ?placed, ?ordered⟩, ?type⟩
  case phases =>
    rw [filter_isError_restAll]
    exact faulty_lexicalProblems _
  case one =>
    rcases hsplit with rfl | ⟨message, rfl⟩
    · exact Nat.zero_le _
    · exact Nat.le_refl _
  case placed =>
    intro d hd
    rw [hentries] at hd
    rcases List.mem_append.1 hd with hd | hd
    · obtain ⟨x, hx, hspan⟩ := exists_of_mem_lexicalProblems hd
      exact ⟨x, List.mem_append_left _ hx, hspan⟩
    · obtain ⟨x, hx, hspan⟩ :=
        hleads.repaired_place _ (hsub.subset (List.mem_map_of_mem (f := Diagnostic.span) hd))
      exact ⟨x, mem_restAll_of_significant hx, hspan⟩
  case ordered =>
    rw [hentries, filter_not_lexical (fun d hd => kind_of_mem_lexicalProblems hd)]
    · have hordered := (hleads.repaired_inOrder (inOrder_significantTokens t)).sublist hsub
      rwa [List.pairwise_map] at hordered
    · intro d hd
      rcases List.mem_append.1 hd with hd | hd
      · rw [hrecovered d hd]
        exact DiagnosticKind.noConfusion
      · rw [habandoned d hd]
        exact DiagnosticKind.noConfusion
  -- Without an error the statement was read to its end, which settles the type.
  case type =>
    intro hnone
    rcases hlast with ⟨-, htype⟩ | ⟨message, rfl⟩
    · exact htype
    · have hmem : ⟨.abandoned, message, (nextToken (Text.size t) rest).span⟩
          ∈ p.diagnostics.entries := by
        rw [hentries]
        exact List.mem_append_right _ (List.mem_append_right _ (List.mem_singleton_self _))
      exact absurd rfl (hnone _ hmem)

/-- The lexer has met the piece that is no token before the stray word in front of it is dropped,
and the word behind the end is met last. -/
theorem parse_problems_stray :
    ∃ p, parse "UPDATE T SET A B = § 1; Z".toList = .ok p ∧
      p.diagnostics.Structured (Lexer.ofText "UPDATE T SET A B = § 1; Z".toList).restAll.1 ∧
      p.diagnostics.entries.map (fun d => (d.kind, d.span))
        = [(.lexical, ⟨19, 21⟩), (.recovered, ⟨15, 16⟩), (.abandoned, ⟨25, 26⟩)] := by
  have hparse : parse "UPDATE T SET A B = § 1; Z".toList = .ok
      ⟨⟨some .update, some ['T'], [['A']], [['1']], [], false⟩,
        ⟨[⟨.lexical, "unexpected character '§'", ⟨19, 21⟩⟩,
          ⟨.recovered, "Extraneous input identifier B, expected '='", ⟨15, 16⟩⟩,
          ⟨.abandoned, "Unexpected token: expected end of statement, found identifier Z",
            ⟨25, 26⟩⟩], 3⟩⟩ := by rfl
  exact ⟨_, hparse, (parse_problems hparse).1, rfl⟩

end GeneratedKeys
