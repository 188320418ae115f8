import GeneratedKeys.Proofs.Reading.Kept
import GeneratedKeys.Proofs.Reading.Levels
import GeneratedKeys.Proofs.Reading.Parts
import GeneratedKeys.Proofs.Reading.Tests
import GeneratedKeys.Proofs.Token.Faultless

/-!
# `GeneratedKeys.Proofs.Reading.Parsed`: parsing as reading visible tokens

A statement without faulty tokens is parsed by reading its visible tokens. The parts that
are reported are the slices of the text that the notes of the reading cover, and the
problems are its repairs.

* `exists_read_of_parse`: how a parse ends that reports anything.
* `reads_of_parse`: what a parse that only made repairs has read.
* `parse_of_reads`: a statement that is read without repairs is parsed without problems.
* `parse_of_reads_levels`: with another number of levels values may be nested too deep as well.
-/

set_option autoImplicit false

namespace GeneratedKeys

open Grammar Move

/-- The grammar reads the visible tokens of a text without faulty ones. -/
theorem significantTokens_eq {t : Text} (h : Faultless t) :
    significantTokens t = visibleTokens t := by
  refine List.filter_congr fun x hx => ?_
  have hfault : x.isError = false := by
    rw [Token.isError, h.of_mem hx]
    rfl
  rw [Token.isSignificant, Token.isVisible, hfault, isEof_of_mem hx]
  simp

/-! ### Parsing -/

/-- Whether the rule ends with the end of the statement. Behind such a rule no token is left if
reading goes on. -/
def Rule.final : Rule → Bool
  | seq _ second => second.final
  | finish => true
  | _ => false

/-- A rule that ends with the end of the statement leaves no tokens. -/
theorem Reads.rest_eq_nil {n : Nat} {r : Rule} {ts rest : List Token} {ms : List Move}
    {ks : List Note} (h : Reads n r ts ms ks rest) (hr : r.final = true) : rest = [] := by
  induction h with
  | seq _ _ _ ih => exact ih hr
  | finish => rfl
  | _ => cases hr

/-- A word that a reading without repairs begins with is the first token, and the other rules read
those behind it. -/
theorem Reads.head_of_word {n : Nat} {k : Keyword} {r : Rule} {ts rest : List Token}
    {ms : List Move} {ks : List Note} (h : Reads n (.seq (Rule.word k) r) ts ms ks rest)
    (hclean : Clean ms) :
    ∃ t us ms' ks', ts = t :: us ∧ t.kind = .keyword k ∧ Reads n r us ms' ks' rest ∧
      Clean ms' := by
  cases h with
  | seq hword hrest =>
      rw [clean_append] at hclean
      cases hword with
      | expect hk => exact ⟨_, _, _, _, rfl, (TokenKind.sameClass_iff rfl).1 hk, hrest, hclean.2⟩
      | dropped => simp [clean_cons] at hclean

/-- A statement is announced by the words that it begins with, so the rule that reads it is the one
that is chosen. -/
theorem announced_of_reads {n : Nat} {type : StatementType} {ts rest : List Token}
    {ms : List Move} {ks : List Note} (h : Reads n (statement type) ts ms ks rest)
    (hclean : Clean ms) : announced ts = .ok type := by
  cases type with
  | insert =>
      obtain ⟨t, us, -, -, rfl, ht, -⟩ := h.head_of_word hclean
      simp only [announced, ht]
  | delete =>
      obtain ⟨t, us, -, -, rfl, ht, -⟩ := h.head_of_word hclean
      simp only [announced, ht]
  | update =>
      obtain ⟨t, us, ms', ks', rfl, ht, hothers, -⟩ := h.head_of_word hclean
      -- The table is a name, so it is not the word that makes another statement of it.
      have hor : State.passes [Rule.isWord .or] us = false := by
        cases hothers with
        | seq htable =>
            cases htable with
            | record hname =>
                cases hname with
                | yes hp =>
                    obtain ⟨u, vs, rfl, hu⟩ := State.passes_one_iff.1 hp
                    rw [State.passes_one_cons, ← Bool.not_eq_true, Rule.isWord_iff]
                    intro hk
                    rw [hk] at hu
                    cases hu
                | no _ hfail => cases hfail
      simp [announced, ht, hor]
  | updateOrInsert =>
      obtain ⟨t, us, ms', ks', rfl, ht, hothers, hclean'⟩ := h.head_of_word hclean
      obtain ⟨u, vs, -, -, rfl, hu, -⟩ := hothers.head_of_word hclean'
      have hor : State.passes [Rule.isWord .or] (u :: vs) = true := by
        rw [State.passes_one_cons, hu]
        rfl
      simp [announced, ht, hor]

/-- A statement that is read without repairs, with any number of levels of nesting, is parsed
without problems, or its values are nested too deep. -/
theorem parse_of_reads_levels {n : Nat} {t : Text} {type : StatementType} {ms : List Move}
    {ks : List Note} (hfault : Faultless t)
    (h : Reads n (statement type) (visibleTokens t) ms ks []) (hclean : Clean ms) :
    parse t = .ok ⟨partsOf t ks, .none⟩ ∨
      n ≠ nestingLimit ∧ ∃ place, parse t = .error (.tooDeep nestingLimit place) := by
  have hsteady := steady_statement type
  have hrun := run_of_reads h hsteady (State.ofText t) (significantTokens_eq hfault) rfl
  have hparse : parse t
      = ((statement type).run (readValue nestingLimit) (State.ofText t)).report t := by
    rw [parse, significantTokens_eq hfault, announced_of_reads h hclean]
    rfl
  have hreport : (Outcome.ok ((State.ofText t).follow ms ks [])).report t
      = .ok ⟨partsOf t ks, .none⟩ := by
    rw [Outcome.report, State.report, lexicalProblems_of_faultless hfault]
    simp [State.follow, State.ofText, State.initial, repairs_eq_nil.2 hclean, partsOf]
  rw [hparse]
  -- The number of levels cuts off at most, and what was read was not cut off.
  rcases Nat.le_total n nestingLimit with hle | hle
  · have hagrees := (run_cutOff hle hsteady (State.ofText t)).agrees
    rw [hrun] at hagrees
    rcases hagrees with hsame | ⟨place, s, hdeep⟩
    · rw [← hsame, hreport]
      exact .inl rfl
    · cases hdeep
  · rcases (run_cutOff hle hsteady (State.ofText t)).agrees with
      hsame | ⟨place, s, hdeep⟩
    · rw [hsame, hrun, hreport]
      exact .inl rfl
    · refine .inr ⟨?_, place, by rw [hdeep]; rfl⟩
      rintro rfl
      cases hrun.symm.trans hdeep

/-- A statement that is read without repairs is parsed without problems, and its parts are those of
the notes. -/
theorem parse_of_reads {t : Text} {type : StatementType} {ms : List Move} {ks : List Note}
    (hfault : Faultless t)
    (h : Reads nestingLimit (statement type) (visibleTokens t) ms ks []) (hclean : Clean ms) :
    parse t = .ok ⟨partsOf t ks, .none⟩ :=
  (parse_of_reads_levels hfault h hclean).resolve_right fun hdeep => hdeep.1 rfl

/-- The problems of a report: those of the tokens, then the repairs, then the last ones. -/
theorem entries_report (t : Text) (s : State) (last : List Diagnostic) :
    (s.report t last).diagnostics.entries
      = (lexicalProblems (tokens t)).entries ++ (s.repairs.map Repair.diagnostic ++ last) :=
  Diagnostics.entries_recordAll _ _

/-- All problems of a report were recorded, so they are counted: lexical ones first, then repairs,
then the last error. -/
theorem counted_report (t : Text) (s : State) (last : List Diagnostic) :
    (s.report t last).diagnostics.Counted :=
  (counted_lexicalProblems _).recordAll _

/-- Skipping to the end changes nothing that is known, so an abandoned statement is reported as it
was when it was left. -/
theorem report_skipToEnd (t : Text) (s : State) (last : List Diagnostic) :
    s.skipToEnd.report t last = s.report t last := by
  rw [State.skipToEnd, State.takeMany_eq_follow]
  rw [State.report, State.follow, repairs_eq_nil.2 (clean_map_pass _), List.append_nil]
  rfl

/-- A parse that reports anything has read a statement to its end, or up to an error that is
the last problem. -/
theorem exists_read_of_parse {t : Text} {p : ParsedStatement} (h : parse t = .ok p) :
    ∃ (type : StatementType) (s : State), announced (significantTokens t) = .ok type ∧
      (((statement type).read (State.ofText t) = .ok s ∧ p = s.report t []) ∨
        ∃ message place,
          (statement type).read (State.ofText t) = .stop (.malformed message place) s ∧
          p = s.skipToEnd.report t [⟨.abandoned, message, place⟩]) := by
  rw [parse] at h
  split at h
  · cases h
  · next type htype =>
    -- What was read is reported if reading has ended or met a malformed statement. Other errors
    -- refuse the text.
    refine ⟨type, ((statement type).read (State.ofText t)).state, htype, ?_⟩
    generalize (statement type).read (State.ofText t) = o at h
    cases o with
    | ok s =>
        cases h
        exact .inl ⟨rfl, rfl⟩
    | stop e s =>
        cases e with
        | malformed message place =>
            cases h
            exact .inr ⟨message, place, rfl, rfl⟩
        | _ => cases h

/-- The counter of every parse that reports anything tells the number of its problems. -/
theorem counted_of_parse {t : Text} {p : ParsedStatement} (h : parse t = .ok p) :
    p.diagnostics.Counted := by
  obtain ⟨type, s, -, ⟨-, rfl⟩ | ⟨message, place, -, rfl⟩⟩ := exists_read_of_parse h
  · exact counted_report t s []
  · exact counted_report t s.skipToEnd _

/-- What a parse that only made repairs has read: the whole statement, up to its last token. Its
problems are then the repairs and nothing else. -/
theorem reads_of_parse {t : Text} {p : ParsedStatement} (h : parse t = .ok p)
    (hrecovered : ∀ d ∈ p.diagnostics.entries, d.kind = .recovered) :
    Faultless t ∧ ∃ type ms ks, Reads nestingLimit (statement type) (visibleTokens t) ms ks [] ∧
      p = ⟨partsOf t ks,
        Diagnostics.none.recordAll ((repairs (Text.size t) ms).map Repair.diagnostic)⟩ := by
  obtain ⟨type, s, -, ⟨hrun, rfl⟩ | ⟨message, place, -, rfl⟩⟩ := exists_read_of_parse h
  -- A problem of a token would be reported as one, and all that is reported is recovered from.
  · have hlexical : (lexicalProblems (tokens t)).entries = [] := by
      rw [List.eq_nil_iff_forall_not_mem]
      intro d hd
      have hentry : d ∈ (s.report t []).diagnostics.entries := by
        rw [entries_report]
        exact List.mem_append_left _ hd
      cases (hrecovered d hentry).symm.trans (kind_of_mem_lexicalProblems hd)
    have hfault := lexicalProblems_eq_nil.1 hlexical
    obtain ⟨ms, ks, rest, hread, rfl⟩ := reads_statement type rfl hrun
    cases hread.rest_eq_nil (by cases type <;> rfl)
    refine ⟨hfault, type, ms, ks, ?_, ?_⟩
    · rw [← significantTokens_eq hfault]
      exact hread
    · rw [State.report, lexicalProblems_of_faultless hfault]
      simp [State.follow, State.ofText, State.initial, partsOf]
  -- A statement that was given up is reported as such.
  · have hkind := hrecovered ⟨.abandoned, message, place⟩ (by simp [entries_report])
    cases hkind

/-- What a parse without problems has read: the whole statement, without repairs, and its parts are
those of the notes. -/
theorem reads_of_clean {t : Text} {p : ParsedStatement} (h : parse t = .ok p)
    (hclean : p.isClean = true) :
    Faultless t ∧ ∃ type ms ks, Reads nestingLimit (statement type) (visibleTokens t) ms ks [] ∧
      Clean ms ∧ p.statement = partsOf t ks := by
  have hnone : p.diagnostics.entries = [] :=
    (counted_of_parse h).count_eq_zero_iff.1 (by simpa [ParsedStatement.isClean] using hclean)
  obtain ⟨hfault, type, ms, ks, hread, rfl⟩ :=
    reads_of_parse h fun d hd => by rw [hnone] at hd; cases hd
  rw [Diagnostics.entries_recordAll, Diagnostics.entries_none, List.nil_append] at hnone
  exact ⟨hfault, type, ms, ks, hread, repairs_eq_nil.1 (List.map_eq_nil_iff.1 hnone), rfl⟩

end GeneratedKeys
