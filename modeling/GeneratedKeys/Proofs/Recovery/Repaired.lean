import GeneratedKeys.Proofs.Reading.Parsed
import GeneratedKeys.Proofs.Recovery.Edit
import GeneratedKeys.Proofs.Recovery.Statement

/-!
# `GeneratedKeys.Proofs.Recovery.Repaired`: recovery is repairing the text

A statement that was parsed with repairs is the statement that its diagnostics describe: a
stray token is a blank, and a parenthesis that is missing at the end stands behind the text.
Parsing the repaired text reports the same parts and no problem.

* `parse_repairedText`: the repaired text is parsed without problems.
* `parse_repairedText_stray`: a stray word and a missing parenthesis.
-/

set_option autoImplicit false

namespace GeneratedKeys

open Grammar Move

/-! ### The repaired text -/

/-- Whether the problem is a stray token, by the wording of its message. -/
def Diagnostic.isExtraneous (d : Diagnostic) : Bool :=
  "Extraneous input ".toList.isPrefixOf d.message.toList

/-- Whether the problem is a token missing at the end, by both ends of its message. What is missing
stands between them. -/
def Diagnostic.isMissing (d : Diagnostic) : Bool :=
  "Missing ".toList.isPrefixOf d.message.toList
    && " at end of input".toList.isSuffixOf d.message.toList

/-- The text with a blank in the place of every stray token, and behind it a line with a
closing parenthesis for every token missing at the end. -/
def repairedText (t : Text) (ds : Diagnostics) : Text :=
  edited ((ds.entries.filter Diagnostic.isExtraneous).map Diagnostic.span)
    (ds.entries.filter Diagnostic.isMissing).length t

/-- A token that was dropped is reported as a stray one, by the words that its message begins with.
-/
theorem isExtraneous_dropped (t : Token) (wanted : TokenKind) :
    (Repair.dropped t wanted).diagnostic.isExtraneous = true := by
  rw [Diagnostic.isExtraneous, List.isPrefixOf_iff_prefix]
  simp only [Repair.diagnostic, String.toList_append, List.append_assoc]
  exact List.prefix_append ..

/-- A token that was dropped is not reported as missing. -/
theorem isMissing_dropped (t : Token) (wanted : TokenKind) :
    (Repair.dropped t wanted).diagnostic.isMissing = false := by
  simp only [Diagnostic.isMissing, Repair.diagnostic, String.toList_append, List.append_assoc]
  rfl

/-- A token that was supplied is not reported as a stray one. -/
theorem isExtraneous_supplied (wanted : TokenKind) (place : Span) :
    (Repair.supplied wanted place).diagnostic.isExtraneous = false := by
  simp only [Diagnostic.isExtraneous, Repair.diagnostic, String.toList_append, List.append_assoc]
  rfl

/-- A token that was supplied is reported as missing. The messages of the two repairs begin
differently, and that is how they are told apart. -/
theorem isMissing_supplied (wanted : TokenKind) (place : Span) :
    (Repair.supplied wanted place).diagnostic.isMissing = true := by
  rw [Diagnostic.isMissing, Bool.and_eq_true, List.isPrefixOf_iff_prefix,
    List.isSuffixOf_iff_suffix]
  simp only [Repair.diagnostic, String.toList_append]
  refine ⟨?_, List.suffix_append ..⟩
  rw [List.append_assoc]
  exact List.prefix_append ..

/-- The stray tokens of the diagnostics are the tokens dropped, at their places and in their order.
-/
theorem extraneous_repairs (size : Nat) (ms : List Move) :
    (((repairs size ms).map Repair.diagnostic).filter Diagnostic.isExtraneous).map
      Diagnostic.span = gaps ms := by
  induction ms with
  | nil => rfl
  | cons m ms ih =>
      cases m with
      | pass t => exact ih
      | drop t wanted =>
          rw [repairs_drop, List.map_cons, List.filter_cons_of_pos (isExtraneous_dropped t wanted),
            List.map_cons, ih]
          rfl
      -- A parenthesis that was supplied leaves no gap.
      | supply =>
          rw [repairs_supply, List.map_cons, List.filter_cons_of_neg (by
            rw [isExtraneous_supplied]
            exact Bool.noConfusion), ih]
          rfl

/-- The missing tokens of the diagnostics are the parentheses supplied, as many as there are. -/
theorem missing_repairs (size : Nat) (ms : List Move) :
    (((repairs size ms).map Repair.diagnostic).filter Diagnostic.isMissing).length
      = ms.count .supply := by
  induction ms with
  | nil => rfl
  | cons m ms ih =>
      cases m with
      | pass t => exact ih
      | drop t wanted =>
          rw [repairs_drop, List.map_cons, List.filter_cons_of_neg (by
            rw [isMissing_dropped]
            exact Bool.noConfusion), ih]
          rfl
      -- Each parenthesis that was supplied is counted once.
      | supply =>
          rw [repairs_supply, List.map_cons, List.filter_cons_of_pos (isMissing_supplied _ _),
            List.length_cons, ih, List.count_cons_self]

/-- The diagnostics of a reading describe its repairs: what is edited by their wording is what was
dropped and supplied. -/
theorem repairedText_repairs (t : Text) (size : Nat) (ms : List Move) :
    repairedText t (Diagnostics.none.recordAll ((repairs size ms).map Repair.diagnostic))
      = edited (gaps ms) (ms.count .supply) t := by
  rw [repairedText, Diagnostics.entries_recordAll, Diagnostics.entries_none, List.nil_append,
    extraneous_repairs, missing_repairs]

/-! ### Supplied parentheses -/

/-- Parentheses are supplied at the end only, so they are behind every token that was
passed. -/
theorem Reads.kept_eq {n : Nat} {r : Rule} {ts rest : List Token} {ms : List Move}
    {ks : List Note} (h : Reads n r ts ms ks rest) :
    kept ms = passed ms ++ List.replicate (ms.count .supply) .closing ∧
      (0 < ms.count .supply → rest = []) := by
  -- Of two stretches the second one is empty if a parenthesis was supplied in the first.
  have joined : ∀ {ms₁ ms₂ : List Move} {mid rest : List Token},
      kept ms₁ = passed ms₁ ++ List.replicate (ms₁.count .supply) .closing ∧
        (0 < ms₁.count .supply → mid = []) →
      kept ms₂ = passed ms₂ ++ List.replicate (ms₂.count .supply) .closing ∧
        (0 < ms₂.count .supply → rest = []) →
      consumed ms₂ ++ rest = mid →
      kept (ms₁ ++ ms₂)
          = passed (ms₁ ++ ms₂) ++ List.replicate ((ms₁ ++ ms₂).count .supply) .closing ∧
        (0 < (ms₁ ++ ms₂).count .supply → rest = []) := by
    rintro ms₁ ms₂ mid rest ⟨hkept₁, hmid⟩ ⟨hkept₂, hrest⟩ hsplit
    rw [kept_append, passed_append, hkept₁, hkept₂, List.count_append, List.replicate_add]
    rcases Nat.eq_zero_or_pos (ms₁.count .supply) with hzero | hpos
    · rw [hzero]
      simpa using hrest
    · -- Nothing is left for the second part.
      have hnone := List.append_eq_nil_iff.1 (hsplit.trans (hmid hpos))
      have hpassed : passed ms₂ = [] := by
        have hsub := passed_sublist ms₂
        rwa [hnone.1, List.sublist_nil] at hsub
      rw [hpassed]
      simp [hnone.2]
  induction h with
  | seq _ h₂ ih₁ ih₂ | again _ _ h₂ ih₁ ih₂ => exact joined ih₁ ih₂ h₂.consumed_append
  | yes _ _ ih | no _ _ ih | foreseen _ _ ih | unforeseen _ _ ih => exact ih
  | value _ ih | record _ ih | together _ ih => exact ih
  | skip =>
      have hnone : ∀ us : List Token, (us.map Move.pass).count .supply = 0 :=
        fun us => List.count_eq_zero.2 (by simp)
      rw [kept_map_pass, passed_map_pass, hnone]
      exact ⟨(List.append_nil _).symm, fun h => absurd h (Nat.lt_irrefl 0)⟩
  | supplied => exact ⟨rfl, fun _ => rfl⟩
  | _ => exact ⟨rfl, fun h => absurd h (Nat.lt_irrefl 0)⟩

/-! ### Parts -/

/-- Both statements have the same type and parts, and as many values. A value may have a repair
inside, so its text need not be the same. -/
structure Statement.Agrees (s s' : Statement Text) : Prop where
  type_eq : s'.type? = s.type?
  table_eq : s'.table? = s.table?
  columns_eq : s'.columns = s.columns
  returning_eq : s'.returning = s.returning
  defaultValues_eq : s'.defaultValues = s.defaultValues
  length_values : s'.values.length = s.values.length

/-- Notes of the same parts, which cover the same text unless they are values. It is what the
tidiness of the grammar gives. -/
inductive Note.SameText (t t' : Text) : Note → Note → Prop where
  | part {p : Part} {ms ms' : List Move} :
      (p ≠ .value → (range ms').slice t' = (range ms).slice t) →
        Note.SameText t t' (.part p ms) (.part p ms')
  | type {type : StatementType} : Note.SameText t t' (.type type) (.type type)
  | defaults : Note.SameText t t' .defaults .defaults

/-- Notes of the same parts keep statements in agreement. The text of a value may differ by its
repairs, so of values only the number is compared. -/
theorem agrees_applyText {t t' : Text} {k k' : Note} (hk : Note.SameText t t' k k')
    {s s' : Statement Text} (h : s.Agrees s') :
    (k.applyText t s).Agrees (k'.applyText t' s') := by
  obtain ⟨htype, htable, hcolumns, hreturning, hdefaults, hvalues⟩ := h
  cases hk with
  | @part p ms ms' hslice =>
      cases p with
      -- One value more in both.
      | value =>
          refine ⟨htype, htable, hcolumns, hreturning, hdefaults, ?_⟩
          simpa [Note.applyText, Statement.record] using hvalues
      -- The later of two tables is the one that is kept, in both.
      | table =>
          refine ⟨htype, ?_, hcolumns, hreturning, hdefaults, hvalues⟩
          exact congrArg some (hslice (by decide))
      | column =>
          refine ⟨htype, htable, ?_, hreturning, hdefaults, hvalues⟩
          simp only [Note.applyText, Statement.record, hcolumns, hslice (by decide)]
      | returning =>
          refine ⟨htype, htable, hcolumns, ?_, hdefaults, hvalues⟩
          simp only [Note.applyText, Statement.record, hreturning, hslice (by decide)]
  | type => exact ⟨rfl, htable, hcolumns, hreturning, hdefaults, hvalues⟩
  | defaults => exact ⟨htype, htable, hcolumns, hreturning, rfl, hvalues⟩

/-- Statements whose notes correspond agree, in everything but the texts of their values. -/
theorem agrees_partsOf {t t' : Text} {ks ks' : List Note}
    (h : List.Forall₂ (Note.SameText t t') ks ks') : (partsOf t ks).Agrees (partsOf t' ks') := by
  suffices hfold : ∀ s s' : Statement Text, s.Agrees s' →
      (ks.foldl (Note.applyText t) s).Agrees (ks'.foldl (Note.applyText t') s') by
    rw [partsOf_eq_foldl, partsOf_eq_foldl]
    exact hfold .unknown .unknown ⟨rfl, rfl, rfl, rfl, rfl, rfl⟩
  induction h with
  | nil => exact fun s s' hs => hs
  | cons hk _ ih => exact fun s s' hs => ih _ _ (agrees_applyText hk hs)

/-! ### Parsing the repaired text -/

/-- A statement that was parsed with repairs is parsed without problems after the repairs
are made in its text, and its parts are the same. -/
theorem parse_repairedText {sql : Text} {p : ParsedStatement} (h : parse sql = .ok p)
    (hrecovered : ∀ d ∈ p.diagnostics.entries, d.kind = .recovered) :
    ∃ p', parse (repairedText sql p.diagnostics) = .ok p' ∧ p'.isClean = true ∧
      p.statement.Agrees p'.statement := by
  obtain ⟨hfault, type, ms, ks, hread, rfl⟩ := reads_of_parse h hrecovered
  have htokens : visibleTokens sql = consumed ms := by
    rw [← hread.consumed_append, List.append_nil]
  rw [repairedText_repairs]
  have hmended := hread.mended
  have hmoved := visibleTokens_edited htokens hfault (ms.count .supply)
  rw [← hread.kept_eq.1] at hmoved
  -- The tokens of the repaired text are those kept, at other places: they are read alike.
  obtain ⟨ms', ks', rest, hread', hms, hks, hrest⟩ :=
    hmended.relabel (fun h => h.1) hmoved
  cases hrest
  obtain ⟨ts', rfl, -⟩ := exists_of_forall₂_map_pass hms
  refine ⟨_, parse_of_reads (faultless_edited htokens hfault _) hread' (clean_map_pass _), rfl, ?_⟩
  refine agrees_partsOf ?_
  rw [List.forall₂_map_left_iff] at hks
  -- Every part is a stretch of the moves, so its text is still there.
  have hparts : ∀ k ∈ ks, ∀ k' : Note, Note.Alike (Moved (squeezeAll (gaps ms))) k.mended k' →
      Note.SameText sql (edited (gaps ms) (ms.count .supply) sql) k k' := by
    intro k hk k' halike
    cases k with
    | part part run =>
        obtain ⟨hrun, hclean⟩ := hread.part_of_mem (statement_tidy type) hk
        cases halike with
        | part hmoves =>
            refine .part fun hpart => ?_
            rw [(hclean hpart).mended_eq_self] at hmoves
            exact slice_edited htokens hfault _ hrun (hclean hpart) hmoves
    | type =>
        cases halike
        exact .type
    | defaults =>
        cases halike
        exact .defaults
  have hmem := (List.forall₂_and_left (p := (· ∈ ks)) ks ks').2 ⟨fun _ hk => hk, hks⟩
  exact hmem.imp fun k k' hk => hparts k hk.1 k' hk.2

/-- A stray name between INSERT and INTO and a closing parenthesis that is missing: with a blank for
the one and the other in a line behind, the text is parsed without problems. -/
theorem parse_repairedText_stray :
    ∃ p, parse "INSERT   INTO T VALUES (1\n)".toList = .ok p ∧ p.isClean = true ∧
      p.statement.type? = some .insert ∧ p.statement.table? = some ['T'] ∧
      p.statement.values.length = 1 := by
  have hparse : parse "INSERT x INTO T VALUES (1".toList = .ok
      ⟨⟨some .insert, some ['T'], [], [['1']], [], false⟩,
        ⟨[⟨.recovered, "Extraneous input identifier x, expected INTO", ⟨7, 8⟩⟩,
          ⟨.recovered, "Missing ')' at end of input", ⟨25, 25⟩⟩], 2⟩⟩ := by rfl
  obtain ⟨p, hp, hclean, hagrees⟩ := parse_repairedText hparse (by simp)
  exact ⟨p, hp, hclean, hagrees.type_eq, hagrees.table_eq, hagrees.length_values⟩

end GeneratedKeys
