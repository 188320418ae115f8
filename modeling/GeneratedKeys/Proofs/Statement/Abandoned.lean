import GeneratedKeys.Proofs.Reading.Horizon
import GeneratedKeys.Proofs.Reading.Twin
import GeneratedKeys.Proofs.Statement.Located
import GeneratedKeys.Proofs.Statement.Problems

/-!
# `GeneratedKeys.Proofs.Statement.Abandoned`: what an error depends on

A statement that cannot be read to its end is given up at a token. What stands behind the token
after that one has not been looked at by then. So another text with the same tokens up to there is
given up at the same place, for the same reason, after the same repairs, and with the same parts.

The parts are cut out of the texts, though, and what is between two tokens of a part is cut out with
them. So the parts are the same only up to their blanks and comments.

* `Leads.repairs_congr`: only at the end of a text its size plays a part in the repairs.
* `parse_of_sameAhead`: texts whose tokens agree up to the token behind the error.
* `abandoned_alike`: the same in terms of what the two parses report.
-/

set_option autoImplicit false

namespace GeneratedKeys

open Grammar Move

/-! ### Tokens up to the end -/

/-- All tokens of a text, that of its end included, without the hidden and the faulty ones. -/
def endedTokens (t : Text) : List Token :=
  (Lexer.ofText t).restAll.1.filter fun x => !x.isHidden && !x.isError

/-- They are the tokens that the grammar reads, and that of the end behind them. -/
theorem endedTokens_eq (t : Text) :
    endedTokens t = significantTokens t ++ [Token.atEnd (Text.size t)] := by
  rw [endedTokens, Lexer.restAll_ofText, allTokens, List.filter_append, significantTokens]
  congr 1
  refine List.filter_congr fun x hx => ?_
  rw [Token.isSignificant, isEof_of_mem hx, Bool.not_false, Bool.and_true]

/-- Without the token of the end the first tokens are those of the text. -/
theorem filter_take_endedTokens (t : Text) (k : Nat) :
    ((endedTokens t).take k).filter (fun x => !x.isEof) = (significantTokens t).take k := by
  have hend : ∀ j, ([Token.atEnd (Text.size t)].take j).filter (fun x => !x.isEof) = [] := by
    intro j
    rw [List.filter_eq_nil_iff]
    intro x hx
    rw [List.mem_singleton.1 (List.mem_of_mem_take hx)]
    exact Bool.false_ne_true
  rw [endedTokens_eq, List.take_append, List.filter_append, hend, List.append_nil,
    List.filter_eq_self]
  intro x hx
  rw [isEof_of_significant (List.mem_of_mem_take hx)]
  rfl

/-- Behind the first tokens comes the next one, or the end, so a place reached is an index into the
list. -/
theorem getElem?_endedTokens {t : Text} {w rest : List Token}
    (h : significantTokens t = w ++ rest) :
    (endedTokens t)[w.length]? = some (nextToken (Text.size t) rest) := by
  rw [endedTokens_eq, h, List.append_assoc, List.getElem?_append_right (Nat.le_refl _),
    Nat.sub_self]
  cases rest <;> rfl

/-- No two tokens of a text have the same place, so the place of an error tells at which token it
was met. -/
theorem endedTokens_inj {t : Text} {i j : Nat} {s : Span}
    (hi : (endedTokens t)[i]?.map Token.span = some s)
    (hj : (endedTokens t)[j]?.map Token.span = some s) : i = j := by
  rw [endedTokens_eq] at hi hj
  -- The token of the end alone has no text, and it is behind all others.
  have hordered : (significantTokens t ++ [Token.atEnd (Text.size t)]).Pairwise
      fun x y => x.start < y.start := by
    obtain ⟨htokens, -, hend⟩ := List.pairwise_append.1 (inOrder_significantTokens t)
    have hpos : ∀ x ∈ significantTokens t, x.start < x.stop := fun x hx =>
      Nat.lt_add_of_pos_right (Text.size_pos (text_ne_nil (List.mem_filter.1 hx).1))
    refine List.pairwise_append.2 ⟨?_, List.pairwise_singleton .., fun x hx y hy =>
      Nat.lt_of_lt_of_le (hpos x hx) (hend x hx y hy)⟩
    exact htokens.imp_of_mem fun hx _ hle => Nat.lt_of_lt_of_le (hpos _ hx) hle
  have hlt : ∀ {i j : Nat},
      (significantTokens t ++ [Token.atEnd (Text.size t)])[i]?.map Token.span = some s →
        (significantTokens t ++ [Token.atEnd (Text.size t)])[j]?.map Token.span = some s →
          ¬ i < j := by
    intro i j hi hj hij
    obtain ⟨x, hx, hxs⟩ := Option.map_eq_some_iff.1 hi
    obtain ⟨y, hy, hys⟩ := Option.map_eq_some_iff.1 hj
    obtain ⟨hilen, rfl⟩ := List.getElem?_eq_some_iff.1 hx
    obtain ⟨hjlen, rfl⟩ := List.getElem?_eq_some_iff.1 hy
    have hstart := List.pairwise_iff_getElem.1 hordered i j hilen hjlen hij
    exact Nat.ne_of_lt hstart (congrArg Span.start (hxs.trans hys.symm))
  exact Nat.le_antisymm (Nat.le_of_not_lt (hlt hj hi)) (Nat.le_of_not_lt (hlt hi hj))

/-- Two texts whose tokens agree up to the second one behind `w`. -/
theorem exists_rest_of_take_eq {t u : Text} {w rest : List Token}
    (hsplit : significantTokens t = w ++ rest)
    (h : (endedTokens u).take (w.length + 2) = (endedTokens t).take (w.length + 2)) :
    ∃ rest', significantTokens u = w ++ rest' ∧ SameAhead rest rest' ∧
      nextToken (Text.size u) rest' = nextToken (Text.size t) rest ∧
      (rest = [] → Text.size u = Text.size t) := by
  -- The token of the end is taken out first, so that both sides are tokens that the grammar reads.
  have htake : (significantTokens u).take (w.length + 2) = w ++ rest.take 2 := by
    rw [← filter_take_endedTokens, h, filter_take_endedTokens, hsplit, List.take_length_add_append]
  -- The first tokens of the other text are those in front of the error.
  have hfront : (significantTokens u).take w.length = w := by
    have hshort := congrArg (List.take w.length) htake
    rwa [List.take_take, Nat.min_eq_left (Nat.le_add_right ..), List.take_left] at hshort
  have hsplit' : significantTokens u = w ++ (significantTokens u).drop w.length := by
    conv => lhs; rw [← List.take_append_drop w.length (significantTokens u), hfront]
  have hahead : SameAhead rest ((significantTokens u).drop w.length) := by
    have hbehind := congrArg (List.drop w.length) htake
    rwa [List.drop_take, List.drop_left, Nat.add_sub_cancel_left] at hbehind
  -- The one behind them is the same as well, and it may be the end.
  have hnext : nextToken (Text.size u) ((significantTokens u).drop w.length)
      = nextToken (Text.size t) rest := by
    refine Option.some.inj ?_
    rw [← getElem?_endedTokens hsplit', ← getElem?_endedTokens hsplit,
      ← List.getElem?_take_of_lt (Nat.lt_add_of_pos_right Nat.two_pos), h,
      List.getElem?_take_of_lt (Nat.lt_add_of_pos_right Nat.two_pos)]
  refine ⟨_, hsplit', hahead, hnext, ?_⟩
  rintro rfl
  rw [hahead.eq_nil] at hnext
  exact congrArg Token.start hnext

/-! ### The same reading -/

/-- The type is announced by the first two tokens, so what follows them has no influence on it. -/
theorem announced_congr {ts ts' : List Token} (h : SameAhead ts ts') :
    announced ts' = announced ts := by
  cases ts with
  | nil => rw [h.eq_nil]
  | cons t ts =>
      obtain ⟨us', rfl, hus⟩ := h.exists_cons
      have hor : State.passes [Rule.isWord .or] us' = State.passes [Rule.isWord .or] ts :=
        isA_congr hus
      rw [announced, announced, hor]

/-- Only at the end of a text its size plays a part in the repairs, as that is where a token is
supplied. -/
theorem Leads.repairs_congr {size size' : Nat} {ts rest : List Token} {ms : List Move}
    (h : Leads ts ms rest) (hsize : rest = [] → size' = size) :
    repairs size' ms = repairs size ms := by
  induction h with
  | nil => rfl
  | pass _ ih => exact ih hsize
  | drop _ ih => exact congrArg (List.cons _) (ih hsize)
  | supply hleads ih =>
      obtain ⟨-, rfl⟩ := List.append_eq_nil_iff.1 hleads.consumed_append
      rw [repairs_supply, repairs_supply, ih hsize, hsize rfl]

/-- An error is made of the next token and nothing else of the place. -/
theorem Reason.error_congr {s s' : State} (h : s'.next = s.next) (reason : Reason) :
    reason.error s' = reason.error s := by
  cases reason with
  | wanted what => rw [error, error, State.unexpected, State.unexpected, h]
  | tooDeep => rw [error, error, h]

/-- Two texts whose tokens agree up to the one behind the error are given up alike: by the same
moves, with the same notes, for the same reason. -/
theorem parse_of_sameAhead {t u : Text} {type : StatementType} {ms : List Move} {ks : List Note}
    {rest rest' : List Token} {reason : Reason} {message : String} {place : Span}
    (htype : announced (significantTokens t) = .ok type)
    (h : Stalls nestingLimit (statement type) (significantTokens t) ms ks rest reason)
    (hreason : .malformed message place
      = reason.error ((State.ofText t).follow ms ks rest))
    (hsplit : significantTokens u = consumed ms ++ rest') (hahead : SameAhead rest rest')
    (hnext : nextToken (Text.size u) rest' = nextToken (Text.size t) rest)
    (hsize : rest = [] → Text.size u = Text.size t) :
    Stalls nestingLimit (statement type) (significantTokens u) ms ks rest' reason ∧
      parse u = .ok ⟨partsOf u ks, (lexicalProblems (tokens u)).recordAll
        ((repairs (Text.size t) ms).map Repair.diagnostic ++ [⟨.abandoned, message, place⟩])⟩ := by
  -- The rule stalls in the other text, as it looks no further than the tokens that agree.
  have hstalls := h.horizon (fun _ power => near_value power) (near_statement type) hahead
  rw [← hsplit] at hstalls
  -- The first two tokens agree too, so the same rule is chosen.
  have hbegin : SameAhead (significantTokens t) (significantTokens u) := by
    rw [hsplit, ← h.leads.consumed_append]
    exact hahead.append _
  have hrun := run_of_stalls hstalls (steady_statement type) (State.ofText u) rfl rfl
  have herror : reason.error ((State.ofText u).follow ms ks rest') = .malformed message place := by
    have hplace : ((State.ofText u).follow ms ks rest').next
        = ((State.ofText t).follow ms ks rest).next := hnext
    rw [hreason, reason.error_congr hplace]
  refine ⟨hstalls, ?_⟩
  rw [parse, announced_congr hbegin, htype]
  show ((statement type).run (readValue nestingLimit) (State.ofText u)).report u = _
  rw [hrun, herror, Outcome.report, report_skipToEnd, ← h.leads.repairs_congr hsize]
  rfl

/-! ### The same parts -/

/-- The parts of two texts lie at the same places, and there both texts have the same tokens. -/
structure Statement.Common (t u : Text) (places : Statement Span) : Prop where
  located : ∀ part : Part, ∀ s ∈ places.listed part, s.Located t ∧ s.Located u
  /-- Places count, so what is between the tokens is as long in both. -/
  tokens_eq : ∀ part : Part, ∀ s ∈ places.listed part,
    significantTokens (s.slice u) = significantTokens (s.slice t)
  /-- A part of one token has nothing between its tokens. -/
  slice_eq : ∀ part : Part, ∀ s ∈ places.listed part,
    (significantTokens (s.slice t)).length = 1 → s.slice u = s.slice t
  table_eq : places.table?.map (·.slice u) = places.table?.map (·.slice t)

/-- Tokens that are moved alike were alike, so a move by a fixed distance can be undone. -/
theorem shift_injective (n : Nat) : Function.Injective (Token.shift n) := by
  intro x y h
  have hstart := Nat.add_right_cancel (congrArg Token.start h)
  cases x
  cases y
  simp_all [Token.shift]

/-- Cut out of the text, what a stretch of tokens covers has these tokens. -/
theorem map_shift_significantTokens {t : Text} {run : List Move} (hne : consumed run ≠ [])
    (h : consumed run <:+: significantTokens t) :
    (significantTokens ((range run).slice t)).map (Token.shift (range run).start)
      = consumed run := by
  obtain ⟨a, b, r, bs, rfl, hrange, -, hbound, hbs, -⟩ := exists_boundary_of_infix hne h
  rw [hrange, Span.slice_append, ← hbs, ← hbound.tokensFrom_eq, tokensFrom_eq_map,
    List.filter_map]
  rfl

/-- What one token covers is its text, so a part of one token does not depend on blanks around it.
-/
theorem slice_of_singleton {t : Text} {run : List Move} {x : Token} (hx : consumed run = [x])
    (h : consumed run <:+: significantTokens t) : (range run).slice t = x.text := by
  have hmem : x ∈ significantTokens t := h.subset (by rw [hx]; exact List.mem_singleton_self x)
  obtain ⟨hmem, hvisible, -⟩ := mem_significantTokens hmem
  rw [slice_range, hx]
  exact slice_of_mem (List.mem_filter.2 ⟨hmem, hvisible⟩)

section

variable {n : Nat} {r : Rule} {ts rest : List Token} {ms : List Move} {ks : List Note}

/-- A short rule consumes one token at most, as it has no sequence and no repetition in it. -/
theorem Reads.length_le_of_isShort (h : Reads n r ts ms ks rest) (hr : r.isShort = true) :
    (consumed ms).length ≤ 1 := by
  induction h with
  | empty => exact Nat.zero_le 1
  | take => exact Nat.le_refl 1
  | yes _ _ ih =>
      simp only [Rule.isShort, Bool.and_eq_true] at hr
      exact ih hr.1
  | no _ _ ih =>
      simp only [Rule.isShort, Bool.and_eq_true] at hr
      exact ih hr.2
  | _ => cases hr

/-- A table that is kept is one token at most, whatever statement it is from. -/
theorem Reads.length_table_le (h : Reads n r ts ms ks rest) (hr : r.shortTable = true) :
    ∀ {run : List Move}, Note.part .table run ∈ ks → (consumed run).length ≤ 1 := by
  intro run hrun
  induction h with
  | seq _ _ ih₁ ih₂ =>
      simp only [Rule.shortTable, Bool.and_eq_true] at hr
      exact (List.mem_append.1 hrun).elim (ih₁ hr.1) (ih₂ hr.2)
  | again _ _ _ ih₁ ih₂ => exact (List.mem_append.1 hrun).elim (ih₁ hr) (ih₂ hr)
  | yes _ _ ih =>
      simp only [Rule.shortTable, Bool.and_eq_true] at hr
      exact ih hr.1 hrun
  | no _ _ ih =>
      simp only [Rule.shortTable, Bool.and_eq_true] at hr
      exact ih hr.2 hrun
  | foreseen _ _ ih =>
      simp only [Rule.shortTable, Bool.and_eq_true] at hr
      exact ih hr.1.2 hrun
  | unforeseen _ _ ih =>
      simp only [Rule.shortTable, Bool.and_eq_true] at hr
      exact ih hr.2 hrun
  | value _ ih => exact ih rfl hrun
  | record hbody ih =>
      simp only [Rule.shortTable, Bool.and_eq_true, Bool.or_eq_true, bne_iff_ne, ne_eq] at hr
      -- The part was kept inside of the body, or it is the one of this rule.
      rcases List.mem_append.1 hrun with hrun | hrun
      · exact ih hr.2 hrun
      · obtain ⟨rfl, rfl⟩ := Note.part.inj (List.mem_singleton.1 hrun)
        exact hbody.length_le_of_isShort (hr.1.resolve_left fun hne => hne rfl)
  | together _ ih => exact ih hr hrun
  | declare | defaults => cases List.mem_singleton.1 hrun
  | _ => cases hrun

/-- A table that was kept before a rule stalls is one token at most. -/
theorem Stalls.length_table_le {reason : Reason} (h : Stalls n r ts ms ks rest reason)
    (hr : r.shortTable = true) :
    ∀ {run : List Move}, Note.part .table run ∈ ks → (consumed run).length ≤ 1 := by
  intro run hrun
  induction h with
  | first _ ih | yes _ _ ih =>
      simp only [Rule.shortTable, Bool.and_eq_true] at hr
      exact ih hr.1 hrun
  | no _ _ ih | unforeseen _ _ ih | record _ ih =>
      simp only [Rule.shortTable, Bool.and_eq_true] at hr
      exact ih hr.2 hrun
  | foreseen _ _ ih =>
      simp only [Rule.shortTable, Bool.and_eq_true] at hr
      exact ih hr.1.2 hrun
  -- The first rule was read to its end.
  | second hfirst _ ih =>
      simp only [Rule.shortTable, Bool.and_eq_true] at hr
      exact (List.mem_append.1 hrun).elim (hfirst.length_table_le hr.1) (ih hr.2)
  | again _ hbody _ ih => exact (List.mem_append.1 hrun).elim (hbody.length_table_le hr) (ih hr)
  | round _ _ ih => exact ih hr hrun
  | value _ ih => exact ih rfl hrun
  | _ => cases hrun

end

/-- In every statement the table is a single name. It is checked rule by rule, by evaluation. -/
theorem shortTable_statement (type : StatementType) : (statement type).shortTable = true := by
  cases type <;> rfl

/-- Parts that were kept by the same moves in two texts have the same places, if the tokens up to
the stop are the same. -/
theorem common_placesOf {t u : Text} {type : StatementType} {ms : List Move} {ks : List Note}
    {rest rest' : List Token} {reason reason' : Reason}
    (ht : Stalls nestingLimit (statement type) (significantTokens t) ms ks rest reason)
    (hu : Stalls nestingLimit (statement type) (significantTokens u) ms ks rest' reason') :
    (placesOf ks).Common t u := by
  have hlaid := (Retains.stalls ht).laid (flat_statement type)
  have hlaid' := (Retains.stalls hu).laid (flat_statement type)
  -- One token has its text in it, so where one token lies both texts are the same.
  have hone : ∀ {part : Part} {run : List Move}, Note.part part run ∈ ks →
      (consumed run).length = 1 → (range run).slice u = (range run).slice t := by
    intro part run hk hlength
    obtain ⟨x, hx⟩ := List.length_eq_one_iff.1 hlength
    rw [slice_of_singleton hx (hlaid.infix_of_mem hk).2,
      slice_of_singleton hx (hlaid'.infix_of_mem hk).2]
  refine ⟨?located, ?tokens, ?slice, ?table⟩
  case located =>
    intro part s hs
    obtain ⟨run, hk, rfl⟩ := mem_listed_placesOf hs
    obtain ⟨hne, hinfix⟩ := hlaid.infix_of_mem hk
    have htext := located_of_infix hne hinfix
    have hother := located_of_infix hne (hlaid'.infix_of_mem hk).2
    exact ⟨htext, hother⟩
  -- The tokens of a part are those that the moves consumed, and the moves are the same.
  case tokens =>
    intro part s hs
    obtain ⟨run, hk, rfl⟩ := mem_listed_placesOf hs
    obtain ⟨hne, hinfix⟩ := hlaid.infix_of_mem hk
    refine List.map_injective_iff.2 (shift_injective (range run).start) ?_
    rw [map_shift_significantTokens hne hinfix,
      map_shift_significantTokens hne (hlaid'.infix_of_mem hk).2]
  case slice =>
    intro part s hs hlength
    obtain ⟨run, hk, rfl⟩ := mem_listed_placesOf hs
    obtain ⟨hne, hinfix⟩ := hlaid.infix_of_mem hk
    refine hone hk ?_
    rw [← map_shift_significantTokens hne hinfix, List.length_map, hlength]
  -- The table is one token: at most, by its rule, and at least, as no part is empty.
  case table =>
    cases htable : (placesOf ks).table? with
    | none => rfl
    | some s =>
        have hlisted : s ∈ (placesOf ks).listed .table := by
          rw [Statement.listed, htable]
          exact List.mem_singleton_self s
        obtain ⟨run, hk, rfl⟩ := mem_listed_placesOf hlisted
        have hle := ht.length_table_le (shortTable_statement type) hk
        have hpos := List.length_pos_iff.2 (hlaid.infix_of_mem hk).1
        rw [Option.map_some, Option.map_some, hone hk (Nat.le_antisymm hle hpos)]

/-! ### Errors at sight -/

/-- The problems that are not lexical, which are those that reading the tokens has met. -/
def Diagnostics.ofReading (ds : Diagnostics) : List Diagnostic :=
  ds.entries.filter fun d => d.kind ≠ .lexical

/-- What is reported of a text that is given up: the repairs and the error. -/
theorem ofReading_append (ts : List Token) (rs : List Repair) (message : String) (place : Span) :
    ((lexicalProblems ts).recordAll
        (rs.map Repair.diagnostic ++ [⟨.abandoned, message, place⟩])).ofReading
      = rs.map Repair.diagnostic ++ [⟨.abandoned, message, place⟩] := by
  rw [Diagnostics.ofReading, Diagnostics.entries_recordAll]
  refine filter_not_lexical (fun d hd => kind_of_mem_lexicalProblems hd) fun d hd => ?_
  rcases List.mem_append.1 hd with hd | hd
  · obtain ⟨r, -, rfl⟩ := List.mem_map.1 hd
    rw [kind_of_repair]
    exact DiagnosticKind.noConfusion
  · rw [List.mem_singleton.1 hd]
    exact DiagnosticKind.noConfusion

/-- What a parse has read that was given up, and what it reports. -/
theorem stalls_of_abandoned {t : Text} {p : ParsedStatement} {d : Diagnostic} (h : parse t = .ok p)
    (hd : d ∈ p.diagnostics.entries) (hkind : d.kind = .abandoned) :
    ∃ type ms ks rest reason,
      announced (significantTokens t) = .ok type ∧
      Stalls nestingLimit (statement type) (significantTokens t) ms ks rest reason ∧
      .malformed d.message d.span = reason.error ((State.ofText t).follow ms ks rest) ∧
      d.span = (nextToken (Text.size t) rest).span ∧
      p = ⟨partsOf t ks, (lexicalProblems (tokens t)).recordAll
        ((repairs (Text.size t) ms).map Repair.diagnostic ++ [d])⟩ := by
  -- Neither a lexical problem nor a repair is of this kind, so it is the last problem.
  have herror : ∀ {rs : List Repair} {last : List Diagnostic},
      d ∈ ((lexicalProblems (tokens t)).recordAll (rs.map Repair.diagnostic ++ last)).entries →
        d ∈ last := by
    intro rs last hd
    rw [Diagnostics.entries_recordAll] at hd
    rcases List.mem_append.1 hd with hd | hd
    · cases hkind.symm.trans (kind_of_mem_lexicalProblems hd)
    · refine (List.mem_append.1 hd).resolve_left fun hd => ?_
      obtain ⟨r, -, rfl⟩ := List.mem_map.1 hd
      cases hkind.symm.trans (kind_of_repair r)
  obtain ⟨type, s, htype, ⟨-, rfl⟩ | ⟨message, place, hrun, rfl⟩⟩ := exists_read_of_parse h
  -- A statement that was read to its end has no such problem.
  · cases herror hd
  · obtain ⟨ms, ks, rest, reason, hstalls, rfl, hreason⟩ := stalls_statement type rfl hrun
    rw [report_skipToEnd] at hd ⊢
    obtain rfl := List.mem_singleton.1 (herror hd)
    exact ⟨type, ms, ks, rest, reason, htype, hstalls, hreason,
      reason.place_of_malformed hreason, rfl⟩

/-- A statement that is given up at a token is given up so whatever stands behind the next one.
Take another text that has the same tokens up to the one behind that token, or up to the end. It is
given up at the same place and with the same words, after the same repairs. Its parts lie at the
same places and have the same tokens there, so they differ at most in what is between the tokens of
one part; the table does not differ. -/
theorem abandoned_alike {t u : Text} {p : ParsedStatement} {d : Diagnostic} {i : Nat}
    (h : parse t = .ok p) (hd : d ∈ p.diagnostics.entries) (hkind : d.kind = .abandoned)
    (hi : (endedTokens t)[i]?.map Token.span = some d.span)
    (hahead : (endedTokens u).take (i + 2) = (endedTokens t).take (i + 2)) :
    ∃ (p' : ParsedStatement) (places : Statement Span),
      parse u = .ok p' ∧ d ∈ p'.diagnostics.entries ∧
      p'.diagnostics.ofReading = p.diagnostics.ofReading ∧
      p.statement = places.map (·.slice t) ∧ p'.statement = places.map (·.slice u) ∧
      places.Common t u := by
  obtain ⟨type, ms, ks, rest, reason, htype, hstalls, hreason, hplace, rfl⟩ :=
    stalls_of_abandoned h hd hkind
  have hsplit := hstalls.leads.consumed_append.symm
  -- The error is at the token behind those that were consumed.
  obtain rfl : i = (consumed ms).length := by
    refine endedTokens_inj hi ?_
    rw [getElem?_endedTokens hsplit, Option.map_some, hplace]
  obtain ⟨rest', hsplit', hsame, hnext, hsize⟩ := exists_rest_of_take_eq hsplit hahead
  obtain ⟨hstalls', hparse⟩ := parse_of_sameAhead htype hstalls hreason hsplit' hsame hnext hsize
  have hd' : (⟨.abandoned, d.message, d.span⟩ : Diagnostic) = d := by rw [← hkind]
  rw [hd'] at hparse
  refine ⟨_, placesOf ks, hparse, ?_, ?_, rfl, rfl, common_placesOf hstalls hstalls'⟩
  · rw [Diagnostics.entries_recordAll]
    exact List.mem_append_right _ (List.mem_append_right _ (List.mem_singleton_self d))
  · rw [← hd', ofReading_append, ofReading_append]

/-- The texts differ in the blank of a value and behind the token after the plus sign, where both
are given up. The stray name in front of the equals sign is dropped in both. -/
theorem abandoned_alike_array :
    ∃ p p' : ParsedStatement,
      parse "UPDATE T SET A B=CAST(1 AS INT[2]),C+1 WHERE X".toList = .ok p ∧
      parse "UPDATE T SET A B=CAST(1\nAS INT[2]),C+1§".toList = .ok p' ∧
      p.statement.values = ["CAST(1 AS INT[2])".toList] ∧
      p.diagnostics.ofReading.map (fun d => (d.kind, d.span))
        = [(.recovered, ⟨15, 16⟩), (.abandoned, ⟨36, 37⟩)] ∧
      p'.diagnostics.ofReading = p.diagnostics.ofReading ∧
      p'.statement.table? = p.statement.table? := by
  have hparse : parse "UPDATE T SET A B=CAST(1 AS INT[2]),C+1 WHERE X".toList = .ok
      ⟨⟨none, some ['T'], [['A']], ["CAST(1 AS INT[2])".toList], [], false⟩,
        ⟨[⟨.recovered, "Extraneous input identifier B, expected '='", ⟨15, 16⟩⟩,
          ⟨.abandoned, "Unexpected token: expected '=', found '+'", ⟨36, 37⟩⟩], 2⟩⟩ := by
    decide +kernel
  -- The error is at the plus sign, the 18th of the tokens.
  have hplace : (endedTokens "UPDATE T SET A B=CAST(1 AS INT[2]),C+1 WHERE X".toList)[17]?.map
      Token.span = some ⟨36, 37⟩ := by decide +kernel
  -- The two texts have the tokens up to the one behind the plus sign in common.
  have hahead : (endedTokens "UPDATE T SET A B=CAST(1\nAS INT[2]),C+1§".toList).take 19
      = (endedTokens "UPDATE T SET A B=CAST(1 AS INT[2]),C+1 WHERE X".toList).take 19 := by
    decide +kernel
  obtain ⟨p', places, hparse', -, hreading, hplaces, hplaces', hcommon⟩ :=
    abandoned_alike hparse (List.mem_cons_of_mem _ (List.mem_singleton_self _)) rfl hplace hahead
  refine ⟨_, p', hparse, hparse', rfl, rfl, hreading, ?_⟩
  rw [hplaces', hplaces]
  exact hcommon.table_eq

/-- The parts themselves may differ: a blank in a value is kept as it is written. -/
theorem hidden_text_is_kept :
    ¬ ∀ (t u : Text) (p : ParsedStatement) (d : Diagnostic) (i : Nat), parse t = .ok p →
      d ∈ p.diagnostics.entries → d.kind = .abandoned →
      (endedTokens t)[i]?.map Token.span = some d.span →
      (endedTokens u).take (i + 2) = (endedTokens t).take (i + 2) →
        ∃ p', parse u = .ok p' ∧ p'.statement = p.statement ∧
          p'.diagnostics.ofReading = p.diagnostics.ofReading := by
  intro h
  have hparse : parse "INSERT INTO T VALUES (1 + 2) X".toList = .ok
      ⟨⟨some .insert, some ['T'], [], ["1 + 2".toList], [], false⟩,
        ⟨[⟨.abandoned, "Unexpected token: expected end of statement, found identifier X",
          ⟨29, 30⟩⟩], 1⟩⟩ := by decide +kernel
  -- With a tabulator in the place of the blank the value is kept with the tabulator.
  have hparse' : parse "INSERT INTO T VALUES (1\t+ 2) X".toList = .ok
      ⟨⟨some .insert, some ['T'], [], ["1\t+ 2".toList], [], false⟩,
        ⟨[⟨.abandoned, "Unexpected token: expected end of statement, found identifier X",
          ⟨29, 30⟩⟩], 1⟩⟩ := by decide +kernel
  obtain ⟨p', hp', hstatement, -⟩ := h _ "INSERT INTO T VALUES (1\t+ 2) X".toList _ _ 9 hparse
    (List.mem_singleton_self _) rfl (by decide +kernel) (by decide +kernel)
  obtain rfl := Except.ok.inj (hparse'.symm.trans hp')
  exact absurd (congrArg Statement.values hstatement) (by decide)

end GeneratedKeys
