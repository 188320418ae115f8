import GeneratedKeys.Proofs.Reading.Parsed
import GeneratedKeys.Proofs.Reading.Twin
import GeneratedKeys.Proofs.Token.Spaced

/-!
# `GeneratedKeys.Proofs.Statement.Spacing`: how a statement is spaced does not matter

A statement is read token by token. Blanks, comments and pieces that are no tokens are passed
over, and the source text is looked at only where the texts of the parts are cut out of it. So
two statements with the same tokens have the same outcome, whatever stands in between.

* `parse_same`: statements with the same tokens have the same outcome.
* `parse_spaced`: nothing but these tokens counts, and a statement that is put together from the
  tokens of another one has the same tokens and nothing else.
-/

set_option autoImplicit false

namespace GeneratedKeys

/-- Texts with the same tokens that the grammar reads, up to their places. Blanks and comments may
differ. -/
def SameTokens (t u : Text) : Prop :=
  (significantTokens u).map Token.face = (significantTokens t).map Token.face

/-- The same parts, each with the same tokens. The table is written alike, since it is one token. -/
structure Statement.SameTokens (s u : Statement Text) : Prop where
  type_eq : u.type? = s.type?
  table_eq : u.table? = s.table?
  columns : List.Forall₂ GeneratedKeys.SameTokens s.columns u.columns
  values : List.Forall₂ GeneratedKeys.SameTokens s.values u.values
  returning : List.Forall₂ GeneratedKeys.SameTokens s.returning u.returning
  defaults_eq : u.defaultValues = s.defaultValues

/-- What is said of the problems that are not lexical, in order. Their places differ between two
spacings. -/
def ParsedStatement.remarks (p : ParsedStatement) : List (DiagnosticKind × String) :=
  (p.diagnostics.entries.filter fun d => d.kind ≠ .lexical).map Diagnostic.remark

/-- The same error, or the same parts and the same problems apart from lexical ones. Places do
not count. -/
inductive SameOutcome :
    Except ParseError ParsedStatement → Except ParseError ParsedStatement → Prop where
  | error {e e' : ParseError} : e'.unplaced = e.unplaced → SameOutcome (.error e) (.error e')
  | ok {p p' : ParsedStatement} : p.statement.SameTokens p'.statement → p'.remarks = p.remarks →
      SameOutcome (.ok p) (.ok p')

/-- The tokens of a text and its size, which is what reading the text depends on. -/
def Source.ofText (t : Text) : Source :=
  ⟨significantTokens t, Text.size t⟩

/-! ### Parts -/

section

variable {t u : Text} (h : SameTokens t u)
include h

/-- Texts with the same tokens are sources whose tokens agree one by one. -/
theorem SameTokens.forall₂ :
    List.Forall₂ Token.Same (Source.ofText t).tokens (Source.ofText u).tokens := by
  have hfaces : List.Forall₂ (· = ·) ((significantTokens t).map Token.face)
      ((significantTokens u).map Token.face) := by
    rw [List.forall₂_eq_eq_eq]
    exact h.symm
  rw [List.forall₂_map_left_iff, List.forall₂_map_right_iff] at hfaces
  exact hfaces

/-- Parts of as many tokens behind as many others have the same tokens. -/
theorem sameTokens_slice {short : Bool} {s s' : Span}
    (hs : Span.Twin (.ofText t) (.ofText u) short s s') : SameTokens (s.slice t) (s'.slice u) := by
  obtain ⟨p, q, hq, -, rfl, rfl⟩ := hs
  have hlength : q ≤ (significantTokens u).length :=
    Nat.le_trans hq (Nat.le_of_eq h.forall₂.length_eq)
  rw [SameTokens]
  show (significantTokens ((spanBetween (significantTokens u) (Text.size u) p q).slice u)).map
      Token.face
    = (significantTokens ((spanBetween (significantTokens t) (Text.size t) p q).slice t)).map
      Token.face
  rw [faces_slice hlength, faces_slice hq, List.map_drop, List.map_drop, List.map_take,
    List.map_take, h]

/-- Parts of one token at most are written alike, as there is no blank inside of them. -/
theorem slice_eq_of_short {s s' : Span} (hs : Span.Twin (.ofText t) (.ofText u) true s s') :
    s'.slice u = s.slice t := by
  obtain ⟨p, q, hq, hshort, rfl, rfl⟩ := hs
  show (spanBetween (significantTokens u) (Text.size u) p q).slice u
    = (spanBetween (significantTokens t) (Text.size t) p q).slice t
  rcases Nat.lt_or_ge p q with hpq | hpq
  · obtain rfl : q = p + 1 := Nat.le_antisymm (hshort rfl) hpq
    -- The one token has the same text in both.
    have hfaces := congrArg (·[p]?) h
    simp only [List.getElem?_map] at hfaces
    obtain ⟨x, hx⟩ : ∃ x, (significantTokens t)[p]? = some x :=
      ⟨_, List.getElem?_eq_getElem (Nat.lt_of_lt_of_le hpq hq)⟩
    rw [hx, Option.map_some, Option.map_eq_some_iff] at hfaces
    obtain ⟨y, hy, hface⟩ := hfaces
    rw [slice_spanBetween_succ hx, slice_spanBetween_succ hy]
    exact congrArg Prod.snd hface
  · rw [slice_spanBetween_of_le hpq, slice_spanBetween_of_le hpq]

/-- Parts that correspond have the same tokens, and the texts that are sliced for them have them as
well. -/
theorem sameTokens_map {found found' : Statement Span}
    (hfound : found.Twin (.ofText t) (.ofText u) found') :
    (found.map (·.slice t)).SameTokens (found'.map (·.slice u)) := by
  -- Parts of which there may be many correspond one by one.
  have hparts : ∀ {ss ss' : List Span},
      List.Forall₂ (Span.Twin (.ofText t) (.ofText u) false) ss ss' →
        List.Forall₂ SameTokens (ss.map (·.slice t)) (ss'.map (·.slice u)) := by
    intro ss ss' hss
    rw [List.forall₂_map_left_iff, List.forall₂_map_right_iff]
    exact hss.imp fun _ _ hs => sameTokens_slice h hs
  refine ⟨hfound.type_eq, ?_, hparts hfound.columns, hparts hfound.values,
    hparts hfound.returning, hfound.defaults_eq⟩
  -- A table is one token at most, so it is even written alike.
  have htable := hfound.table
  rw [Statement.map, Statement.map]
  revert htable
  generalize found.table? = s?, found'.table? = s?'
  rintro (hs | _)
  · exact congrArg some (slice_eq_of_short h hs)
  · rfl

end

/-! ### Parsing -/

/-- A repair and an error are no lexical problems, so these are recorded before both. -/
theorem kind_ne_lexical (s : State) {last : List Diagnostic}
    (hlast : ∀ d ∈ last, d.kind = .abandoned) {d : Diagnostic}
    (hd : d ∈ s.repairs.map Repair.diagnostic ++ last) : d.kind ≠ .lexical := by
  rcases List.mem_append.1 hd with hd | hd
  · obtain ⟨r, -, rfl⟩ := List.mem_map.1 hd
    cases r <;> simp [Repair.diagnostic]
  · simp [hlast d hd]

/-- The problems that are not lexical are the repairs and the last ones. -/
theorem remarks_report (t : Text) (s : State) {last : List Diagnostic}
    (hlast : ∀ d ∈ last, d.kind = .abandoned) :
    (s.report t last).remarks
      = s.repairs.map (·.diagnostic.remark) ++ last.map Diagnostic.remark := by
  have hlexical :
      (lexicalProblems (tokens t)).entries.filter (fun d => d.kind ≠ .lexical) = [] := by
    rw [List.filter_eq_nil_iff]
    exact fun d hd => by simp [kind_of_mem_lexicalProblems hd]
  have hothers : (s.repairs.map Repair.diagnostic ++ last).filter (fun d => d.kind ≠ .lexical)
      = s.repairs.map Repair.diagnostic ++ last :=
    List.filter_eq_self.2 fun d hd => decide_eq_true (kind_ne_lexical s hlast hd)
  rw [ParsedStatement.remarks, entries_report, List.filter_append, hlexical, hothers,
    List.nil_append, List.map_append, List.map_map]
  rfl

/-- The first tokens announce the same in both, or both announce nothing and fail with the same
error up to its place. -/
theorem announced_same {ts us : List Token} (h : List.Forall₂ Token.Same ts us) :
    announced us = announced ts ∨
      ∃ e e', announced ts = .error e ∧ announced us = .error e' ∧ e'.unplaced = e.unplaced := by
  cases h with
  | nil => exact .inl rfl
  | @cons x y ts us hx hrest =>
      -- The second token is looked at for its kind only.
      have hor : State.passes [Rule.isWord .or] us = State.passes [Rule.isWord .or] ts :=
        passes_of_forall₂ Token.Same.kind_eq hrest
      rw [announced, announced, hx.kind_eq, hor]
      generalize x.kind = kind
      split
      · exact .inl rfl
      · exact .inl rfl
      · exact .inl rfl
      · exact .inr ⟨_, _, rfl, rfl, rfl⟩

section

variable {t u : Text} (h : SameTokens t u)
include h

/-- Statements with the same tokens have the same outcome, up to places: the same error, or the same
parts and the same remarks. -/
theorem parse_same : SameOutcome (parse t) (parse u) := by
  have hstart : Twin (.ofText t) (.ofText u) (State.ofText t) (State.ofText u) :=
    ⟨rfl, rfl, rfl, rfl, rfl, rfl, ⟨rfl, .none, .nil, .nil, .nil, rfl⟩, rfl⟩
  rw [parse, parse]
  rcases announced_same h.forall₂ with hsame | ⟨e, e', he, he', hunplaced⟩
  · rw [show announced (significantTokens u) = announced (significantTokens t) from hsame]
    cases announced (significantTokens t) with
    | error e => exact .error rfl
    | ok type =>
        have hread := read_twin h.forall₂
          (show (Grammar.statement type).shortTable = true by cases type <;> rfl) hstart
        dsimp only
        generalize (Grammar.statement type).read (State.ofText t) = o at hread ⊢
        generalize (Grammar.statement type).read (State.ofText u) = o' at hread ⊢
        cases hread with
        | ok hs =>
            refine .ok (sameTokens_map h hs.found) ?_
            rw [remarks_report u _ (by simp), remarks_report t _ (by simp), hs.repairs_eq]
        | @stop e e' s s' hunplaced hs =>
            -- A malformed statement is reported nevertheless.
            cases e with
            | malformed message place =>
                cases e' <;> cases hunplaced
                rw [Outcome.report, Outcome.report, report_skipToEnd, report_skipToEnd]
                refine .ok (sameTokens_map h hs.found) ?_
                rw [remarks_report u _ (by simp), remarks_report t _ (by simp), hs.repairs_eq]
                rfl
            | _ =>
                cases e' <;> cases hunplaced
                all_goals exact .error rfl
  · rw [show announced (significantTokens t) = .error e from he,
      show announced (significantTokens u) = .error e' from he']
    exact .error hunplaced

end

/-- No problem of a text without faulty tokens is lexical, so all of them come from reading. -/
theorem kind_ne_lexical_of_parse {t : Text} {p : ParsedStatement} (hfault : Faultless t)
    (h : parse t = .ok p) {d : Diagnostic} (hd : d ∈ p.diagnostics.entries) :
    d.kind ≠ .lexical := by
  obtain ⟨type, s, -, ⟨-, rfl⟩ | ⟨message, place, -, rfl⟩⟩ := exists_read_of_parse h
  all_goals
    rw [entries_report, lexicalProblems_eq_nil.2 hfault] at hd
    exact kind_ne_lexical _ (by simp) hd

/-- Parsing depends on the tokens that the grammar reads only. A statement that is put together
from the tokens of another one, with blanks between, has these visible tokens and no faulty one.
It is parsed with the same outcome, and no lexical problem is met. -/
theorem parse_spaced (t : Text) :
    (∀ u : Text, SameTokens t u → SameOutcome (parse t) (parse u)) ∧
    ∀ u : Text, Spaced ((significantTokens t).map Token.text) u →
      (visibleTokens u).map Token.face = (significantTokens t).map Token.face ∧
        (∀ x ∈ tokens u, x.isError = false) ∧
        SameOutcome (parse t) (parse u) ∧
        ∀ p, parse u = .ok p → ∀ d ∈ p.diagnostics.entries, d.kind ≠ .lexical := by
  refine ⟨fun u h => parse_same h, fun u h => ?_⟩
  have hfaces : (visibleTokens u).map Token.face = (significantTokens t).map Token.face :=
    faces_spaced h (fun _ => mem_significantTokens) 0
  -- A fault is seen in the kind, which is that of a token of `t` that the grammar reads.
  have hfault : Faultless u := by
    intro x hx
    obtain ⟨y, hy, hface⟩ := List.mem_map.1 (hfaces ▸ List.mem_map_of_mem hx)
    have hkind : y.kind = x.kind := congrArg Prod.fst hface
    rw [← hkind]
    exact (mem_significantTokens hy).2.2
  have hsame : SameTokens t u := by
    rw [SameTokens, significantTokens_eq hfault]
    exact hfaces
  refine ⟨hfaces, fun x hx => ?_, parse_same hsame,
    fun p hp d => kind_ne_lexical_of_parse hfault hp⟩
  rw [Token.isError, hfault.of_mem hx]
  rfl

/-- The comment and the stray character are gone, and the closing parenthesis is missed as
before. -/
theorem parse_spaced_comment :
    ∃ p, parse "INSERT INTO T VALUES ( 1\n+ x".toList = .ok p ∧
      p.statement.type? = some .insert ∧ p.statement.table? = some ['T'] ∧
      List.Forall₂ SameTokens ["1+x".toList] p.statement.values ∧
      p.remarks = [(.recovered, "Missing ')' at end of input")] := by
  have hparse : parse "INSERT/* c */INTO T # VALUES (1+x".toList
      = .ok ⟨⟨some .insert, some ['T'], [], ["1+x".toList], [], false⟩,
        ⟨[⟨.lexical, "unexpected character '#'", ⟨20, 21⟩⟩,
          ⟨.recovered, "Missing ')' at end of input", ⟨33, 33⟩⟩], 2⟩⟩ := by rfl
  have hspaced : Spaced
      ((significantTokens "INSERT/* c */INTO T # VALUES (1+x".toList).map Token.text)
      "INSERT INTO T VALUES ( 1\n+ x".toList := by
    have htexts : (significantTokens "INSERT/* c */INTO T # VALUES (1+x".toList).map Token.text
        = ["INSERT".toList, "INTO".toList, ['T'], "VALUES".toList, ['('], ['1'], ['+'], ['x']] := by
      decide +kernel
    rw [htexts]
    -- A piece in front of others, with one character between that is a blank.
    have one : ∀ (d : Char) {x y t : Text} {xs : List Text}, Scan.isSpace d = true →
        Spaced (y :: xs) t → Spaced (x :: y :: xs) (x ++ ([d] ++ t)) := by
      intro d x y t xs hd hrest
      refine .cons (List.cons_ne_nil d []) (fun c hc => ?_) hrest
      rw [List.mem_singleton.1 hc, hd]
    exact one ' ' rfl <| one ' ' rfl <| one ' ' rfl <| one ' ' rfl <| one ' ' rfl <|
      one '\n' rfl <| one ' ' rfl <| .single ['x']
  obtain ⟨-, -, hsame, -⟩ := (parse_spaced _).2 _ hspaced
  rw [hparse] at hsame
  generalize parse "INSERT INTO T VALUES ( 1\n+ x".toList = o at hsame ⊢
  cases hsame with
  | ok hstatement hremarks =>
      exact ⟨_, rfl, hstatement.type_eq, hstatement.table_eq, hstatement.values, hremarks⟩

end GeneratedKeys
