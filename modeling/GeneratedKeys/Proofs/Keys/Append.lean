import GeneratedKeys.Proofs.Keys.Answer
import GeneratedKeys.Proofs.Keys.Stripped
import GeneratedKeys.Proofs.Reading.Parsed

/-!
# `GeneratedKeys.Proofs.Keys.Append`: where the clause lands

A request is answered with the statement as it is or with a RETURNING clause behind it. The
clause is meant to follow the statement without its semicolon. It does, unless a comment
stands behind the semicolon: the semicolon is looked for at the end of the text, so it is
not found there and stays in front of the clause.

* `visibleTokens_withReturning`: the tokens of a statement with a clause.
* `returning_behind_statement`: the tokens in front of the clause are those of the statement
  without its semicolon exactly if no comment hides the semicolon.
* `semicolon_before_returning`: a statement whose semicolon stays.
-/

set_option autoImplicit false

namespace GeneratedKeys

open Scan

/-! ### Understood statements -/

/-- A statement that was understood was read without a problem. What the builder knows of it is what
the report says. -/
theorem parse_of_understood {sql : Text} {s : Statement Text} (h : understood? sql = some s) :
    ∃ p, parse sql = .ok p ∧ p.isClean = true ∧ p.statement = s ∧ s.type?.isSome = true := by
  rw [understood?] at h
  split at h
  · next p hp =>
    split at h
    · next hclean =>
      cases h
      exact ⟨p, hp, hclean.1, rfl, hclean.2⟩
    · cases h
  · cases h

/-- A statement of a supported type was understood: it is read without problems, and its type is
known. -/
theorem parse_of_isSupported {sql : Text} {types : QueryTypes}
    (h : (Builder.ofStatement sql types).isSupported = true) :
    ∃ p, parse sql = .ok p ∧ p.isClean = true ∧ p.statement.type?.isSome = true := by
  cases hs : understood? sql with
  | none => simp [Builder.isSupported, Builder.ofStatement, hs] at h
  | some s =>
      obtain ⟨p, hp, hclean, rfl, htype⟩ := parse_of_understood hs
      exact ⟨p, hp, hclean, htype⟩

/-- A statement of some type that was read without a problem is understood. -/
theorem understood?_of_parse {sql : Text} {p : ParsedStatement} (hp : parse sql = .ok p)
    (hclean : p.isClean = true) (htype : p.statement.type?.isSome = true) :
    understood? sql = some p.statement := by
  rw [understood?, hp]
  exact if_pos ⟨hclean, htype⟩

/-! ### The clause -/

/-- The word that begins an appended clause, at the place where the clause was put. -/
def returningToken (start : Nat) : Token :=
  ⟨.keyword .returning, "RETURNING".toList, start⟩

/-- The word RETURNING is one token when a blank stands behind it, whatever follows. -/
theorem scan_returning (b : Text) :
    scan 'R' ("ETURNING".toList ++ ' ' :: b) = ⟨.keyword .returning, 8⟩ := by
  -- The blank behind the word does not change where it ends.
  have hword : scan 'R' "ETURNING".toList = ⟨.keyword .returning, 8⟩ := by decide +kernel
  rw [scan_seal rfl b, hword]
  · rw [hword]
    rfl
  · exact fun _ => ⟨rfl, fun hdash => by cases hdash⟩

/-- An appended clause begins with its word. The blank behind it keeps it apart from the first item.
-/
theorem visibleFrom_returning (k : Nat) (b : Text) :
    visibleFrom k ("RETURNING ".toList ++ b) = returningToken k :: visibleFrom (k + 10) b := by
  have hword : visibleFrom k ("RETURNING ".toList ++ b)
      = returningToken k :: visibleFrom (k + 9) (' ' :: b) :=
    visibleFrom_token (t := "ETURNING".toList) (scan_returning b) rfl
  rw [hword]
  exact congrArg _ (visibleFrom_space rfl)

/-- A statement with a clause is the stripped statement, a line break, the word and the items. -/
theorem withReturning_eq (sql : Text) (items : List Text) :
    withReturning sql items
      = strippedText sql ++ '\n' :: ("RETURNING ".toList ++ [','].intercalate items) := by
  simp [withReturning, strippedText]

/-- The statement with a clause has the tokens of the stripped statement and those of the clause.
The line end between them keeps the last one of the statement from growing. -/
theorem visibleTokens_withReturning {sql : Text} (hfault : Faultless sql) (items : List Text) :
    visibleTokens (withReturning sql items)
      = strippedTokens sql ++ returningToken (Text.size (strippedText sql) + 1)
        :: visibleFrom (Text.size (strippedText sql) + 11) ([','].intercalate items) := by
  rw [withReturning_eq, (keeps_strippedText hfault).visible_eq, visibleFrom_returning]

/-! ### The tokens in front of the clause -/

/-- Whether the last visible token of a statement is a semicolon. Blanks and comments may stand
behind it. -/
def isTerminated (sql : Text) : Bool :=
  (visibleTokens sql).getLast?.any (·.kind = .semicolon)

/-- The visible tokens of a statement without the semicolon at its end, behind which a clause
belongs. -/
def statementTokens (sql : Text) : List Token :=
  if isTerminated sql then (visibleTokens sql).dropLast else visibleTokens sql

/-- Whether a comment stands behind the semicolon at the end of a statement. The semicolon is then
not at the end of the text, and is not found there. -/
def hidesSemicolon (sql : Text) : Bool :=
  isTerminated sql && (lastUnspaced? (tokens sql)).any (·.kind = .comment)

/-- Of the tokens that are no blanks only a comment is not visible. -/
theorem isVisible_of_unspaced {x : Token} (hspace : x.kind ≠ .whitespace)
    (hcomment : x.kind ≠ .comment) : x.isVisible = true := by
  obtain ⟨kind, text, start⟩ := x
  cases kind with
  | whitespace => exact absurd rfl hspace
  | comment => exact absurd rfl hcomment
  | _ => rfl

/-- The last visible token, if no comment is behind it. Only runs of blanks may follow. -/
theorem getLast?_visibleTokens {sql : Text} {us ws : List Token} {x : Token}
    (h : tokens sql = us ++ x :: ws) (hws : ∀ y ∈ ws, y.kind = .whitespace)
    (hx : x.isVisible = true) : (visibleTokens sql).getLast? = some x := by
  rw [visibleTokens, visibleFrom, show tokensFrom 0 sql = us ++ x :: ws from h,
    List.filter_append, List.filter_cons_of_pos hx, filter_isVisible_of_whitespace hws,
    List.getLast?_concat]

/-- Stripping a text takes the semicolon away unless a comment hides it. -/
theorem strippedTokens_eq (sql : Text) :
    strippedTokens sql = if hidesSemicolon sql then visibleTokens sql else statementTokens sql := by
  rcases exists_lastUnspaced (tokens sql) with hall | ⟨us, x, ws, hsplit, hx, hws⟩
  · have hnil : visibleTokens sql = [] := filter_isVisible_of_whitespace hall
    simp [strippedTokens, hidesSemicolon, statementTokens, isTerminated, hnil]
  · have hlast : lastUnspaced? (tokens sql) = some x := by
      rw [hsplit, lastUnspaced?_append hx hws]
    -- The last token that is no blank decides: in front of a comment the end is not looked at.
    by_cases hcomment : x.kind = .comment
    · have hkept : strippedTokens sql = visibleTokens sql := by
        simp [strippedTokens, hlast, hcomment]
      rw [hkept, statementTokens, hidesSemicolon, hlast]
      cases isTerminated sql <;> simp [hcomment]
    · have hvisible := getLast?_visibleTokens hsplit hws (isVisible_of_unspaced hx hcomment)
      simp [strippedTokens, hidesSemicolon, statementTokens, isTerminated, hlast, hvisible,
        hcomment]

/-- A statement that is terminated has a visible token, and leaving out its semicolon leaves one
less. -/
theorem length_statementTokens_lt {sql : Text} (h : isTerminated sql = true) :
    (statementTokens sql).length < (visibleTokens sql).length := by
  rw [statementTokens, if_pos h, List.length_dropLast]
  cases hv : visibleTokens sql with
  | nil => simp [isTerminated, hv] at h
  | cons x xs => simp

/-- The clause follows the statement without its semicolon exactly if no comment stands
behind the semicolon. The tokens in front of the clause are those of the statement without
its semicolon then; otherwise they are all of them, and the semicolon is the last one. -/
theorem returning_behind_statement {sql : Text} {types : QueryTypes} {m : Metadata}
    {r : Request} {q : Query} (h : (Builder.ofStatement sql types).answer m r = .ok q)
    (hne : q.sql ≠ sql) :
    ∃ head rest,
      visibleTokens q.sql
        = head ++ returningToken (Text.size (strippedText sql) + 1) :: rest ∧
      (head.map Token.face = (statementTokens sql).map Token.face ↔
        hidesSemicolon sql = false) ∧
      (hidesSemicolon sql = false → head = statementTokens sql) ∧
      (hidesSemicolon sql = true → head = visibleTokens sql ∧ isTerminated sql = true) := by
  obtain ⟨hsupported, -, items, rfl⟩ := Builder.appended_of_ne h hne
  obtain ⟨p, hp, hclean, -⟩ := parse_of_isSupported hsupported
  have htokens := visibleTokens_withReturning (reads_of_clean hp hclean).1 items
  refine ⟨strippedTokens sql, _, htokens, ?_, ?_, ?_⟩
  · rw [strippedTokens_eq]
    constructor
    · intro hsame
      rw [← Bool.not_eq_true]
      -- A semicolon that stays is one token more than the statement has.
      intro hhides
      rw [if_pos hhides] at hsame
      have hterminated : isTerminated sql = true := by
        rw [hidesSemicolon, Bool.and_eq_true] at hhides
        exact hhides.1
      have hlen := congrArg List.length hsame
      rw [List.length_map, List.length_map] at hlen
      exact absurd hlen (Nat.ne_of_gt (length_statementTokens_lt hterminated))
    · intro hhides
      rw [hhides]
      rfl
  · intro hhides
    rw [strippedTokens_eq, hhides]
    rfl
  · intro hhides
    refine ⟨by rw [strippedTokens_eq, hhides]; rfl, ?_⟩
    rw [hidesSemicolon, Bool.and_eq_true] at hhides
    exact hhides.1

/-- A connection to a server of version 3, where names are quoted and the star is not known, and
which knows no table. -/
def dialectThree : Metadata := .ofConnection ⟨3, 0⟩ 3

/-- A semicolon with a blank behind it is left out in front of the clause, since blanks are trimmed
before it is looked for. -/
theorem returning_behind_delete :
    ∃ head rest,
      visibleTokens "DELETE FROM T\nRETURNING ID".toList = head ++ returningToken 14 :: rest ∧
      head = statementTokens "DELETE FROM T; ".toList := by
  have hanswer : (Builder.ofStatement "DELETE FROM T; ".toList .full).answer dialectThree
      (.names ["ID".toList]) = .ok ⟨true, "DELETE FROM T\nRETURNING ID".toList⟩ := by rfl
  obtain ⟨head, rest, htokens, -, hkept, -⟩ :=
    returning_behind_statement hanswer (by decide)
  exact ⟨head, rest, htokens, hkept (by decide +kernel)⟩

/-- A semicolon in front of a comment stays in front of the clause, so the tokens there are
not those of the statement without it. -/
theorem semicolon_before_returning :
    (Builder.ofStatement "DELETE FROM T; -- c".toList .full).answer dialectThree
        (.names ["ID".toList])
      = .ok ⟨true, "DELETE FROM T; -- c\nRETURNING ID".toList⟩ ∧
    ∀ (head rest : List Token) (start : Nat),
      visibleTokens "DELETE FROM T; -- c\nRETURNING ID".toList
          = head ++ returningToken start :: rest →
        head.map Token.face ≠ (statementTokens "DELETE FROM T; -- c".toList).map Token.face := by
  refine ⟨rfl, fun head rest start htokens hsame => ?_⟩
  -- The kinds are enough: behind a head of three tokens the clause would begin too early.
  have hkinds := congrArg (List.map Token.kind) htokens
  have hfirst := congrArg (List.map Prod.fst) hsame
  rw [List.map_map, List.map_map, show Prod.fst ∘ Token.face = Token.kind from rfl] at hfirst
  have hstatement : (statementTokens "DELETE FROM T; -- c".toList).map Token.kind
      = [.keyword .delete, .keyword .from, .identifier ['T']] := by decide +kernel
  have hquery : (visibleTokens "DELETE FROM T; -- c\nRETURNING ID".toList).map Token.kind
      = [.keyword .delete, .keyword .from, .identifier ['T'], .semicolon, .keyword .returning,
          .identifier ['I', 'D']] := by decide +kernel
  rw [hquery, List.map_append, hfirst, hstatement] at hkinds
  simp [returningToken] at hkinds

end GeneratedKeys
