import GeneratedKeys.Keys.Request
import Mathlib.Data.List.Forall2

/-!
# `GeneratedKeys.Proofs.Keys.Answer`: the answers to requests

A request is answered with the statement as it is or with a clause of what is requested
behind it. `Builder.Requested` says what is requested.

* `Builder.answer_cases`: which answer is given when.
* `Builder.answer_of_hasReturning`: a statement that returns columns is always the answer.
-/

set_option autoImplicit false

namespace GeneratedKeys

/-- What several steps that all succeed give, one result for each of them and in their order. -/
theorem forall₂_of_mapM {α β ε : Type} {f : α → Except ε β} {as : List α} {bs : List β}
    (h : as.mapM f = .ok bs) : List.Forall₂ (fun a b => f a = .ok b) as bs := by
  induction as generalizing bs with
  | nil =>
      cases h
      exact .nil
  | cons a as ih =>
      rw [List.mapM_cons] at h
      cases hfirst : f a with
      -- The first step fails, so all of them together do.
      | error e =>
          rw [hfirst] at h
          cases h
      | ok b =>
          cases hothers : as.mapM f with
          | error e =>
              rw [hfirst, hothers] at h
              cases h
          | ok bs =>
              rw [hfirst, hothers] at h
              cases h
              exact .cons hfirst (ih hothers)

namespace Builder

/-- The column `c` is the one at position `i`, counted from 1. No column is at a position outside
the list. -/
def IsColumnAt (columns : List Text) (i : Nat) (c : Text) : Prop :=
  0 < i ∧ columns[i - 1]? = some c

/-- Looking up a position gives a column exactly if the column is the one at that position. -/
theorem columnAt_eq_ok {columns : List Text} {table c : Text} {i : Nat} :
    columnAt columns table i = .ok c ↔ IsColumnAt columns i c := by
  cases i with
  -- Positions are counted from 1, so none is 0.
  | zero =>
      constructor
      · intro h
        cases h
      · rintro ⟨hpos, -⟩
        exact absurd hpos (Nat.lt_irrefl 0)
  | succ i =>
      rw [columnAt, IsColumnAt, Nat.add_sub_cancel]
      cases columns[i]? with
      | none =>
          constructor
          · intro h
            cases h
          · rintro ⟨-, h⟩
            cases h
      | some d =>
          constructor
          · intro h
            cases h
            exact ⟨Nat.succ_pos i, rfl⟩
          · rintro ⟨-, h⟩
            cases h
            rfl

/-- A clause of the items asks for what is requested. A request for no keys asks for nothing, so no
clause serves it. -/
def Requested (b : Builder) (m : Metadata) : Request → List Text → Prop
  | .noKeys, _ => False
  | .allColumns, items =>
    items = if m.version.returnsAll then [['*']]
      else (b.tableColumns m).map (QuoteStrategy.ofDialect m.dialect).quote
  | .indexes positions, items =>
    ∃ chosen, List.Forall₂ (IsColumnAt (b.tableColumns m)) positions chosen ∧
      items = chosen.map (QuoteStrategy.ofDialect m.dialect).quote
  | .names columns, items => items = columns

variable {b : Builder} {m : Metadata} {r : Request} {q : Query}

/-- A statement that returns columns is the answer to every request, and its own clause is what the
keys come from. -/
theorem answer_of_hasReturning (h : b.hasReturning = true) (m : Metadata) (r : Request) :
    b.answer m r = .ok (b.unchanged true) := by
  cases r with
  | noKeys => rw [answer, forNoKeys, h]
  | allColumns => rw [answer, forAllColumns, if_pos h]
  | indexes positions => rw [answer, forIndexes, if_pos h]
  | names columns => rw [answer, forNames, if_pos h]

/-- A statement that is of no supported type is the answer to every request that is met. -/
theorem unchanged_of_not_isSupported (hsupported : b.isSupported = false)
    (hreturning : b.hasReturning = false) (h : b.answer m r = .ok q) : q = b.unchanged false := by
  cases r with
  | noKeys =>
      cases h
      rw [forNoKeys, hreturning]
  | allColumns =>
      rw [answer, forAllColumns, hreturning, hsupported] at h
      cases h
      rfl
  -- An empty list is refused before the type is looked at, and refusing gives no answer.
  | indexes positions =>
      rw [answer, forIndexes, hreturning, hsupported] at h
      cases positions <;> cases h
      rfl
  | names columns =>
      rw [answer, forNames, hreturning, hsupported] at h
      cases columns <;> cases h
      rfl

/-- Every request is met for it, unless columns are requested and none is given. -/
theorem answer_of_not_isSupported (hsupported : b.isSupported = false)
    (hreturning : b.hasReturning = false) (hindexes : r ≠ .indexes []) (hnames : r ≠ .names []) :
    b.answer m r = .ok (b.unchanged false) := by
  cases r with
  | noKeys => rw [answer, forNoKeys, hreturning]
  | allColumns =>
      rw [answer, forAllColumns, hreturning, hsupported]
      rfl
  | indexes positions =>
      cases positions with
      | nil => exact absurd rfl hindexes
      -- With a position given the type is looked at first, and it is not supported.
      | cons i positions =>
          rw [answer, forIndexes, hreturning, hsupported]
          rfl
  | names columns =>
      cases columns with
      | nil => exact absurd rfl hnames
      | cons c columns =>
          rw [answer, forNames, hreturning, hsupported]
          rfl

/-- A statement of a supported type that returns no columns is given a clause. -/
theorem returning_of_isSupported (hsupported : b.isSupported = true)
    (hreturning : b.hasReturning = false) (h : b.answer m r = .ok q) (hr : r ≠ .noKeys) :
    ∃ items, b.Requested m r items ∧ items ≠ [] ∧ q = b.returning items := by
  cases r with
  | noKeys => exact absurd rfl hr
  | allColumns =>
      rw [answer, forAllColumns, hreturning, hsupported] at h
      by_cases hall : m.version.returnsAll = true
      · rw [if_pos hall] at h
        cases h
        exact ⟨[['*']], (if_pos hall).symm, List.cons_ne_nil _ _, rfl⟩
      · rw [if_neg hall] at h
        cases hcolumns : b.tableColumns m with
        | nil =>
            rw [hcolumns] at h
            cases h
        | cons c cs =>
            rw [hcolumns] at h
            cases h
            refine ⟨_, ?_, List.cons_ne_nil _ _, rfl⟩
            rw [Requested, if_neg hall, hcolumns]
            rfl
  | indexes positions =>
      rw [answer, forIndexes, hreturning, hsupported] at h
      cases positions with
      | nil => cases h
      | cons i positions =>
          cases hcolumns : b.tableColumns m with
          | nil =>
              rw [hcolumns] at h
              cases h
          | cons c cs =>
              rw [hcolumns] at h
              -- The request fails if one of the positions does.
              replace h : (do
                  let chosen ← (i :: positions).mapM (columnAt (c :: cs) b.table)
                  return b.returning (chosen.map (QuoteStrategy.ofDialect m.dialect).quote))
                = Except.ok q := h
              cases hchosen : (i :: positions).mapM (columnAt (c :: cs) b.table) with
              | error e =>
                  rw [hchosen] at h
                  cases h
              | ok chosen =>
                  rw [hchosen] at h
                  cases h
                  have hat := (forall₂_of_mapM hchosen).imp fun i c => columnAt_eq_ok.1
                  rw [← hcolumns] at hat
                  refine ⟨_, ⟨chosen, hat, rfl⟩, ?_, rfl⟩
                  cases hat
                  exact List.cons_ne_nil _ _
  | names columns =>
      rw [answer, forNames, hreturning, hsupported] at h
      cases columns with
      | nil => cases h
      | cons c cs =>
          cases h
          exact ⟨c :: cs, rfl, List.cons_ne_nil _ _, rfl⟩

/-- A request is answered with the statement and a clause behind it if the statement is of a
supported type and returns no columns, and with the statement otherwise. -/
theorem answer_cases (h : b.answer m r = .ok q) :
    q = b.unchanged b.hasReturning ∨
      (b.isSupported = true ∧ b.hasReturning = false ∧
        ∃ items, b.Requested m r items ∧ items ≠ [] ∧ q = b.returning items) := by
  cases hreturning : b.hasReturning with
  | true =>
      rw [answer_of_hasReturning hreturning] at h
      exact .inl (Except.ok.inj h).symm
  | false =>
      cases hsupported : b.isSupported with
      | false => exact .inl (unchanged_of_not_isSupported hsupported hreturning h)
      | true =>
          -- Where no keys are wanted even a supported statement stays.
          by_cases hr : r = .noKeys
          · subst hr
            cases h
            rw [forNoKeys, hreturning]
            exact .inl rfl
          · exact .inr ⟨rfl, rfl, returning_of_isSupported hsupported hreturning h hr⟩

/-- A changed statement is of a supported type, returned no columns, and has a clause behind
it. -/
theorem appended_of_ne (h : b.answer m r = .ok q) (hne : q.sql ≠ b.sql) :
    b.isSupported = true ∧ b.hasReturning = false ∧ ∃ items, q = b.returning items := by
  rcases answer_cases h with rfl | ⟨hsupported, hreturning, items, -, -, rfl⟩
  · exact absurd rfl hne
  · exact ⟨hsupported, hreturning, items, rfl⟩

end Builder

end GeneratedKeys
