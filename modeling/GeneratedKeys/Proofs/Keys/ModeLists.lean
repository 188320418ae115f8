import GeneratedKeys.Proofs.Keys.Configured
import GeneratedKeys.Proofs.Keys.Items
import GeneratedKeys.Proofs.Text.Caseless
import Mathlib.Data.List.TakeWhile

/-!
# `GeneratedKeys.Proofs.Keys.ModeLists`: lists in the connection property

The connection property is trimmed and put in small letters before it is compared with the three
words and taken apart at its commas. A text with a comma is none of the words, and only its first
and its last piece can lose blanks to the trimming, which they would have lost as pieces anyway. So
a list means the types that its pieces name, each piece taken by itself.

* `trim_intercalate`: what trimming does to a list.
* `IsList.modeWord_eq`: the pieces that are looked up are those that were joined.
* `Edited.names_iff`: changes of a list that name the same types.
* `listed_modes`: which types a list means, and what does not matter in it.
-/

set_option autoImplicit false

namespace GeneratedKeys

/-! ### Blanks and letter case -/

/-- Blanks have no letter case, so trimming and making small can be done in either order. -/
theorem caseless_isBlank : Caseless isBlank :=
  caseless_of_map_eq (by decide)

namespace Text

/-- Trimming and putting into small letters can be done in either order. -/
theorem trim_lower (t : Text) : trim (lower t) = lower (trim t) := by
  have hreverse : ∀ u : Text, (lower u).reverse = lower u.reverse := fun u =>
    List.map_reverse.symm
  rw [trim, trimStart, caseless_isBlank.dropWhile_lower, trimEnd, hreverse,
    caseless_isBlank.dropWhile_lower, hreverse]
  rfl

/-- Trimming only the beginning first makes no difference, as trimming does it anyway. -/
theorem trim_trimStart (t : Text) : trim (trimStart t) = trim t := by
  have hagain : (trimStart t).dropWhile isBlank = trimStart t :=
    List.dropWhile_eq_self_iff.2 (List.dropWhile_get_zero_not isBlank t)
  exact congrArg trimEnd hagain

/-- Trimming only the end first makes no difference either. If all is blank, nothing is left in both
cases. -/
theorem trim_trimEnd (t : Text) : trim (trimEnd t) = trim t := by
  obtain ⟨blanks, hblanks, hsplit⟩ := exists_trimEnd_append t
  have hfront : trimEnd (trimStart (trimEnd t ++ blanks)) = trimEnd (trimStart (trimEnd t)) := by
    rw [trimStart, List.dropWhile_append]
    split
    · next hnil =>
      -- The whole text is blank.
      rw [List.dropWhile_eq_nil_iff.2 hblanks, trimStart, List.isEmpty_iff.1 hnil]
    · exact trimEnd_append_blank _ blanks hblanks
  rw [trim, trim, ← hfront, ← hsplit]

/-- The blanks in front of a text with a comma are those in front of the comma. -/
theorem trimStart_append_comma (t u : Text) :
    trimStart (t ++ ',' :: u) = trimStart t ++ ',' :: u := by
  have hcomma : ((',' :: u).dropWhile isBlank) = ',' :: u := rfl
  rw [trimStart, List.dropWhile_append]
  split
  · next hnil => rw [hcomma, trimStart, List.isEmpty_iff.1 hnil, List.nil_append]
  · rfl

/-- No other character than a comma becomes one in small letters, so a list has the same pieces in
any letter case. -/
theorem comma_mem_lower {t : Text} : ',' ∈ lower t ↔ ',' ∈ t := by
  have hcomma : Caseless (· == ',') := caseless_of_map_eq (by decide)
  rw [lower, List.mem_map]
  constructor
  · rintro ⟨c, hc, hlower⟩
    have hsame : (c.toLower == ',') = (c == ',') := hcomma c
    rw [hlower, beq_self_eq_true] at hsame
    rwa [← beq_iff_eq.1 hsame.symm]
  · exact fun h => ⟨',', h, rfl⟩

/-- Trimming the end adds no character, so what no character of the text is, none of the trimmed
text is. -/
theorem mem_of_mem_trimEnd {t : Text} {c : Char} (h : c ∈ trimEnd t) : c ∈ t := by
  obtain ⟨blanks, -, hsplit⟩ := exists_trimEnd_append t
  rw [hsplit]
  exact List.mem_append_left blanks h

/-- A list in small letters is the list of its pieces in small letters. -/
theorem lower_intercalate (t : Text) (ts : List Text) :
    lower ([','].intercalate (t :: ts)) = [','].intercalate ((t :: ts).map lower) := by
  induction ts generalizing t with
  | nil => simp
  | cons u ts ih =>
      rw [List.intercalate_cons_cons, lower_append, lower_append, ih]
      simp only [List.map_cons, List.intercalate_cons_cons]
      rfl

/-- Of a list with several pieces, trimming changes the first and the last one. The others are
trimmed later, each by itself. -/
theorem trim_intercalate (first last : Text) (others : List Text) :
    trim ([','].intercalate (first :: (others ++ [last])))
      = [','].intercalate (trimStart first :: (others ++ [trimEnd last])) := by
  have hlast : ∀ last' : Text, (others ++ [last']).flatMap (',' :: ·)
      = others.flatMap (',' :: ·) ++ ',' :: last' := by
    intro last'
    rw [List.flatMap_append, List.flatMap_singleton]
  have hcomma : ∃ u, others.flatMap (',' :: ·) ++ ',' :: last = ',' :: u := by
    cases others with
    | nil => exact ⟨last, rfl⟩
    | cons other others => exact ⟨_, rfl⟩
  obtain ⟨u, hu⟩ := hcomma
  rw [intercalate_cons, intercalate_cons, hlast, hlast, trim, hu, trimStart_append_comma, ← hu,
    ← List.append_assoc, trimEnd_append_cons _ _ rfl, List.append_assoc]

end Text

/-! ### Names of types -/

/-- A piece of a list names a type, the blanks around it and the case of its letters aside. -/
def Names (piece : Text) (type : QueryType) : Prop :=
  Text.sameIgnoringCase (Text.trim piece) type.name.toList = true

/-- What it means that a piece names a type: trimmed and in small letters it is the name of the
type. -/
theorem names_iff {piece : Text} {type : QueryType} :
    Names piece type ↔ Text.lower (Text.trim piece) = type.name.toList := by
  have hname : Text.lower type.name.toList = type.name.toList := by
    cases type <;> decide
  rw [Names, Text.sameIgnoringCase_iff, hname]

/-- What a piece names depends on its trimmed form in small letters. -/
theorem Names.congr {p q : Text} (h : Text.lower (Text.trim p) = Text.lower (Text.trim q))
    (type : QueryType) : Names p type ↔ Names q type := by
  rw [names_iff, names_iff, h]

/-- Pieces that are written in another way name the same types, if they agree up to blanks around
them and letter case. -/
theorem exists_names_congr {ps qs : List Text}
    (h : List.Forall₂ (fun p q => Text.lower (Text.trim p) = Text.lower (Text.trim q)) ps qs)
    (type : QueryType) : (∃ p ∈ ps, Names p type) ↔ ∃ q ∈ qs, Names q type := by
  induction h with
  | nil => simp
  | cons hpq _ ih => simp [ih, Names.congr hpq]

/-- A name is looked up in small letters, and the names of types are written in small letters. -/
theorem ofName?_eq_some_iff {t : Text} {type : QueryType} :
    QueryType.ofName? t = some type ↔ Text.lower t = type.name.toList := by
  constructor
  · intro h
    have hsame := List.find?_some h
    rw [← Text.sameIgnoringCase_iff.1 hsame]
    cases type <;> decide
  · intro h
    simp only [QueryType.ofName?, Text.sameIgnoringCase, h]
    cases type <;> decide

/-- The words that mean a mode by themselves name no type, and neither does nothing. -/
theorem not_names_of_word {p : Text} (h : Text.lower (Text.trim p) ∈
    [[], "default".toList, "disabled".toList, "ignored".toList]) (type : QueryType) :
    ¬ Names p type := by
  rw [names_iff]
  intro hname
  rw [hname] at h
  revert h
  cases type <;> decide

/-! ### Lists -/

/-- The pieces of a list: two or more, none of which has a comma in it. -/
structure IsList (ps : List Text) : Prop where
  two_le : 2 ≤ ps.length
  not_mem : ∀ p ∈ ps, ',' ∉ p

/-- A list is its first piece, its last one and others between. -/
theorem IsList.exists_ends {ps : List Text} (h : IsList ps) :
    ∃ first others last, ps = first :: (others ++ [last]) := by
  obtain ⟨two_le, -⟩ := h
  match ps with
  | first :: second :: rest =>
      obtain ⟨others, last, hsplit⟩ := List.eq_nil_or_concat (second :: rest) |>.resolve_left
        (List.cons_ne_nil _ _)
      exact ⟨first, others, last, by rw [hsplit, List.concat_eq_append]⟩

/-- The text of a list, trimmed and in small letters, is a list of pieces that name what those of
the first one name. -/
theorem IsList.modeWord_eq {ps : List Text} (h : IsList ps) :
    ∃ qs, IsList qs ∧ modeWord ([','].intercalate ps) = [','].intercalate qs ∧
      List.Forall₂ (fun p q => Text.lower (Text.trim p) = Text.lower (Text.trim q)) ps qs := by
  obtain ⟨first, others, last, rfl⟩ := h.exists_ends
  -- A piece may be trimmed at one end, which does not change what it is trimmed at both.
  have hlower : ∀ p q : Text, Text.trim q = Text.trim p →
      Text.lower (Text.trim p) = Text.lower (Text.trim (Text.lower q)) := by
    intro p q hsame
    rw [Text.trim_lower, Text.lower_lower, hsame]
  refine ⟨(Text.trimStart first :: (others ++ [Text.trimEnd last])).map Text.lower,
    ⟨?_, ?_⟩, ?_, ?_⟩
  · simp
  · intro q hq
    obtain ⟨p, hp, rfl⟩ := List.mem_map.1 hq
    rw [Text.comma_mem_lower]
    intro hcomma
    simp only [List.mem_cons, List.mem_append, List.not_mem_nil, or_false] at hp
    -- Neither trimming nor small letters bring a comma into a piece.
    rcases hp with rfl | hp | rfl
    · exact h.not_mem first (by simp) ((List.dropWhile_sublist _).subset hcomma)
    · exact h.not_mem p (by simp [hp]) hcomma
    · exact h.not_mem last (by simp) (Text.mem_of_mem_trimEnd hcomma)
  · rw [modeWord, Text.trim_intercalate, Text.lower_intercalate]
  · rw [List.forall₂_map_right_iff]
    refine .cons (hlower _ _ (Text.trim_trimStart first)) (List.rel_append ?_ ?_)
    · exact List.forall₂_same.2 fun p _ => hlower p p rfl
    · exact .cons (hlower _ _ (Text.trim_trimEnd last)) .nil

/-- A list is never one of the words that mean a mode by themselves. -/
theorem IsList.mem_intercalate {ps : List Text} (h : IsList ps) : ',' ∈ [','].intercalate ps := by
  obtain ⟨first, others, last, rfl⟩ := h.exists_ends
  rw [intercalate_cons]
  simp

/-- The types that the pieces of a list name are those that the mode wants. A piece that names none
is passed over. -/
theorem IsList.ofText_eq {ps : List Text} (h : IsList ps) :
    ∃ types, Mode.ofText ([','].intercalate ps) = .only types ∧
      ∀ type, types.contains type = true ↔ ∃ p ∈ ps, Names p type := by
  obtain ⟨qs, hqs, hword, hsame⟩ := h.modeWord_eq
  -- A word that means a mode by itself has no comma in it.
  have hmem : ',' ∈ modeWord ([','].intercalate ps) := hword ▸ hqs.mem_intercalate
  have hne : ∀ w : Text, ',' ∉ w → modeWord ([','].intercalate ps) ≠ w := by
    rintro w hw rfl
    exact hw hmem
  have hmode : Mode.ofText ([','].intercalate ps)
      = .only (.ofList (qs.filterMap fun q => QueryType.ofName? (Text.trim q))) := by
    have hpieces : (modeWord ([','].intercalate ps)).splitOn ',' = qs := by
      rw [hword, List.splitOn_intercalate ',' hqs.not_mem
        (List.length_pos_iff.1 (Nat.lt_of_lt_of_le Nat.two_pos hqs.two_le))]
    rw [← hpieces]
    exact (if_neg (not_or.2 ⟨hne _ (by decide), hne _ (by decide)⟩)).trans
      ((if_neg (hne _ (by decide))).trans (if_neg (hne _ (by decide))))
  refine ⟨_, hmode, fun type => ?_⟩
  rw [QueryTypes.contains_ofList, List.contains_iff_mem, List.mem_filterMap,
    exists_names_congr hsame]
  simp only [ofName?_eq_some_iff, names_iff]

/-- Changes of a list that have no effect, made one after the other in either direction: its pieces
are put into another order, a piece is repeated, written with other blanks around it or in other
letter case, or one is added that names no type. -/
inductive Edited : List Text → List Text → Prop where
  | reordered {ps qs : List Text} : ps.Perm qs → Edited ps qs
  | repeated {p : Text} {ps : List Text} : p ∈ ps → Edited ps (p :: ps)
  | respelled {ps qs : List Text} :
      List.Forall₂ (fun p q => Text.lower (Text.trim p) = Text.lower (Text.trim q)) ps qs →
        Edited ps qs
  | unnamed {p : Text} {ps : List Text} : (∀ type, ¬ Names p type) → Edited ps (p :: ps)
  | undone {ps qs : List Text} : Edited ps qs → Edited qs ps
  | again {ps qs rs : List Text} : Edited ps qs → Edited qs rs → Edited ps rs

/-- Such changes leave the types that are named as they are: a piece is lost or repeated only if the
types do not change by it. -/
theorem Edited.names_iff {ps qs : List Text} (h : Edited ps qs) (type : QueryType) :
    (∃ p ∈ ps, Names p type) ↔ ∃ q ∈ qs, Names q type := by
  induction h with
  | reordered hperm => simp only [hperm.mem_iff]
  | repeated hp =>
      rw [List.exists_mem_cons_iff]
      exact ⟨.inr, fun h => h.elim (fun hname => ⟨_, hp, hname⟩) id⟩
  | respelled hsame => exact exists_names_congr hsame type
  | unnamed hnone =>
      rw [List.exists_mem_cons_iff]
      exact ⟨.inr, fun h => h.resolve_left (hnone type)⟩
  | undone _ ih => exact ih.symm
  | again _ _ ih₁ ih₂ => exact ih₁.trans ih₂

/-- What a list in the connection property means. It stands for the types that its pieces name, so
a list with the same names means the same on every server, and so does one that was only edited. The
words that mean a mode by themselves name no type in a list, and a type is enabled exactly if it is
named and the server supports it. -/
theorem listed_modes {ps : List Text} (h : IsList ps) :
    (∃ types, Mode.ofText ([','].intercalate ps) = .only types ∧
      ∀ type, types.contains type = true ↔ ∃ p ∈ ps, Names p type) ∧
    (∀ qs, IsList qs →
      (Edited ps qs ∨ ∀ type, (∃ p ∈ ps, Names p type) ↔ ∃ q ∈ qs, Names q type) →
        Mode.ofText ([','].intercalate qs) = Mode.ofText ([','].intercalate ps) ∧
        ∀ v, Support.configure (Mode.ofText ([','].intercalate qs)) v
          = Support.configure (Mode.ofText ([','].intercalate ps)) v) ∧
    (∀ p, Text.lower (Text.trim p) ∈
        [[], "default".toList, "disabled".toList, "ignored".toList] → Edited ps (p :: ps)) ∧
    ∀ v type, (Support.configure (Mode.ofText ([','].intercalate ps)) v).types.contains type = true
      ↔ (∃ p ∈ ps, Names p type) ∧ v.returningSupport.contains type = true := by
  obtain ⟨types, hmode, hnames⟩ := h.ofText_eq
  refine ⟨⟨types, hmode, hnames⟩, ?_, ?_, ?_⟩
  · intro qs hqs hsame
    obtain ⟨types', hmode', hnames'⟩ := hqs.ofText_eq
    -- Both lists name the same types, so they stand for one set.
    have htypes : types' = types := by
      rw [QueryTypes.ext_iff]
      intro type
      rw [Bool.eq_iff_iff, hnames, hnames']
      rcases hsame with hedited | hsame
      · exact (hedited.names_iff type).symm
      · exact (hsame type).symm
    have hmodes : Mode.ofText ([','].intercalate qs) = Mode.ofText ([','].intercalate ps) := by
      rw [hmode, hmode', htypes]
    exact ⟨hmodes, fun v => by rw [hmodes]⟩
  · exact fun p hp => .unnamed (not_names_of_word hp)
  · intro v type
    rw [Support.contains_types_configure, Bool.and_eq_true, hmode, Mode.wants, hnames]

/-- A list that names two types, and the same list the other way round with a piece left out and
other letters. -/
theorem listed_modes_reordered :
    IsList [" Default".toList, "\tDELETE".toList, [], "update_OR_insert ".toList] ∧
    (∃ types, Mode.ofText " Default,\tDELETE,,update_OR_insert ".toList = .only types ∧
      types.contains .delete = true ∧ types.contains .insert = false) ∧
    Support.configure (Mode.ofText "Update_or_insert,delete".toList) ⟨2, 5⟩
      = Support.configure (Mode.ofText " Default,\tDELETE,,update_OR_insert ".toList) ⟨2, 5⟩ := by
  have hlist : IsList [" Default".toList, "\tDELETE".toList, [], "update_OR_insert ".toList] :=
    ⟨by decide, by decide⟩
  have hshort : IsList ["Update_or_insert".toList, "delete".toList] := ⟨by decide, by decide⟩
  obtain ⟨⟨types, hmode, hnames⟩, hsame, -, -⟩ := listed_modes hlist
  refine ⟨hlist, ⟨types, hmode, ?_, ?_⟩, ?_⟩
  · exact (hnames .delete).2 ⟨"\tDELETE".toList, by simp, by unfold Names; decide⟩
  · rw [Bool.eq_false_iff, Ne, hnames]
    unfold Names
    decide
  -- The pieces are compared type by type: two are named by both lists, the others by neither.
  · refine (hsame _ hshort (.inr fun type => ?_)).2 ⟨2, 5⟩
    unfold Names
    cases type <;> decide

end GeneratedKeys
