import GeneratedKeys.Proofs.Keys.Untouched
import GeneratedKeys.Proofs.Statement.Shape

/-!
# `GeneratedKeys.Proofs.Keys.Configured`: statements that are rewritten

Whether a statement is rewritten is settled by three parties: the connection property says which
types are wanted, the server which ones it knows a clause for, and the statement itself must be
understood and must return nothing. `Rewrites` lists all that holds where a statement is changed.

* `Support.contains_types_configure`: a type is enabled if it is wanted and the server supports it.
* `ServerVersion.returningSupport_mono`: later servers support no fewer types.
* `configured_buildQuery`: a statement is changed only as `Rewrites` says, and with a later server
  no type is lost.
-/

set_option autoImplicit false

namespace GeneratedKeys

/-! ### Versions -/

namespace ServerVersion

/-- Versions are ordered transitively, as their numbers are. -/
theorem le_trans {u v w : ServerVersion} (huv : u ≤ v) (hvw : v ≤ w) : u ≤ w := by
  have huv' : u.major < v.major ∨ (u.major = v.major ∧ u.minor ≤ v.minor) := huv
  have hvw' : v.major < w.major ∨ (v.major = w.major ∧ v.minor ≤ w.minor) := hvw
  show u.major < w.major ∨ (u.major = w.major ∧ u.minor ≤ w.minor)
  rcases huv' with hlt | ⟨heq, hle⟩
  · rcases hvw' with hlt' | ⟨heq', -⟩
    · exact .inl (UInt32.lt_trans hlt hlt')
    · exact .inl (heq' ▸ hlt)
  · rcases hvw' with hlt' | ⟨heq', hle'⟩
    · exact .inl (heq ▸ hlt')
    · exact .inr ⟨heq.trans heq', UInt32.le_trans hle hle'⟩

/-- Later servers support no fewer types. The order of versions is that of the two numbers, the
major one first. -/
theorem returningSupport_mono {v w : ServerVersion} (h : v ≤ w) {type : QueryType}
    (hv : v.returningSupport.contains type = true) : w.returningSupport.contains type = true := by
  by_cases hfull : (⟨2, 1⟩ : ServerVersion) ≤ w
  · rw [returningSupport, if_pos hfull]
    exact QueryTypes.contains_full type
  · -- The later server is of version 2.0, or both support nothing.
    have hnot : ¬ (⟨2, 1⟩ : ServerVersion) ≤ v := fun hle => hfull (le_trans hle h)
    rw [returningSupport, if_neg hnot] at hv
    rw [returningSupport, if_neg hfull]
    by_cases hsome : (⟨2, 0⟩ : ServerVersion) ≤ v
    · rw [if_pos hsome] at hv
      rwa [if_pos (le_trans hsome h)]
    · rw [if_neg hsome, QueryTypes.contains_empty] at hv
      cases hv

end ServerVersion

/-! ### Wanted types -/

/-- Whether a mode wants keys for a type. What the server supports is not asked here. -/
def Mode.wants : Mode → QueryType → Bool
  | .default, _ => true
  | .only types, type => types.contains type
  | .disabled, _ | .ignored, _ => false

/-- What a mode text means, blanks at its ends and the case of its letters aside. -/
def modeWord (text : Text) : Text :=
  Text.lower (Text.trim text)

/-- A mode text is empty or the word for all types, or the type is one of its list. -/
def Lists (text : Text) (type : QueryType) : Prop :=
  modeWord text = [] ∨ modeWord text = "default".toList ∨
    ∃ piece ∈ (modeWord text).splitOn ',',
      Text.sameIgnoringCase type.name.toList (Text.trim piece) = true

/-- A text that means a mode which wants a type: it is not one of the words that switch keys off,
and it lists the type or stands for all of them. -/
theorem lists_of_wants {text : Text} {type : QueryType}
    (h : (Mode.ofText text).wants type = true) :
    modeWord text ≠ "disabled".toList ∧ modeWord text ≠ "ignored".toList ∧ Lists text type := by
  -- The text is read word by word: three of them mean a mode, and anything else is a list.
  have hmode : Mode.ofText text =
      if modeWord text = [] ∨ modeWord text = "default".toList then .default
      else if modeWord text = "disabled".toList then .disabled
      else if modeWord text = "ignored".toList then .ignored
      else .only (.ofList (((modeWord text).splitOn ',').filterMap fun p =>
        QueryType.ofName? (Text.trim p))) := rfl
  rw [hmode] at h
  split at h
  · next hdefault =>
    refine ⟨?_, ?_, hdefault.imp_right .inl⟩
    · intro hword
      rw [hword] at hdefault
      exact absurd hdefault (by decide)
    · intro hword
      rw [hword] at hdefault
      exact absurd hdefault (by decide)
  · split at h
    · cases h
    · next hdisabled =>
      split at h
      · cases h
      · next hignored =>
        refine ⟨hdisabled, hignored, .inr (.inr ?_)⟩
        rw [Mode.wants, QueryTypes.contains_ofList, List.contains_iff_mem,
          List.mem_filterMap] at h
        -- A type is wanted by a list if one of its pieces names it.
        obtain ⟨piece, hpiece, hname⟩ := h
        have hsame := List.find?_some hname
        exact ⟨piece, hpiece, hsame⟩

namespace Support

/-- A type is enabled exactly if it is wanted and the server supports it. The three states of a
connection are covered by this one equation. -/
theorem contains_types_configure (mode : Mode) (v : ServerVersion) (type : QueryType) :
    (configure mode v).types.contains type
      = (mode.wants type && v.returningSupport.contains type) := by
  -- What is enabled is what is wanted and supported, or everything that is supported if nothing in
  -- particular is wanted.
  have hversion : ∀ wanted : Option QueryTypes, (ofVersion v wanted).types.contains type
      = ((wanted.all fun types => types.contains type) && v.returningSupport.contains type) := by
    intro wanted
    simp only [ofVersion]
    split
    · next hnone => simp [types, QueryTypes.isEmpty_iff.1 hnone]
    · cases wanted with
      | none => simp [types]
      | some wanted =>
          by_cases hnone : (v.returningSupport.inter wanted).isEmpty = true
          -- Nothing is in common, so the support is switched off and no type is enabled.
          · have hcontains := QueryTypes.isEmpty_iff.1 hnone type
            rw [QueryTypes.contains_inter] at hcontains
            simp only [hnone, if_true, types, QueryTypes.contains_empty, Option.all_some]
            rw [Bool.and_comm, hcontains]
          · simp [hnone, types, Bool.and_comm]
  cases mode with
  | default => simpa [Mode.wants, configure] using hversion none
  | disabled | ignored => simp [Mode.wants, configure, types]
  | only wanted => simpa [Mode.wants, configure] using hversion (some wanted)

end Support

/-! ### Rewritten statements -/

/-- The text `body` is `sql` without blanks at its end and without one semicolon in front of
them. -/
def Strips (sql body : Text) : Prop :=
  ∃ blanks, (∀ c ∈ blanks, isBlank c = true) ∧
    (sql = body ++ ';' :: blanks ∨
      (sql = body ++ blanks ∧ ∀ c, body.getLast? = some c → isBlank c = false ∧ c ≠ ';'))

/-- A trimmed text does not end in a blank, as trimming goes on until it finds another character. -/
theorem isBlank_getLast_trimEnd {t : Text} {c : Char} (h : (Text.trimEnd t).getLast? = some c) :
    isBlank c = false := by
  have hhead := List.head?_dropWhile_not isBlank t.reverse
  rw [Text.trimEnd, List.getLast?_reverse] at h
  rwa [h] at hhead

/-- Stripping a text takes away what the definition says. -/
theorem strips_strippedText (sql : Text) : Strips sql (strippedText sql) := by
  obtain ⟨blanks, hblanks, hsql⟩ := Text.exists_trimEnd_append sql
  refine ⟨blanks, hblanks, ?_⟩
  rw [strippedText, withoutSemicolon]
  by_cases hlast : (Text.trimEnd sql).getLast? = some ';'
  · rw [if_pos hlast]
    obtain ⟨body, hbody⟩ := List.getLast?_eq_some_iff.1 hlast
    rw [hbody, List.dropLast_concat]
    rw [hbody, List.append_assoc] at hsql
    exact .inl hsql
  · rw [if_neg hlast]
    refine .inr ⟨hsql, fun c hc => ⟨isBlank_getLast_trimEnd hc, ?_⟩⟩
    rintro rfl
    exact hlast hc

/-- The table of a statement that is read without problems is known. -/
theorem isSome_table_of_clean {sql : Text} {p : ParsedStatement} {type : StatementType}
    (h : parse sql = .ok p) (hclean : p.isClean = true) (htype : p.statement.type? = some type) :
    p.statement.table?.isSome = true := by
  obtain ⟨-, type', ms, ks, hread, -, hparts⟩ := reads_of_clean h hclean
  rw [hparts] at htype ⊢
  exact (hasShape_of_type (.reads hread) htype).2.1

/-- All that holds where the statement `sql` is changed on a connection with a mode text. The
statement was parsed as `p`, and it is `body` with a clause of `items` behind it now. -/
structure Rewrites (text : Text) (m : Metadata) (sql : Text) (r : Request) (q : Query)
    (p : ParsedStatement) (type : StatementType) (body : Text) (items : List Text) : Prop where
  parsed : parse sql = .ok p
  clean : p.diagnostics.count = 0
  returning : p.statement.hasReturning = false
  type_eq : p.statement.type? = some type
  not_disabled : modeWord text ≠ "disabled".toList
  not_ignored : modeWord text ≠ "ignored".toList
  listed : Lists text (.ofStatement type)
  supported : m.version.returningSupport.contains (.ofStatement type) = true
  generatesKeys : q.generatesKeys = true
  strips : Strips sql body
  sql_eq : q.sql = body ++ "\nRETURNING ".toList ++ [','].intercalate items
  items_ne_nil : items ≠ []
  requested : r ≠ .noKeys
  /-- A star stands for all columns where the server knows it; else they are listed. -/
  allColumns : r = .allColumns → ∃ table, p.statement.table? = some table ∧
    items = if 4 ≤ m.version.major then [['*']]
      else (m.columns (ObjectName.normalize table)).map (QuoteStrategy.ofDialect m.dialect).quote

/-- What the builder of a changed statement tells, if these types are enabled. -/
theorem rewrites_of_answer {text sql : Text} {types : QueryTypes} {m : Metadata} {r : Request}
    {q : Query} (henabled : ∀ type, types.contains type = true →
      (Mode.ofText text).wants type = true ∧ m.version.returningSupport.contains type = true)
    (h : (Builder.ofStatement sql types).answer m r = .ok q) (hne : q.sql ≠ sql) :
    ∃ p type body items, Rewrites text m sql r q p type body items := by
  rcases Builder.answer_cases h with rfl | ⟨hsupported, hreturning, items, hitems, hnil, rfl⟩
  · exact absurd rfl hne
  · obtain ⟨p, hp, hclean, htype⟩ := parse_of_isSupported hsupported
    obtain ⟨type, htype⟩ := Option.isSome_iff_exists.1 htype
    obtain ⟨table, htable⟩ :=
      Option.isSome_iff_exists.1 (isSome_table_of_clean hp hclean htype)
    have hstatement : (Builder.ofStatement sql types).statement? = some p.statement :=
      understood?_of_clean hp hclean
    rw [Builder.hasReturning, hstatement] at hreturning
    -- The type of the statement is one of those that are enabled.
    have hcontains : types.contains (.ofStatement type) = true := by
      rw [Builder.isSupported, hstatement, Option.bind_some, htype] at hsupported
      exact hsupported
    obtain ⟨hwants, hserver⟩ := henabled _ hcontains
    obtain ⟨hdisabled, hignored, hlists⟩ := lists_of_wants hwants
    refine ⟨p, type, strippedText sql, items, {
      parsed := hp
      clean := by simpa [ParsedStatement.isClean] using hclean
      returning := hreturning
      type_eq := htype
      not_disabled := hdisabled
      not_ignored := hignored
      listed := hlists
      supported := hserver
      generatesKeys := rfl
      strips := strips_strippedText sql
      sql_eq := rfl
      items_ne_nil := hnil
      requested := ?_
      allColumns := ?_ }⟩
    · rintro rfl
      exact hitems
    · rintro rfl
      refine ⟨table, htable, ?_⟩
      -- The columns that the clause lists are those that the connection knows for the table.
      have htableColumns : (Builder.ofStatement sql types).tableColumns m
          = m.columns (ObjectName.normalize table) := by
        rw [Builder.tableColumns, Builder.table_ofStatement hp hclean htable]
      rw [← htableColumns]
      simpa [Builder.Requested, ServerVersion.returnsAll] using hitems

/-- A statement is changed only if it is read without problems and returns nothing, if its type is
wanted and supported, and by a clause that asks for what is requested. A type that is enabled on a
server is enabled on every later one. -/
theorem configured_buildQuery (text : Text) :
    (∀ (m : Metadata) (sql : Text) (r : Request) (q : Query),
      (Support.configure (Mode.ofText text) m.version).buildQuery sql r m = .ok q → q.sql ≠ sql →
        ∃ p type body items, Rewrites text m sql r q p type body items) ∧
    ∀ (v v' : ServerVersion) (type : QueryType), v ≤ v' →
      (Support.configure (Mode.ofText text) v).types.contains type = true →
      (Support.configure (Mode.ofText text) v').types.contains type = true := by
  constructor
  · intro m sql r q h hne
    have henabled := Support.contains_types_configure (Mode.ofText text) m.version
    unfold Support.buildQuery at h
    split at h
    -- Some types are enabled, so the request goes to the builder.
    · next types htypes =>
      refine rewrites_of_answer (fun type htype => ?_) h hne
      rw [← Bool.and_eq_true, ← henabled, htypes]
      exact htype
    -- Support is switched off, and the statement is left as it is.
    · split at h <;> cases h
      exact absurd rfl hne
    · cases h
      exact absurd rfl hne
  · intro v v' type hle h
    rw [Support.contains_types_configure, Bool.and_eq_true] at h ⊢
    exact ⟨h.1, ServerVersion.returningSupport_mono hle h.2⟩

/-- A connection to a server of version 3 that knows one table, whose second column can only be
written between quotes. -/
def oneTable : Metadata :=
  dialectThree.withTable ['T'] ["ID".toList, "a b".toList]

/-- Deleting is one of two types in the list, and the server lists the columns, as it is too old for
the star. Version 5 enables the type as well. -/
theorem configured_buildQuery_delete :
    (∃ p type body items, Rewrites " DELETE , Update_Or_Insert".toList oneTable
      "DELETE FROM T ; ".toList .allColumns
      ⟨true, "DELETE FROM T \nRETURNING \"ID\",\"a b\"".toList⟩ p type body items) ∧
    (Support.configure (Mode.ofText " DELETE , Update_Or_Insert".toList) ⟨5, 0⟩).types.contains
      .delete = true := by
  obtain ⟨hrewrites, hmono⟩ := configured_buildQuery " DELETE , Update_Or_Insert".toList
  refine ⟨hrewrites oneTable _ .allColumns _ (by decide +kernel) (by decide), ?_⟩
  exact hmono ⟨2, 1⟩ ⟨5, 0⟩ .delete (by decide) (by decide +kernel)

end GeneratedKeys
