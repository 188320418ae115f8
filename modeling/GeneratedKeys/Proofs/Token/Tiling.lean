import GeneratedKeys.Proofs.Token.Faultless
import Mathlib.Data.List.Chain

/-!
# `GeneratedKeys.Proofs.Token.Tiling`: tokens tile the text, and tiles can be cut apart

The tokens that the lexer hands out lie side by side: each one starts where the one before it
stops, none is empty, and only the token of the end covers nothing. A text that is cut where one
of them starts falls into two texts with the same tokens, since no token looks further than the
end of the text that it is cut from.

* `tiling_restAll`: the tokens of every text tile it.
* `restAll_cut`: the tokens and the lexical problems of a text are those of the two parts, one
  behind the other.
-/

set_option autoImplicit false

namespace GeneratedKeys

open Scan

/-! ### Places in a text -/

/-- Byte `n` lies between two characters of the text, at its beginning or at its end. This is where
a text can be sliced. -/
def Text.CutsAt (n : Nat) (t : Text) : Prop :=
  ∃ a b : Text, t = a ++ b ∧ Text.size a = n

/-- The end of a text is such a place, with the whole text in front of it. -/
theorem Text.cutsAt_size (t : Text) : Text.CutsAt (Text.size t) t :=
  ⟨t, [], (List.append_nil t).symm, rfl⟩

/-! ### Tilings -/

/-- The tokens lie side by side over the whole text and are closed by the token of its end. -/
structure Tiling (t : Text) (ts : List Token) : Prop where
  /-- The last token, and no other, is the token of the end. It covers nothing. -/
  ended : ∃ pieces last, ts = pieces ++ [last] ∧ last.kind = .eof ∧
    last.span = ⟨Text.size t, Text.size t⟩ ∧ ∀ x ∈ pieces, x.kind ≠ .eof
  /-- The first token starts with the text. -/
  first : ∃ x, ts.head? = some x ∧ x.span.start = 0
  /-- Every token starts where the one before it stops. -/
  adjacent : ts.IsChain fun x y => x.span.stop = y.span.start
  /-- Every other token than that of the end covers something. -/
  nonempty : ∀ x ∈ ts, x.kind ≠ .eof → x.span.start < x.span.stop
  /-- No token begins or ends inside a character. -/
  whole : ∀ x ∈ ts, Text.CutsAt x.span.start t ∧ Text.CutsAt x.span.stop t
  /-- What the tokens cover are their texts. -/
  covered : ∀ x ∈ ts, x.span.slice t = x.text
  /-- What the tokens cover is the whole text. -/
  joined : ts.flatMap (fun x => x.span.slice t) = t

/-- The first token, or that of the end, starts with the text. -/
theorem head_tokensFrom (k : Nat) (t : Text) :
    ∃ x, (tokensFrom k t ++ [Token.atEnd (k + Text.size t)]).head? = some x ∧ x.start = k := by
  cases t with
  | nil => exact ⟨_, rfl, rfl⟩
  | cons c t =>
      refine ⟨firstToken k c t, ?_, rfl⟩
      rw [tokensFrom_cons]
      rfl

/-- Every token starts where the one before it stops, and so does the end. -/
theorem isChain_tokensFrom (k : Nat) (t : Text) :
    (tokensFrom k t ++ [Token.atEnd (k + Text.size t)]).IsChain
      fun x y => x.stop = y.start := by
  induction t using tokens_induction generalizing k with
  | nil => exact .singleton _
  | cons c t ih =>
      have hsize : (firstToken k c t).stop + Text.size (t.drop (scan c t).extra)
          = k + Text.size (c :: t) := by
        have hstop := stop_firstToken (k := k) (c := c) (t := t) (r := [])
          (by rw [List.append_nil]; exact scan_extra_le c t)
        rwa [List.append_nil] at hstop
      rw [tokensFrom_cons, List.cons_append, ← hsize, List.isChain_cons]
      refine ⟨?_, ih _⟩
      -- Whatever comes next starts where the text that is left does.
      obtain ⟨x, hhead, hstart⟩ := head_tokensFrom (firstToken k c t).stop
        (t.drop (scan c t).extra)
      intro y hy
      rw [hhead, Option.mem_some_iff] at hy
      rw [← hy, hstart]

/-- The tokens of every text tile it: they follow each other without a gap from its first byte to
its last one, and the token of the end closes them. -/
theorem tiling_restAll (t : Text) : Tiling t (Lexer.ofText t).restAll.1 := by
  have hall : (Lexer.ofText t).restAll.1 = tokens t ++ [Token.atEnd (0 + Text.size t)] := rfl
  -- What holds of all pieces and of the end holds of all tokens.
  have hmem : ∀ x ∈ (Lexer.ofText t).restAll.1, x ∈ tokens t ∨ x = .atEnd (Text.size t) := by
    intro x hx
    rw [hall, Nat.zero_add, List.mem_append, List.mem_singleton] at hx
    exact hx
  have hempty : Span.slice ⟨Text.size t, Text.size t⟩ t = [] := by
    have hslice := Span.slice_append t [] []
    rwa [List.append_nil, List.append_nil] at hslice
  have hcovered : ∀ x ∈ (Lexer.ofText t).restAll.1, x.span.slice t = x.text := by
    intro x hx
    rcases hmem x hx with hx | rfl
    · exact slice_of_mem_tokens hx
    · exact hempty
  refine ⟨?_, ?_, ?_, ?_, ?_, hcovered, ?_⟩
  · refine ⟨tokens t, .atEnd (Text.size t), ?_, rfl, rfl, fun x hx => kind_ne_eof_of_mem hx⟩
    rw [hall, Nat.zero_add]
  · exact head_tokensFrom 0 t
  · exact isChain_tokensFrom 0 t
  · intro x hx hkind
    rcases hmem x hx with hx | rfl
    · exact start_lt_stop hx
    · exact absurd rfl hkind
  · intro x hx
    rcases hmem x hx with hx | rfl
    · obtain ⟨a, b, ht, hstart⟩ := exists_split hx
      refine ⟨⟨a, _, ht, hstart.symm⟩, a ++ x.text, b, ?_, ?_⟩
      · rw [ht, List.append_assoc]
      · rw [Text.size_append, ← hstart]
        rfl
    · exact ⟨Text.cutsAt_size t, Text.cutsAt_size t⟩
  · rw [List.flatMap_congr hcovered, hall, List.flatMap_append, flatMap_text_tokens]
    exact List.append_nil t

/-! ### Cutting between two tokens -/

/-- The problem moved `n` bytes to the right. What it says stays the same. -/
def Diagnostic.shift (n : Nat) (d : Diagnostic) : Diagnostic :=
  { d with span := d.span.shift n }

/-- The problems moved `n` bytes to the right, as many as before, so that the counter stays. -/
def Diagnostics.shift (n : Nat) (ds : Diagnostics) : Diagnostics :=
  { ds with entries := ds.entries.map (Diagnostic.shift n) }

/-- The tokens that the lexer hands out, without the one of the end. These are the pieces that the
text is cut into. -/
def Lexer.pieces (t : Text) : List Token :=
  (Lexer.ofText t).restAll.1.filter fun x => !x.isEof

/-- The lexical problems that the lexer has met at the end of a text, which are those of all its
tokens. -/
def Lexer.faults (t : Text) : Diagnostics :=
  (Lexer.ofText t).restAll.2.problems

/-- What the lexer hands out without the end are the tokens of the text. -/
theorem Lexer.pieces_eq (t : Text) : Lexer.pieces t = tokens t := by
  have hkeep : (tokens t).filter (fun x => !x.isEof) = tokens t := by
    rw [List.filter_eq_self]
    intro x hx
    rw [Bool.not_eq_true']
    exact isEof_of_mem hx
  show ((tokens t) ++ [Token.atEnd _]).filter _ = tokens t
  rw [List.filter_append, hkeep]
  exact List.append_nil _

/-- What it has met at the end of the text are the problems of all its tokens. -/
theorem Lexer.faults_eq (t : Text) : Lexer.faults t = lexicalProblems (tokens t) := by
  show Diagnostics.none.append (lexicalProblems (tokens t)) = lexicalProblems (tokens t)
  rw [lexicalProblems, Diagnostics.append_recordAll]

/-- A moved token stands for the same problem, moved with it. -/
theorem problem?_shift (n : Nat) (x : Token) :
    (x.shift n).problem? = x.problem?.map (Diagnostic.shift n) := by
  rw [Token.problem?, Token.problem?, Token.span_shift, Option.map_map]
  rfl

/-- Moved tokens have the same problems, moved with them, and as many of them. -/
theorem lexicalProblems_shift (n : Nat) (ts : List Token) :
    lexicalProblems (ts.map (Token.shift n)) = (lexicalProblems ts).shift n := by
  have hproblems : (ts.map (Token.shift n)).filterMap Token.problem?
      = (ts.filterMap Token.problem?).map (Diagnostic.shift n) := by
    rw [List.filterMap_map, List.map_filterMap]
    congr 1
    funext x
    exact problem?_shift n x
  rw [lexicalProblems, lexicalProblems, hproblems, Diagnostics.recordAll_eq,
    Diagnostics.recordAll_eq, List.length_map]
  rfl

/-- A text that is cut at a boundary has the tokens of both parts, those of the second part
moved behind the first one. -/
theorem Boundary.tokens_cut {a r : Text} {ts : List Token} (h : Boundary 0 a r ts) :
    tokens (a ++ r) = tokens a ++ (tokens r).map (Token.shift (Text.size a)) := by
  show tokensFrom 0 (a ++ r) = tokensFrom 0 a ++ _
  rw [h.tokens_eq, h.tokensFrom_eq, tokensFrom_add]
  rfl

/-- Every token, that of the end included, starts at a boundary. So a text can be cut in two in
front of any token. -/
theorem exists_boundary_of_mem {t : Text} {x : Token} (h : x ∈ (Lexer.ofText t).restAll.1) :
    ∃ a r ts, t = a ++ r ∧ Boundary 0 a r ts ∧ x.start = Text.size a := by
  rcases Lexer.mem_restAll_iff.1 h with h | rfl
  · obtain ⟨ts, us, hsplit⟩ := List.append_of_mem h
    obtain ⟨a, c, u, ht, hbound, rfl, -⟩ := exists_place hsplit
    exact ⟨a, c :: u, ts, ht, hbound, rfl⟩
  · exact ⟨t, [], tokens t, (List.append_nil t).symm, boundary_self 0 t, rfl⟩

/-- A text that is cut where a token starts has the tokens of both parts and the lexical
problems of both parts, one behind the other. Those of the second part are only moved: their
kinds, texts and messages stay. -/
theorem restAll_cut {t : Text} {x : Token} (hx : x ∈ (Lexer.ofText t).restAll.1) :
    ∃ a b, Text.takeBytes? x.span.start t = some a ∧ Text.dropBytes? x.span.start t = some b ∧
      Lexer.pieces t = Lexer.pieces a ++ (Lexer.pieces b).map (Token.shift x.span.start) ∧
      Lexer.faults t = (Lexer.faults a).append ((Lexer.faults b).shift x.span.start) := by
  obtain ⟨a, b, ts, rfl, hbound, hstart⟩ := exists_boundary_of_mem hx
  have hcut := hbound.tokens_cut
  show ∃ a' b', Text.takeBytes? x.start _ = some a' ∧ Text.dropBytes? x.start _ = some b' ∧
    _ = _ ++ List.map (Token.shift x.start) _ ∧
      _ = Diagnostics.append _ (Diagnostics.shift x.start _)
  rw [hstart]
  refine ⟨a, b, Text.takeBytes?_size a b, Text.dropBytes?_size a b, ?_, ?_⟩
  · rw [Lexer.pieces_eq, Lexer.pieces_eq, Lexer.pieces_eq, hcut]
  · rw [Lexer.faults_eq, Lexer.faults_eq, Lexer.faults_eq, hcut, lexicalProblems_append,
      lexicalProblems_shift]

/-- A sign in front of a digit belongs to the number also behind a string that is cut off, and
the character that fits no token is told at its place in the whole text. -/
theorem restAll_cut_signed :
    Lexer.pieces "'é'-1§".toList
        = Lexer.pieces "'é'".toList ++ (Lexer.pieces "-1§".toList).map (Token.shift 4) ∧
      Lexer.faults "'é'-1§".toList
        = (Lexer.faults "'é'".toList).append ((Lexer.faults "-1§".toList).shift 4) := by
  have hmem : (⟨.integer true, "-1".toList, 4⟩ : Token)
      ∈ (Lexer.ofText "'é'-1§".toList).restAll.1 := by decide +kernel
  obtain ⟨a, b, hfront, hbehind, hcut⟩ := restAll_cut hmem
  have ha : a = "'é'".toList :=
    Option.some.inj (hfront.symm.trans (show _ = some "'é'".toList by decide +kernel))
  have hb : b = "-1§".toList :=
    Option.some.inj (hbehind.symm.trans (show _ = some "-1§".toList by decide +kernel))
  rw [ha, hb] at hcut
  exact hcut

end GeneratedKeys
