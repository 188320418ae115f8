import GeneratedKeys.Token.Lexer

/-!
# `GeneratedKeys.Proofs.Token.Prefixed`: strings with a letter in front

A `q` or an `x` with a single quote behind it begins a string of its own kind. An alternative
string names the character that closes it and holds everything up to the first one with a quote
behind it, quotes and all. A binary string ends like a plain one and holds pairs of digits.

* `searched_before?`, `searched_blockLength?`: what is searched for a closing pair ends at the
  first one.
* `inside?_iff_upToQuote`: what is searched for a quote ends at the first one not doubled.
* `next_alternative`, `next_binary`: the next token behind either letter.
* `next_prefixed`: both, for every lexer and every text behind the quote.
-/

set_option autoImplicit false

namespace GeneratedKeys

open Scan

/-! ### The first pair -/

/-- In `t` the first `d` with `e` behind it stands behind `v`, and `rest` is behind the two. Pairs
may overlap, so the first one is the first in the order of the text, wherever others begin. -/
def FirstPair (d e : Char) (t v rest : Text) : Prop :=
  t = v ++ d :: e :: rest ∧ ∀ v' rest', t = v' ++ d :: e :: rest' → v.length ≤ v'.length

section FirstPair

variable {c d e : Char} {t v rest : Text}

/-- A pair at the beginning is the first one. -/
theorem firstPair_here : FirstPair d e (d :: e :: t) [] t :=
  ⟨rfl, fun _ _ _ => Nat.zero_le _⟩

/-- A character at which no pair begins only moves the first pair on. -/
theorem FirstPair.cons (hc : ¬ [d, e] <+: c :: t) (h : FirstPair d e t v rest) :
    FirstPair d e (c :: t) (c :: v) rest := by
  obtain ⟨rfl, hfirst⟩ := h
  refine ⟨rfl, fun v' rest' ht => ?_⟩
  cases v' with
  | nil => exact absurd ⟨rest', ht.symm⟩ hc
  | cons c' v' =>
      rw [List.cons_append, List.cons.injEq] at ht
      exact Nat.succ_le_succ (hfirst v' rest' ht.2)

/-- There is only one first pair: what stands in front of it is the same for any two of them. -/
theorem FirstPair.eq {v' rest' : Text} (h : FirstPair d e t v rest)
    (h' : FirstPair d e t v' rest') : v = v' ∧ rest = rest' := by
  have hlength : v.length = v'.length :=
    Nat.le_antisymm (h.2 v' rest' h'.1) (h'.2 v rest h.1)
  obtain ⟨hv, hpair⟩ := List.append_inj (h.1.symm.trans h'.1) hlength
  simp only [List.cons.injEq, true_and] at hpair
  exact ⟨hv, hpair⟩

/-- Where there is a first pair, there is a pair, at the place that was found. -/
theorem FirstPair.infix (h : FirstPair d e t v rest) : [d, e] <:+: t :=
  ⟨v, rest, by rw [h.1, List.append_assoc]; rfl⟩

/-- In front of the first pair there is none, also none that would reach into it by one character.
-/
theorem FirstPair.not_infix (h : FirstPair d e t v rest) : ¬ [d, e] <:+: v := by
  rintro ⟨a, b, rfl⟩
  have hle := h.2 a (b ++ d :: e :: rest) (by rw [h.1]; simp)
  simp only [List.length_append, List.length_cons, List.length_nil] at hle
  omega

/-- `o` is what stands in front of the first pair in `t`, if there is one. -/
def Searched (d e : Char) (t : Text) : Option Text → Prop
  | some v => ∃ rest, FirstPair d e t v rest
  | none => ¬ [d, e] <:+: t

/-- There is no pair in an empty text. -/
theorem searched_nil : Searched d e [] none := fun h => by simpa using h.length_le

/-- There is none in a single character, as a pair needs two. -/
theorem searched_single : Searched d e [c] none := fun h => by simpa using h.length_le

/-- A pair at the beginning has nothing in front of it. -/
theorem searched_here : Searched d e (d :: e :: t) (some []) := ⟨t, firstPair_here⟩

/-- Where no pair begins, the search goes on behind the first character. -/
theorem Searched.cons {c' : Char} {o : Option Text} (hc : ¬ (c = d ∧ c' = e))
    (h : Searched d e (c' :: t) o) : Searched d e (c :: c' :: t) (o.map (c :: ·)) := by
  have hhere : ¬ [d, e] <+: c :: c' :: t := by
    simp only [List.cons_prefix_cons, List.nil_prefix, and_true]
    exact fun h => hc ⟨h.1.symm, h.2.symm⟩
  cases o with
  | none =>
      show ¬ [d, e] <:+: _
      rw [List.infix_cons_iff, not_or]
      exact ⟨hhere, h⟩
  | some v =>
      obtain ⟨rest, hfirst⟩ := h
      exact ⟨rest, hfirst.cons hhere⟩

/-- A search finds what stands in front of a first pair, and only that, since there is one first
pair at most. -/
theorem Searched.eq_some_iff {o : Option Text} (h : Searched d e t o) :
    o = some v ↔ ∃ rest, FirstPair d e t v rest := by
  cases o with
  | none =>
      -- Nothing was found, so there is no pair, and in particular no first one.
      refine iff_of_false (Option.some_ne_none v).symm ?_
      rintro ⟨rest, hfirst⟩
      exact h hfirst.infix
  | some v' =>
      -- What was found stands in front of a first pair, and any other first pair is the same.
      obtain ⟨rest', hfirst'⟩ := h
      rw [Option.some.injEq]
      constructor
      · rintro rfl
        exact ⟨rest', hfirst'⟩
      · rintro ⟨rest, hfirst⟩
        exact (hfirst'.eq hfirst).1

/-- A search finds nothing exactly if there is no pair anywhere, so a literal is faulty only if
nothing could close it. -/
theorem Searched.eq_none_iff {o : Option Text} (h : Searched d e t o) :
    o = none ↔ ¬ [d, e] <:+: t := by
  cases o with
  | none => exact iff_of_true rfl h
  | some v =>
      obtain ⟨rest, hfirst⟩ := h
      exact iff_of_false (Option.some_ne_none v) fun hnone => hnone hfirst.infix

end FirstPair

namespace Scan

/-- What an alternative string holds stands in front of the first close character with a quote
behind it. -/
theorem searched_before? (close : Char) (t : Text) :
    Searched close '\x27' t (before? close t) := by
  induction t using before?.induct close with
  | case1 => exact searched_nil
  | case2 => exact searched_single
  | case3 c d t hc =>
      rw [before?, if_pos hc, hc.1, hc.2]
      exact searched_here
  | case4 c d t hc ih =>
      rw [before?, if_neg hc]
      exact ih.cons hc

/-- A block comment reaches to the first closing mark, with the mark included. If there is none, the
search has failed on every place. -/
theorem searched_blockLength? (t : Text) :
    ∃ o, Searched '*' '/' t o ∧ blockLength? t = o.map fun body => body.length + 2 := by
  induction t using blockLength?.induct with
  | case1 => exact ⟨none, searched_nil, rfl⟩
  | case2 => exact ⟨none, searched_single, rfl⟩
  | case3 c d t hc =>
      rw [blockLength?, if_pos hc, hc.1, hc.2]
      exact ⟨some [], searched_here, rfl⟩
  | case4 c d t hc ih =>
      obtain ⟨o, hsearched, hlength⟩ := ih
      refine ⟨o.map (c :: ·), hsearched.cons hc, ?_⟩
      rw [blockLength?, if_neg hc, hlength, Option.map_map, Option.map_map]
      congr 1

/-- What the scanner takes for the inside of an alternative string is what stands in front of the
first closing pair. -/
theorem before?_eq_some_iff {close : Char} {t v : Text} :
    before? close t = some v ↔ ∃ rest, FirstPair close '\x27' t v rest :=
  (searched_before? close t).eq_some_iff

/-- The scanner finds no end of it exactly if there is no closing pair. -/
theorem before?_eq_none_iff {close : Char} {t : Text} :
    before? close t = none ↔ ¬ [close, '\x27'] <:+: t :=
  (searched_before? close t).eq_none_iff

end Scan

/-! ### The first quote that is not doubled -/

/-- In `t` the first `q` that is not doubled stands behind `h`, and `rest` is behind it. Every
`q` in `h` is doubled. -/
def UpToQuote (q : Char) (t h rest : Text) : Prop :=
  (∃ s, h = Text.double q s) ∧ t = h ++ q :: rest ∧ nextIs (· == q) rest = false

/-- What the scanner takes for the inside of a delimited literal is what stands in front of the
first quote that is not doubled. -/
theorem Scan.inside?_iff_upToQuote {q : Char} {t h : Text} :
    inside? q t = some h ↔ ∃ rest, UpToQuote q t h rest := by
  rw [inside?_eq_some_iff]
  constructor
  · rintro ⟨hdouble, rest, hrest⟩
    exact ⟨rest, ⟨_, hdouble⟩, hrest⟩
  · rintro ⟨rest, ⟨s, rfl⟩, hrest⟩
    exact ⟨by rw [Text.collapse_double], rest, hrest⟩

/-- The scanner finds no end of it exactly if there is no such quote. -/
theorem Scan.inside?_eq_none_iff {q : Char} {t : Text} :
    inside? q t = none ↔ ∀ h rest, ¬ UpToQuote q t h rest := by
  rw [Option.eq_none_iff_forall_ne_some]
  constructor
  · exact fun hnone h rest hquote => hnone h (inside?_iff_upToQuote.2 ⟨rest, hquote⟩)
  · intro hnone h hsome
    obtain ⟨rest, hquote⟩ := inside?_iff_upToQuote.1 hsome
    exact hnone h rest hquote

/-! ### The next token -/

/-- The next token is `text` of the kind `kind`. It is no problem, and `rest` is left. -/
def Lexer.Accepts (l : Lexer) (kind : TokenKind) (text rest : Text) : Prop :=
  l.next = (⟨kind, text, l.offset⟩, ⟨l.offset + Text.size text, rest, l.problems⟩)

/-- The next token is `text`, which is faulty, and `rest` is left. The fault is one more lexical
problem, told at the bytes of the token. -/
def Lexer.Rejects (l : Lexer) (fault : LexicalFault) (text rest : Text) : Prop :=
  l.next = (⟨.error fault, text, l.offset⟩,
    ⟨l.offset + Text.size text, rest,
      l.problems.record ⟨.lexical, fault.message, ⟨l.offset, l.offset + Text.size text⟩⟩⟩)

section Next

variable {offset : Nat} {problems : Diagnostics} {c : Char} {t front rest : Text}

/-- The next token is the lexeme that the text begins with, at the offset of the lexer, and its
problem is recorded if it has one. -/
theorem Lexer.next_of_scan {kind : TokenKind} (ht : t = front ++ rest)
    (h : scan c t = ⟨kind, front.length⟩) :
    Lexer.next ⟨offset, c :: t, problems⟩ =
      (⟨kind, c :: front, offset⟩, ⟨offset + Text.size (c :: front), rest,
        problems.append (lexicalProblems [⟨kind, c :: front, offset⟩])⟩) := by
  subst ht
  have hfirst : firstToken offset c (front ++ rest) = ⟨kind, c :: front, offset⟩ := by
    rw [firstToken, h, List.take_left]
  rw [Lexer.next_cons, hfirst, h, List.drop_left]
  rfl

/-- A lexeme that is no fault is handed out as a token, without a problem. -/
theorem Lexer.accepts_of_scan {kind : TokenKind} (hkind : kind.fault? = none)
    (ht : t = front ++ rest) (h : scan c t = ⟨kind, front.length⟩) :
    Lexer.Accepts ⟨offset, c :: t, problems⟩ kind (c :: front) rest := by
  have hnone : lexicalProblems [⟨kind, c :: front, offset⟩] = .none := by
    simp [lexicalProblems, Token.problem?, hkind]
  rw [Lexer.Accepts, Lexer.next_of_scan ht h, hnone]
  rfl

/-- A lexeme that is a fault is handed out as a faulty token, and its problem is recorded. -/
theorem Lexer.rejects_of_scan {fault : LexicalFault} (ht : t = front ++ rest)
    (h : scan c t = ⟨.error fault, front.length⟩) :
    Lexer.Rejects ⟨offset, c :: t, problems⟩ fault (c :: front) rest := by
  rw [Lexer.Rejects, Lexer.next_of_scan ht h]
  rfl

end Next

/-! ### Both letters -/

/-- A `q` in front of a quote begins an alternative string, not a word. -/
theorem scan_alternative {q : Char} (hq : q ∈ ['q', 'Q']) (t : Text) :
    scan q ('\x27' :: t) = alternativeString ('\x27' :: t) := by
  simp only [List.mem_cons, List.not_mem_nil, or_false] at hq
  rcases hq with rfl | rfl <;> rfl

/-- An `x` in front of a quote begins a binary string, not a word. -/
theorem scan_binary {x : Char} (hx : x ∈ ['x', 'X']) (t : Text) :
    scan x ('\x27' :: t) = binaryString ('\x27' :: t) := by
  simp only [List.mem_cons, List.not_mem_nil, or_false] at hx
  rcases hx with rfl | rfl <;> rfl

/-- The digits of whole bytes: an even number of hexadecimal digits. None at all is allowed, which
is the empty binary string. -/
def HexPairs (h : Text) : Prop :=
  h.length % 2 = 0 ∧ ∀ d ∈ h, isHexDigit d = true

/-- The test of the scanner for the digits of whole bytes. -/
theorem hexPairs_iff {h : Text} :
    (h.all isHexDigit && h.length % 2 == 0) = true ↔ HexPairs h := by
  rw [Bool.and_eq_true, List.all_eq_true, beq_iff_eq, and_comm, HexPairs]

section Letters

variable {offset : Nat} {problems : Diagnostics} {q x o : Char} {s v h rest : Text}

/-- An alternative string needs a character that opens it. At the end of the text there is none, and
one diagnostic says so. -/
theorem rejects_unopened (hq : q ∈ ['q', 'Q']) :
    Lexer.Rejects ⟨offset, [q, '\x27'], problems⟩ .unterminatedString [q, '\x27'] [] :=
  Lexer.rejects_of_scan (List.append_nil _).symm (scan_alternative hq [])

/-- An alternative string ends at the first close character with a quote behind it. -/
theorem accepts_alternative (hq : q ∈ ['q', 'Q'])
    (hfirst : FirstPair (partner o) '\x27' s v rest) :
    Lexer.Accepts ⟨offset, q :: '\x27' :: o :: s, problems⟩ (.string v)
      (q :: '\x27' :: o :: (v ++ [partner o, '\x27'])) rest := by
  have hbefore : before? (partner o) s = some v := before?_eq_some_iff.2 ⟨rest, hfirst⟩
  refine Lexer.accepts_of_scan rfl (by simp [hfirst.1]) ?_
  rw [scan_alternative hq]
  simp [alternativeString, hbefore]

/-- Without such a pair it does not end, and the whole remainder of the text is one faulty token
with one diagnostic. -/
theorem rejects_alternative (hq : q ∈ ['q', 'Q']) (hnone : ¬ [partner o, '\x27'] <:+: s) :
    Lexer.Rejects ⟨offset, q :: '\x27' :: o :: s, problems⟩ .unterminatedString
      (q :: '\x27' :: o :: s) [] := by
  refine Lexer.rejects_of_scan (List.append_nil _).symm ?_
  rw [scan_alternative hq]
  simp [alternativeString, before?_eq_none_iff.2 hnone]

/-- A binary string ends at the first quote that is not doubled and holds pairs of digits. -/
theorem accepts_binary (hx : x ∈ ['x', 'X']) (hquote : UpToQuote '\x27' s h rest)
    (hpairs : HexPairs h) :
    Lexer.Accepts ⟨offset, x :: '\x27' :: s, problems⟩ (.string h)
      (x :: '\x27' :: (h ++ ['\x27'])) rest := by
  have hinside : inside? '\x27' s = some h := inside?_iff_upToQuote.2 ⟨rest, hquote⟩
  refine Lexer.accepts_of_scan rfl (by simp [hquote.2.1]) ?_
  rw [scan_binary hx, binaryString, List.drop_succ_cons, List.drop_zero]
  simp only [hinside, if_pos (hexPairs_iff.2 hpairs)]
  simp

/-- With anything else in it, it is faulty up to that quote. -/
theorem rejects_malformed (hx : x ∈ ['x', 'X']) (hquote : UpToQuote '\x27' s h rest)
    (hpairs : ¬ HexPairs h) :
    Lexer.Rejects ⟨offset, x :: '\x27' :: s, problems⟩ (.malformedBinary h)
      (x :: '\x27' :: (h ++ ['\x27'])) rest := by
  have hinside : inside? '\x27' s = some h := inside?_iff_upToQuote.2 ⟨rest, hquote⟩
  refine Lexer.rejects_of_scan (by simp [hquote.2.1]) ?_
  rw [scan_binary hx, binaryString, List.drop_succ_cons, List.drop_zero]
  simp only [hinside, if_neg (mt hexPairs_iff.1 hpairs)]
  simp

/-- Without such a quote it does not end, and the digits in front play no part in the fault. -/
theorem rejects_binary (hx : x ∈ ['x', 'X']) (hnone : ∀ h rest, ¬ UpToQuote '\x27' s h rest) :
    Lexer.Rejects ⟨offset, x :: '\x27' :: s, problems⟩ .unterminatedBinary
      (x :: '\x27' :: s) [] := by
  refine Lexer.rejects_of_scan (List.append_nil _).symm ?_
  rw [scan_binary hx, binaryString, List.drop_succ_cons, List.drop_zero,
    inside?_eq_none_iff.2 hnone]

end Letters

/-- Behind a `q` and a quote stands a character that opens an alternative string. The string
holds what is in front of the first partner of it with a quote behind; without one, or without
a character that opens, the rest of the text is faulty.

Behind an `x` and a quote stands what is in front of the first quote that is not doubled. It is a
binary string if it consists of pairs of digits, and faulty otherwise; without such a quote the
rest of the text is faulty. -/
theorem next_prefixed (offset : Nat) (problems : Diagnostics) :
    (∀ q ∈ ['q', 'Q'],
      Lexer.Rejects ⟨offset, [q, '\x27'], problems⟩ .unterminatedString [q, '\x27'] [] ∧
      ∀ (o : Char) (s : Text),
        (∀ v rest, FirstPair (partner o) '\x27' s v rest →
          Lexer.Accepts ⟨offset, q :: '\x27' :: o :: s, problems⟩ (.string v)
            (q :: '\x27' :: o :: (v ++ [partner o, '\x27'])) rest) ∧
        (¬ [partner o, '\x27'] <:+: s →
          Lexer.Rejects ⟨offset, q :: '\x27' :: o :: s, problems⟩ .unterminatedString
            (q :: '\x27' :: o :: s) [])) ∧
    ∀ x ∈ ['x', 'X'], ∀ s : Text,
      (∀ h rest, UpToQuote '\x27' s h rest →
        (HexPairs h →
          Lexer.Accepts ⟨offset, x :: '\x27' :: s, problems⟩ (.string h)
            (x :: '\x27' :: (h ++ ['\x27'])) rest) ∧
        (¬ HexPairs h →
          Lexer.Rejects ⟨offset, x :: '\x27' :: s, problems⟩ (.malformedBinary h)
            (x :: '\x27' :: (h ++ ['\x27'])) rest)) ∧
      ((∀ h rest, ¬ UpToQuote '\x27' s h rest) →
        Lexer.Rejects ⟨offset, x :: '\x27' :: s, problems⟩ .unterminatedBinary
          (x :: '\x27' :: s) []) := by
  refine ⟨fun q hq => ⟨rejects_unopened hq, fun o s => ⟨?_, rejects_alternative hq⟩⟩,
    fun x hx s => ⟨fun h rest hquote => ?_, rejects_binary hx⟩⟩
  · exact fun v rest hfirst => accepts_alternative hq hfirst
  · exact ⟨accepts_binary hx hquote, rejects_malformed hx hquote⟩

/-- The close character is compared as written, so a capital does not close what a small letter
opens. A quote that is doubled does not end a binary string, and it is no digit. -/
theorem next_prefixed_cases :
    Lexer.Accepts ⟨7, "Q\x27aéA\x27a\x27a\x27;".toList, .none⟩ (.string "éA\x27".toList)
        "Q\x27aéA\x27a\x27".toList "a\x27;".toList ∧
      Lexer.Rejects ⟨7, "q\x27[a]".toList, .none⟩ .unterminatedString "q\x27[a]".toList [] ∧
      Lexer.Accepts ⟨7, "X\x270aF1\x27x".toList, .none⟩ (.string "0aF1".toList)
        "X\x270aF1\x27".toList "x".toList ∧
      Lexer.Rejects ⟨7, "x\x270\x27\x27f\x27 ".toList, .none⟩ (.malformedBinary "0\x27\x27f".toList)
        "x\x270\x27\x27f\x27".toList " ".toList ∧
      Lexer.Rejects ⟨7, "x\x270f\x27\x27".toList, .none⟩ .unterminatedBinary
        "x\x270f\x27\x27".toList [] := by
  obtain ⟨halternative, hbinary⟩ := next_prefixed 7 .none
  -- The quote behind the capital is no end, since what opens is a small letter.
  have hfirst : FirstPair 'a' '\x27' "éA\x27a\x27a\x27;".toList "éA\x27".toList
      "a\x27;".toList := by
    have hbefore : before? 'a' "éA\x27a\x27a\x27;".toList = some "éA\x27".toList := by decide
    obtain ⟨rest, hfirst⟩ := before?_eq_some_iff.1 hbefore
    have hrest : "a\x27;".toList = rest := by simpa using hfirst.1
    rwa [hrest]
  refine ⟨((halternative 'Q' (by decide)).2 'a' _).1 _ _ hfirst,
    ((halternative 'q' (by decide)).2 '[' _).2 (by decide),
    ((hbinary 'X' (by decide) _).1 "0aF1".toList "x".toList ?_).1 (hexPairs_iff.1 (by decide)),
    ((hbinary 'x' (by decide) _).1 "0\x27\x27f".toList " ".toList ?_).2 ?_,
    (hbinary 'x' (by decide) _).2 (inside?_eq_none_iff.1 (by decide))⟩
  · exact ⟨⟨"0aF1".toList, by decide⟩, rfl, rfl⟩
  · exact ⟨⟨"0\x27f".toList, by decide⟩, rfl, rfl⟩
  · exact fun hpairs => absurd (hpairs.2 '\x27' (by decide)) (by decide)

end GeneratedKeys
