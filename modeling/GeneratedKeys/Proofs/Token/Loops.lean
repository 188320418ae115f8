import GeneratedKeys.Proofs.Text.Rounds
import GeneratedKeys.Proofs.Token.Faultless

/-!
# `GeneratedKeys.Proofs.Token.Loops`: the loops by which a text is cut into tokens

A token is found by loops over the characters ahead: one passes all characters of a class, one looks
for the quote that ends a literal, one for the two characters that end a comment or an alternative
string. The tokens themselves are handed out by a loop as well. None of the loops goes round without
taking a character.

* `computes_passRound`, `computes_quoteRound`, `computes_behindClose?`, `computes_behindBlock?`:
  what the loops over characters compute.
* `leftByLoops`: the tokens leave of a text what their loops leave of it.
* `Lexer.shrinks_next`: before the end of the text the next token has a character.
* `Lexer.computes_handRound`: the loop over tokens hands out what is left at once.
-/

set_option autoImplicit false

namespace GeneratedKeys

namespace Scan

/-! ### Loops over characters -/

/-- A round that passes a character that satisfies `p`. The loop of such rounds is what `dropWhile`
computes. -/
def passRound (p : Char → Bool) : Text → Round Text Text
  | [] => .leave []
  | c :: t => if p c then .again t else .leave (c :: t)

/-- The loop that passes characters comes to what is left behind their run. It serves blanks, names,
digits and line comments alike. -/
theorem computes_passRound (p : Char → Bool) :
    Computes (passRound p) id (List.dropWhile p) := by
  refine computes_of_keeps fun t => ?_
  cases t with
  | nil => rfl
  | cons c t =>
      rw [passRound]
      split
      · next hc => exact ⟨shrinks_cons c t, (List.dropWhile_cons_of_pos hc).symm⟩
      · next hc => exact List.dropWhile_cons_of_neg hc

/-- A round that looks for the quote `q`, which is passed where it is doubled. The loop is left
behind the quote, or without a result at the end of the text. -/
def quoteRound (q : Char) : Text → Round Text (Option Text)
  | [] => .leave none
  | [c] => if c = q then .leave (some []) else .again []
  | c :: d :: t =>
    if c = q then if d = q then .again t else .leave (some (d :: t)) else .again (d :: t)

/-- What stands behind a literal that the quote `q` ends, if there is a closing one. The loop over
the characters of the literal comes to the same place. -/
def behindQuote? (q : Char) (t : Text) : Option Text :=
  (inside? q t).map fun s => t.drop (s.length + 1)

/-- The loop that looks for the closing quote comes to what stands behind it. A quote that is
doubled is passed in one round with its double, which is why the rounds and the recursion of
`inside?` agree step by step. -/
theorem computes_quoteRound (q : Char) : Computes (quoteRound q) id (behindQuote? q) := by
  refine computes_of_keeps fun t => ?_
  match t with
  | [] => rfl
  | [c] =>
      rw [quoteRound]
      split
      -- The last character is the quote, with nothing behind it.
      · next hc => simp [Round.Keeps, behindQuote?, inside?, hc]
      · next hc => exact ⟨shrinks_cons c [], by simp [behindQuote?, inside?, hc]⟩
  | c :: d :: t =>
      rw [quoteRound]
      split
      · next hc =>
        split
        · next hd =>
          -- A doubled quote: both characters are passed in this round.
          refine ⟨⟨c, [d], rfl⟩, ?_⟩
          simp only [behindQuote?, inside?, hc, hd, if_true, Option.map_map]
          rfl
        · next hd => simp [Round.Keeps, behindQuote?, inside?, hc, hd]
      · next hc =>
        refine ⟨shrinks_cons c (d :: t), ?_⟩
        simp only [behindQuote?, inside?, hc, if_false, Option.map_map]
        rfl

/-- A round that looks for the character `c` with `d` behind it. The loop is left behind the two, or
without a result at the end of the text. -/
def pairRound (c d : Char) : Text → Round Text (Option Text)
  | [] => .leave none
  | [_] => .again []
  | x :: y :: t => if x = c ∧ y = d then .leave (some t) else .again (y :: t)

/-- What stands behind an alternative string that `close` and a quote end, if it is ended at all. -/
def behindClose? (close : Char) (t : Text) : Option Text :=
  (before? close t).map fun s => t.drop (s.length + 2)

/-- What stands behind a block comment, if its closing mark is there. -/
def behindBlock? (t : Text) : Option Text :=
  (blockLength? t).map t.drop

/-- The loop that looks for a closing character with a quote behind it comes to what stands behind
the two. -/
theorem computes_behindClose? (close : Char) :
    Computes (pairRound close '\x27') id (behindClose? close) := by
  refine computes_of_keeps fun t => ?_
  match t with
  | [] => rfl
  | [x] => exact ⟨shrinks_cons x [], rfl⟩
  | x :: y :: t =>
      rw [pairRound]
      split
      · next h => simp [Round.Keeps, behindClose?, before?, h]
      · next h =>
        refine ⟨shrinks_cons x (y :: t), ?_⟩
        simp only [behindClose?, before?, h, if_false, Option.map_map]
        rfl

/-- The loop that looks for the closing mark of a block comment comes to what stands behind it. -/
theorem computes_behindBlock? : Computes (pairRound '*' '/') id behindBlock? := by
  refine computes_of_keeps fun t => ?_
  match t with
  | [] => rfl
  | [x] => exact ⟨shrinks_cons x [], rfl⟩
  | x :: y :: t =>
      rw [pairRound]
      split
      · next h => simp [Round.Keeps, behindBlock?, blockLength?, h]
      · next h =>
        refine ⟨shrinks_cons x (y :: t), ?_⟩
        simp only [behindBlock?, blockLength?, h, if_false, Option.map_map]
        rfl

/-! ### What tokens leave is what their loops leave -/

/-- The tokens with loops leave what is ahead where their loops are left. Where a closing mark is
missing nothing is left. -/
structure LeftByLoops : Prop where
  word : ∀ (c : Char) (t : Text), t.drop (word c t).extra = t.dropWhile isNamePart
  number : ∀ (sign : Bool) (t : Text), t.drop (number sign t).extra =
    if startsFraction (t.dropWhile Char.isDigit)
    then ((t.dropWhile Char.isDigit).drop 1).dropWhile Char.isDigit
    else t.dropWhile Char.isDigit
  lineComment : ∀ t : Text,
    t.drop (lineComment t).extra = (t.drop 1).dropWhile fun c => !isLineEnd c
  blockComment : ∀ t : Text, t.drop (blockComment t).extra = (behindBlock? (t.drop 1)).getD []
  string : ∀ t : Text, t.drop (string t).extra = (behindQuote? '\x27' t).getD []
  quotedIdentifier : ∀ t : Text, t.drop (quotedIdentifier t).extra = (behindQuote? '"' t).getD []
  binaryString : ∀ t : Text,
    t.drop (binaryString t).extra = (behindQuote? '\x27' (t.drop 1)).getD []
  alternativeString : ∀ (t : Text) (o : Char) (body : Text), t.drop 1 = o :: body →
    t.drop (alternativeString t).extra = (behindClose? (partner o) body).getD []

/-- Each token with a loop is as long as its loops go. Those with one closing mark have one loop,
and a number has up to two. -/
theorem leftByLoops : LeftByLoops where
  word c t := by rw [extra_word, drop_length_takeWhile]
  number sign t := by
    -- With a fraction there is a second loop behind the point.
    by_cases hf : startsFraction (t.dropWhile Char.isDigit) = true
    · simp only [Scan.number, fractionLength?, hf, if_true]
      rw [← List.drop_drop, drop_length_takeWhile, ← List.drop_drop, drop_length_takeWhile]
    · simp only [Scan.number, fractionLength?, hf]
      exact drop_length_takeWhile _ t
  lineComment t := by rw [Scan.lineComment, ← List.drop_drop, drop_length_takeWhile]
  blockComment t := by
    rw [Scan.blockComment, behindBlock?]
    cases blockLength? (t.drop 1) with
    | none => exact List.drop_length
    | some n => exact List.drop_drop.symm
  string t := by
    rw [Scan.string, behindQuote?]
    cases inside? '\x27' t with
    | none => exact List.drop_length
    | some s => rfl
  quotedIdentifier t := by
    rw [Scan.quotedIdentifier, behindQuote?]
    cases inside? '"' t with
    | none => exact List.drop_length
    | some s => rfl
  binaryString t := by
    rw [Scan.binaryString, behindQuote?]
    cases inside? '\x27' (t.drop 1) with
    | none => exact List.drop_length
    | some s =>
        rw [Option.map_some, Option.getD_some, List.drop_drop, Nat.add_comm 1]
        -- Digits or not, the string ends at the same quote.
        dsimp only
        split <;> rfl
  alternativeString t o body ho := by
    have hbody : body = t.drop 2 := by
      rw [← List.drop_drop (i := 1) (j := 1), ho]
      rfl
    simp only [Scan.alternativeString, ho, behindClose?]
    cases before? (partner o) body with
    | none => exact List.drop_length
    | some s =>
        rw [Option.map_some, Option.getD_some, hbody, List.drop_drop, Nat.add_comm 2]

end Scan

/-! ### The loop over the tokens -/

namespace Lexer

/-- Before the end of the text the next token has a character, and takes what it has. -/
theorem shrinks_next {l : Lexer} (h : l.rest ≠ []) :
    l.next.1.text ++ l.next.2.rest = l.rest ∧ Shrinks l.rest l.next.2.rest := by
  obtain ⟨offset, rest, problems⟩ := l
  cases rest with
  | nil => exact absurd rfl h
  | cons c t =>
      have hrest : (firstToken offset c t).text ++ t.drop (scan c t).extra = c :: t := by
        rw [firstToken, List.cons_append, List.take_append_drop]
      rw [next_cons]
      exact ⟨hrest, c, t.take (scan c t).extra, hrest.symm⟩

/-- The tokens that are left, the hidden ones only if they are to be kept. The loops that hand out
many tokens differ in this flag and in nothing else. -/
def restKept (keep : Bool) (l : Lexer) : List Token × Lexer :=
  if keep then l.restAll else l.restVisible

/-- Both ways to ask for all tokens are one list, filtered or not, and end at the same place. -/
theorem restKept_eq (keep : Bool) (l : Lexer) : l.restKept keep =
    (l.restAll.1.filter fun x => keep || !x.isHidden, l.restAll.2) := by
  cases keep with
  | true => exact Prod.ext (List.filter_eq_self.2 fun x _ => rfl).symm rfl
  | false => rfl

/-- A round that hands out the next token, behind those handed out before. The loop is left at the
token of the end. -/
def handRound (keep : Bool) : List Token × Lexer → Round (List Token × Lexer) (List Token × Lexer)
  | (ts, l) =>
    let ts' := ts ++ [l.next.1].filter fun x => keep || !x.isHidden
    if l.next.1.isEof then .leave (ts', l.next.2) else .again (ts', l.next.2)

/-- At the end of the text all that is left is the token of the end. -/
theorem restAll_nil (offset : Nat) (problems : Diagnostics) :
    restAll ⟨offset, [], problems⟩ = ([.atEnd offset], ⟨offset, [], problems⟩) := by
  simp [restAll, lexicalProblems]

/-- The loop that hands out tokens comes to all tokens that are left, behind those it has handed out
before. It ends, because every token but the last one takes a character. -/
theorem computes_handRound (keep : Bool) :
    Computes (handRound keep) (fun s => s.2.rest)
      fun s => (s.1 ++ (s.2.restKept keep).1, (s.2.restKept keep).2) := by
  refine computes_of_keeps fun s => ?_
  obtain ⟨ts, offset, rest, problems⟩ := s
  cases rest with
  | nil =>
      -- The end is handed out, and the loop is left with it.
      show (_, _) = (_, _)
      rw [restKept_eq, restAll_nil]
      rfl
  | cons c t =>
      -- A token in front of the end is not the end, so the loop goes on.
      have heof : (firstToken offset c t).isEof = false := by
        rw [Token.isEof, beq_eq_false_iff_ne]
        exact scan_kind_ne_eof c t
      obtain ⟨-, hshrinks⟩ := shrinks_next (l := ⟨offset, c :: t, problems⟩) (List.cons_ne_nil c t)
      rw [next_cons] at hshrinks
      simp only [handRound, next_cons, heof, Bool.false_eq_true, if_false]
      refine ⟨hshrinks, ?_⟩
      dsimp only
      rw [restKept_eq, restKept_eq, restAll_cons, next_cons, List.append_assoc,
        ← List.filter_append]
      rfl

end Lexer

end GeneratedKeys
