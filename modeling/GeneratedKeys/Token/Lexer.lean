import GeneratedKeys.Diagnostic
import GeneratedKeys.Token.Scan

/-!
# `GeneratedKeys.Token.Lexer`: the tokens of a text

`tokens` cuts a text into its tokens, hidden and faulty ones included. A `Lexer`
hands out the same tokens step by step and keeps the lexical problems met so far.

* `tokensFrom_cons`: the first token of a text is the one that `scan` finds, and the
  others are the tokens of what is left.
* `flatMap_text_tokens`: the texts of the tokens, joined, are the whole text.
* `restAll_cons`: all tokens from a place on are the next one and all from there on.
* `mem_restAll_iff`: all tokens of a text are its pieces and the token of its end.
-/

set_option autoImplicit false

namespace GeneratedKeys

/-- The token at the beginning of `c :: t`, a text that starts at byte `start`. -/
def firstToken (start : Nat) (c : Char) (t : Text) : Token :=
  ⟨(scan c t).kind, c :: t.take (scan c t).extra, start⟩

/-- The tokens of a text, the first of which starts at byte `start`, after `skip` characters that
belong to the token before them. Counting these down makes the recursion structural, as each step
takes one character off the text. -/
def tokensAfter (skip start : Nat) : Text → List Token
  | [] => []
  | c :: t =>
    match skip with
    | 0 => firstToken start c t
        :: tokensAfter (scan c t).extra (firstToken start c t).stop t
    | k + 1 => tokensAfter k start t

/-- The tokens of a text that starts at byte `start`. It is the form in which texts are cut one
token after the other, by `tokensFrom_cons`. -/
def tokensFrom (start : Nat) (t : Text) : List Token :=
  tokensAfter 0 start t

/-- The tokens of a text, hidden and faulty ones included. Joined, their texts are the whole text.
-/
def tokens (t : Text) : List Token :=
  tokensFrom 0 t

/-- The tokens of a text and the token of its end. This is what a lexer hands out, so it is never
empty. -/
def allTokens (t : Text) : List Token :=
  tokens t ++ [.atEnd (Text.size t)]

/-- The lexical problem that a token stands for, at the place of the token. Only error tokens stand
for one. -/
def Token.problem? (t : Token) : Option Diagnostic :=
  t.kind.fault?.map fun fault => ⟨.lexical, fault.message, t.span⟩

/-- The lexical problems of a list of tokens, in the order of the tokens, recorded and counted one
by one. -/
def lexicalProblems (ts : List Token) : Diagnostics :=
  Diagnostics.none.recordAll (ts.filterMap Token.problem?)

/-- A place between two tokens of a text, with the lexical problems met before it. The problems of a
token enter when the token is handed out, not when it is looked at. -/
structure Lexer where
  /-- The byte offset of the place. -/
  offset : Nat
  /-- What is left of the text. -/
  rest : Text
  problems : Diagnostics
  deriving DecidableEq, Repr

namespace Lexer

/-- The place before the first token, with no problem met yet. -/
def ofText (t : Text) : Lexer := ⟨0, t, .none⟩

/-- The place after the token `t`, which must be the next one. Its problem is recorded here, if it
has one. -/
def after (l : Lexer) (t : Token) : Lexer :=
  ⟨t.stop, l.rest.drop t.text.length, l.problems.append (lexicalProblems [t])⟩

/-- The next token and the place after it. At the end that is the token of the end, and the place
stays, however often it is asked for. -/
def next (l : Lexer) : Token × Lexer :=
  match l.rest with
  | [] => (.atEnd l.offset, l)
  | c :: t => (firstToken l.offset c t, l.after (firstToken l.offset c t))

/-- All tokens that are left, the token of the end last, and the place of the end. -/
def restAll (l : Lexer) : List Token × Lexer :=
  let ts := tokensFrom l.offset l.rest
  let size := l.offset + Text.size l.rest
  (ts ++ [.atEnd size], ⟨size, [], l.problems.append (lexicalProblems ts)⟩)

/-- The tokens that are left without the hidden ones. The place reached and the problems are those
of `restAll`, as passing over a token is still reading it. -/
def restVisible (l : Lexer) : List Token × Lexer :=
  let (ts, l') := l.restAll
  (ts.filter fun t => !t.isHidden, l')

end Lexer

/-! ### Cutting a text -/

/-- At the end no token is left, also if characters should still be skipped. -/
@[simp] theorem tokensAfter_nil (skip start : Nat) : tokensAfter skip start [] = [] := by
  cases skip <;> rfl

/-- Skipped characters take no part: counting them down is the same as dropping them first. This
turns the structural recursion into one that goes token by token. -/
theorem tokensAfter_eq (skip start : Nat) (t : Text) :
    tokensAfter skip start t = tokensFrom start (t.drop skip) := by
  induction t generalizing skip with
  | nil => simp [tokensFrom]
  | cons c t ih =>
    cases skip with
    | zero => rfl
    | succ k => rw [tokensAfter, ih, List.drop_succ_cons]

/-- The empty text has no token. The token of the end is added by those who hand out tokens. -/
@[simp] theorem tokensFrom_nil (start : Nat) : tokensFrom start [] = [] := rfl

/-- The first token is the one that `scan` finds; the others are those of what is
left. -/
theorem tokensFrom_cons (start : Nat) (c : Char) (t : Text) :
    tokensFrom start (c :: t) =
      firstToken start c t
        :: tokensFrom (firstToken start c t).stop (t.drop (scan c t).extra) := by
  rw [tokensFrom, tokensAfter, tokensAfter_eq]

/-- Induction over a text token by token: a claim holds of a text if it holds of what is left behind
its first token. The text gets shorter each time, since a token has a character. -/
theorem tokens_induction {motive : Text → Prop} (nil : motive [])
    (cons : ∀ c t, motive (t.drop (scan c t).extra) → motive (c :: t)) (t : Text) : motive t := by
  induction h : t.length using Nat.strongRecOn generalizing t with
  | ind n ih =>
    cases t with
    | nil => exact nil
    | cons c t =>
      refine cons c t (ih _ ?_ _ rfl)
      simp only [← h, List.length_drop, List.length_cons]
      omega

/-- The texts of the tokens, joined, are the whole text, wherever it begins. The induction is on the
text, token by token. -/
theorem flatMap_text_tokensFrom (start : Nat) (t : Text) :
    (tokensFrom start t).flatMap Token.text = t := by
  induction t using tokens_induction generalizing start with
  | nil => rfl
  | cons c t ih =>
    rw [tokensFrom_cons, List.flatMap_cons, ih]
    simp [firstToken]

/-- The tokens of a text cover it without a gap and without an overlap: their texts, joined in
order, are the text. -/
theorem flatMap_text_tokens (t : Text) : (tokens t).flatMap Token.text = t :=
  flatMap_text_tokensFrom 0 t

/-- Moving the beginning of a text moves its tokens, and nothing else about them changes. A scan
looks at characters and never at places. -/
theorem tokensFrom_add (n start : Nat) (t : Text) :
    tokensFrom (start + n) t = (tokensFrom start t).map (Token.shift n) := by
  induction t using tokens_induction generalizing start with
  | nil => rfl
  | cons c t ih =>
    rw [tokensFrom_cons, tokensFrom_cons, List.map_cons, ← ih]
    congr 2
    simp only [firstToken, Token.stop]
    omega

/-- The lexical problems are what the faulty tokens stand for, in the order of the tokens. -/
@[simp] theorem entries_lexicalProblems (ts : List Token) :
    (lexicalProblems ts).entries = ts.filterMap Token.problem? := by
  rw [lexicalProblems, Diagnostics.entries_recordAll]
  rfl

/-- They were recorded one by one, so they are counted. Every later record keeps it so. -/
theorem counted_lexicalProblems (ts : List Token) : (lexicalProblems ts).Counted :=
  Diagnostics.counted_none.recordAll _

/-- The problems of two stretches are recorded one stretch after the other. -/
theorem lexicalProblems_append (ts us : List Token) :
    lexicalProblems (ts ++ us) = (lexicalProblems ts).append (lexicalProblems us) := by
  rw [lexicalProblems, List.filterMap_append, Diagnostics.recordAll_append, lexicalProblems,
    lexicalProblems, Diagnostics.append_recordAll]

/-- The problems of the first token are recorded before those of the others. -/
theorem lexicalProblems_cons (t : Token) (ts : List Token) :
    lexicalProblems (t :: ts) = (lexicalProblems [t]).append (lexicalProblems ts) :=
  lexicalProblems_append [t] ts

namespace Lexer

/-- In front of a character the next token is the one that `scan` finds, and its problem is recorded
if it is faulty. -/
theorem next_cons (offset : Nat) (c : Char) (t : Text) (ps : Diagnostics) :
    next ⟨offset, c :: t, ps⟩ =
      (firstToken offset c t,
        ⟨(firstToken offset c t).stop, t.drop (scan c t).extra,
          ps.append (lexicalProblems [firstToken offset c t])⟩) := by
  simp [next, after, firstToken]

/-- All tokens from a place on are the next one and all from there on. Asking for them at once or
one by one makes no difference. -/
theorem restAll_cons (offset : Nat) (c : Char) (t : Text) (ps : Diagnostics) :
    restAll ⟨offset, c :: t, ps⟩ =
      (firstToken offset c t :: (next ⟨offset, c :: t, ps⟩).2.restAll.1,
        (next ⟨offset, c :: t, ps⟩).2.restAll.2) := by
  have size : (firstToken offset c t).stop + Text.size (t.drop (scan c t).extra)
      = offset + Text.size (c :: t) := by
    have := Text.size_append (t.take (scan c t).extra) (t.drop (scan c t).extra)
    rw [List.take_append_drop] at this
    simp only [firstToken, Token.stop, Text.size_cons]
    omega
  rw [next_cons]
  simp only [restAll, size]
  rw [tokensFrom_cons, lexicalProblems_cons]
  simp [Diagnostics.append, Diagnostics.recordAll_append]

/-- A new lexer hands out all tokens of its text, with the token of the end behind them. -/
theorem restAll_ofText (t : Text) : (ofText t).restAll.1 = allTokens t := by
  show tokens t ++ [Token.atEnd (0 + Text.size t)] = allTokens t
  rw [Nat.zero_add, allTokens]

/-- All tokens of a text are its pieces and the token of its end. Claims about every token are split
into these two cases. -/
theorem mem_restAll_iff {t : Text} {x : Token} :
    x ∈ (ofText t).restAll.1 ↔ x ∈ tokens t ∨ x = .atEnd (Text.size t) := by
  rw [restAll_ofText, allTokens, List.mem_append, List.mem_singleton]

end Lexer

end GeneratedKeys
