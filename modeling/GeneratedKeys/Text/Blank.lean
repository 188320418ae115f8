import GeneratedKeys.Text.Basic

/-!
# `GeneratedKeys.Text.Blank`: blank characters and trimming

Names, version texts and statement ends are trimmed of blanks in the sense of the
Unicode property White_Space. The lexer's own notion of blank is narrower and
lives with the lexer.

* `isBlank_of_isWhitespace`: the blanks of the core library are among them.
* `trimEnd_append_blank`: trimming removes a blank tail and nothing before it.
-/

set_option autoImplicit false

namespace GeneratedKeys

/-- The Unicode property White_Space, as a list of code points. It is wider than the blanks that the
lexer passes over, and wider than those of the core library. -/
def isBlank (c : Char) : Bool :=
  let n := c.toNat
  (9 ≤ n && n ≤ 13) || n == 0x20 || n == 0x85 || n == 0xA0 || n == 0x1680
    || (0x2000 ≤ n && n ≤ 0x200A) || n == 0x2028 || n == 0x2029 || n == 0x202F
    || n == 0x205F || n == 0x3000

namespace Text

/-- The text without its leading blanks. The first character that is left, if any, is not blank. -/
def trimStart (t : Text) : Text :=
  t.dropWhile isBlank

/-- The text without its trailing blanks, by trimming the reversed text at its beginning. -/
def trimEnd (t : Text) : Text :=
  (t.reverse.dropWhile isBlank).reverse

/-- The text without blanks at either end. Blanks between other characters stay as they are. -/
def trim (t : Text) : Text :=
  trimEnd (trimStart t)

/-- A blank tail is removed, and trimming goes on before it. So it does not matter whether the
blanks behind a statement are cut off in one go or in several. -/
theorem trimEnd_append_blank (t blanks : Text) (h : ∀ c ∈ blanks, isBlank c = true) :
    trimEnd (t ++ blanks) = trimEnd t := by
  simp only [trimEnd, List.reverse_append]
  rw [List.dropWhile_append_of_pos fun c hc => h c (List.mem_reverse.1 hc)]

/-- A text that ends in a character other than a blank is left as it is. This decides the case of a
statement that ends in its semicolon. -/
theorem trimEnd_append_singleton (t : Text) (c : Char) (h : isBlank c = false) :
    trimEnd (t ++ [c]) = t ++ [c] := by
  simp [trimEnd, h]

/-- There is nothing to trim from the empty text. -/
@[simp] theorem trimEnd_nil : trimEnd [] = [] := rfl

/-- A text without blanks is left as it is. Names and numbers that are written without blanks need
no trimming. -/
theorem trim_eq_self {t : Text} (h : ∀ c ∈ t, isBlank c = false) : trim t = t := by
  have hkeep : ∀ u : Text, (∀ c ∈ u, isBlank c = false) → u.dropWhile isBlank = u := by
    intro u hu
    cases u with
    | nil => rfl
    | cons c u => rw [List.dropWhile_cons_of_neg (by simp [hu c (List.mem_cons_self ..)])]
  rw [trim, trimStart, hkeep t h, trimEnd, hkeep t.reverse fun c hc => h c (List.mem_reverse.1 hc),
    List.reverse_reverse]

/-- What is trimmed from the end is blank: the text is its trimmed form followed by blanks only. -/
theorem exists_trimEnd_append (t : Text) :
    ∃ blanks, (∀ c ∈ blanks, isBlank c = true) ∧ t = trimEnd t ++ blanks := by
  refine ⟨(t.reverse.takeWhile isBlank).reverse, fun c hc => ?_, ?_⟩
  · exact List.all_eq_true.1 List.all_takeWhile c (List.mem_reverse.1 hc)
  · rw [trimEnd, ← List.reverse_append, List.takeWhile_append_dropWhile, List.reverse_reverse]

end Text

/-- The four blanks that the library knows are blanks of Unicode too, so what trims more trims them
as well. -/
theorem isBlank_of_isWhitespace (c : Char) (h : c.isWhitespace = true) : isBlank c = true := by
  simp only [Char.isWhitespace, Bool.or_eq_true, decide_eq_true_eq] at h
  rcases h with ((h | h) | h) | h <;> subst h <;> decide

end GeneratedKeys
