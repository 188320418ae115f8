import GeneratedKeys.Text.Basic

/-!
# `GeneratedKeys.Text.Escaped`: text shown on one line

A token listing shows each token on a line of its own, so line ends, control
characters and other characters without a shape of their own are written as
escapes. The same escapes, between double quotes, show a decoded value.

A message keeps its line ends and everything else but the characters that could
steer the terminal it is shown on.

* `steersTerminal_of_mem_disarmed`: no character that could do so is left.
* `disarmed_eq_self`: a text without such a character is shown as it is.
-/

set_option autoImplicit false

namespace GeneratedKeys

/-- The characters of Unicode without a shape: controls, format, private-use and separator
characters, the plain space apart, and the property Default_Ignorable_Code_Point, which
adds fillers and variation selectors. -/
def shapeless : List (Nat × Nat) :=
  [
    (0x00, 0x1F), (0x7F, 0xA0), (0xAD, 0xAD), (0x34F, 0x34F), (0x600, 0x605), (0x61C, 0x61C),
    (0x6DD, 0x6DD), (0x70F, 0x70F), (0x890, 0x891), (0x8E2, 0x8E2), (0x115F, 0x1160),
    (0x1680, 0x1680), (0x17B4, 0x17B5), (0x180B, 0x180F), (0x2000, 0x200F), (0x2028, 0x202F),
    (0x205F, 0x206F), (0x3000, 0x3000), (0x3164, 0x3164), (0xE000, 0xF8FF), (0xFE00, 0xFE0F),
    (0xFEFF, 0xFEFF), (0xFFA0, 0xFFA0), (0xFFF0, 0xFFFB), (0x110BD, 0x110BD),
    (0x110CD, 0x110CD), (0x13430, 0x1343F), (0x1BCA0, 0x1BCA3), (0x1D173, 0x1D17A),
    (0xE0000, 0xE0FFF), (0xF0000, 0xFFFFD), (0x100000, 0x10FFFD)
  ]

/-- Whether a code point is reserved for use inside programs: the last two of each plane
and a block of 32 in the first one. -/
def isNoncharacter (n : Nat) : Bool :=
  0xFFFE ≤ n % 0x10000 || (0xFDD0 ≤ n && n ≤ 0xFDEF)

/-- Whether a character is shown by its code point, because it has no shape of its own or is
reserved for use inside programs. -/
def isShapeless (c : Char) : Bool :=
  (shapeless.any fun r => r.1 ≤ c.toNat && c.toNat ≤ r.2) || isNoncharacter c.toNat

/-- A character by its code point: a backslash, the letter `u`, and the number in hexadecimal digits
between braces. -/
def codePointEscape (c : Char) : Text :=
  "\\u\x7b".toList ++ Nat.toDigits 16 c.toNat ++ ['\x7d']

/-- One character, escaped if it is a line end, a backslash, one of `quotes` or has
no shape. -/
def escapeChar (quotes : List Char) (c : Char) : Text :=
  if c = '\x00' then ['\\', '0']
  else if c = '\t' then ['\\', 't']
  else if c = '\r' then ['\\', 'r']
  else if c = '\n' then ['\\', 'n']
  else if c = '\\' || quotes.contains c then ['\\', c]
  else if isShapeless c then codePointEscape c
  else [c]

/-- The ASCII controls that can steer a terminal: bell, backspace, form feed, escape
and delete. -/
def asciiSteering : List Char :=
  ['\x07', '\x08', '\x0c', '\x1b', '\x7f']

/-- Whether a character is a control of the second block, U+0080 to U+009F. Some terminals read
these as the beginning of a command. -/
def isLateControl (c : Char) : Bool :=
  0x80 ≤ c.toNat && c.toNat ≤ 0x9F

/-- Whether a character can steer a terminal. These are the only characters that a message does not
show as they are. -/
def steersTerminal (c : Char) : Bool :=
  asciiSteering.contains c || isLateControl c

/-- One character of a message. An ASCII control that could steer the terminal is shown
by two digits, a later one by its code point. -/
def disarmChar (c : Char) : Text :=
  if asciiSteering.contains c then
    ['\\', 'x', Nat.digitChar (c.toNat / 16), Nat.digitChar (c.toNat % 16)]
  else if isLateControl c then codePointEscape c
  else [c]

namespace Text

/-- The text with backslashes and both kinds of quotes escaped, as a token listing shows the piece
that a token covers. -/
def escaped (t : Text) : Text :=
  t.flatMap (escapeChar ['\x27', '"'])

/-- The text between double quotes, as a token listing shows a decoded value. A single quote inside
stands for itself, since it cannot end the value. -/
def shown (t : Text) : Text :=
  '"' :: t.flatMap (escapeChar ['"']) ++ ['"']

/-- The text of a message, without the power to steer a terminal. Line ends and all other characters
stay, so an ordinary message is not changed at all. -/
def disarmed (t : Text) : Text :=
  t.flatMap disarmChar

/-- Characters are escaped one by one, so the parts of a text can be escaped apart. -/
theorem escaped_append (s t : Text) : escaped (s ++ t) = escaped s ++ escaped t := by
  simp [escaped]

/-- The same holds for messages, so a message can be put together from parts that are disarmed. -/
theorem disarmed_append (s t : Text) : disarmed (s ++ t) = disarmed s ++ disarmed t := by
  simp [disarmed]

end Text

/-- A character that cannot steer the terminal is shown as it is, line ends included. -/
theorem disarmChar_eq_self {c : Char} (h : steersTerminal c = false) : disarmChar c = [c] := by
  rw [steersTerminal, Bool.or_eq_false_iff] at h
  simp only [disarmChar, h.1, h.2, Bool.false_eq_true, if_false]

/-- No digit of an escape steers the terminal, whatever the number. Above the digits there is a
star, which does not either. -/
theorem steersTerminal_digitChar (n : Nat) : steersTerminal (Nat.digitChar n) = false := by
  by_cases h : n < 16
  · have digits : ∀ k < 16, steersTerminal (Nat.digitChar k) = false := by decide
    exact digits n h
  · have star : Nat.digitChar n = '*' := by
      unfold Nat.digitChar
      iterate 16 rw [if_neg (by omega)]
    rw [star]
    rfl

/-- So a number that is written out cannot steer it, and a code point can be shown by its number. -/
theorem steersTerminal_of_mem_toDigits {b n : Nat} {d : Char} (hb : 1 < b)
    (hd : d ∈ Nat.toDigits b n) : steersTerminal d = false := by
  induction n using Nat.strongRecOn with
  | ind n ih =>
    rw [Nat.toDigits_eq_if hb] at hd
    split at hd
    next => rw [List.mem_singleton.1 hd, steersTerminal_digitChar]
    next h =>
      rcases List.mem_append.1 hd with hd | hd
      · exact ih _ (Nat.div_lt_self (by omega) hb) hd
      · rw [List.mem_singleton.1 hd, steersTerminal_digitChar]

/-- Neither the marks nor the digits of an escape steer the terminal, so escaping a character never
brings in another one to be escaped. -/
theorem steersTerminal_of_mem_codePointEscape {c d : Char} (hd : d ∈ codePointEscape c) :
    steersTerminal d = false := by
  rw [codePointEscape, List.mem_append, List.mem_append] at hd
  rcases hd with (hd | hd) | hd
  · have marks : ∀ d ∈ ['\\', 'u', '\x7b'], steersTerminal d = false := by simp; decide
    exact marks d hd
  · exact steersTerminal_of_mem_toDigits (by decide) hd
  · rw [List.mem_singleton.1 hd]
    rfl

/-- What a character is shown as cannot steer the terminal. There are three cases: a control is
shown by two digits, a later one by its code point, and any other character steers nothing itself.
-/
theorem steersTerminal_of_mem_disarmChar {c d : Char} (hd : d ∈ disarmChar c) :
    steersTerminal d = false := by
  rw [disarmChar] at hd
  split at hd
  next =>
    -- The escape of an ASCII control: a backslash, an x and two digits.
    simp only [List.mem_cons, List.not_mem_nil, or_false] at hd
    rcases hd with rfl | rfl | rfl | rfl
    · rfl
    · rfl
    · exact steersTerminal_digitChar _
    · exact steersTerminal_digitChar _
  next h =>
    split at hd
    next => exact steersTerminal_of_mem_codePointEscape hd
    next hc =>
      -- Neither test has held, and they are all that steering means.
      rw [List.mem_singleton.1 hd, steersTerminal, Bool.or_eq_false_iff]
      exact ⟨Bool.eq_false_iff.2 h, Bool.eq_false_iff.2 hc⟩

namespace Text

/-- No character that could steer the terminal is left in a message, whatever the text was. Each
character of the result comes from one character of the text. -/
theorem steersTerminal_of_mem_disarmed {t : Text} {d : Char} (hd : d ∈ disarmed t) :
    steersTerminal d = false := by
  obtain ⟨c, -, h⟩ := List.mem_flatMap.1 hd
  exact steersTerminal_of_mem_disarmChar h

/-- A text without such a character is shown as it is, so nothing but the dangerous characters is
ever replaced. -/
theorem disarmed_eq_self {t : Text} (h : ∀ c ∈ t, steersTerminal c = false) : disarmed t = t := by
  induction t with
  | nil => rfl
  | cons c t ih =>
    have hc := disarmChar_eq_self (h c List.mem_cons_self)
    have ht := ih fun d hd => h d (List.mem_cons_of_mem c hd)
    rw [disarmed, List.flatMap_cons, hc]
    exact congrArg (c :: ·) ht

end Text

end GeneratedKeys
