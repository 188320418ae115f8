import GeneratedKeys.Keys.Version
import Mathlib.Data.List.TakeWhile
import Mathlib.Data.Nat.Digits.Defs
import Mathlib.Data.Prod.Lex
import Mathlib.Tactic.IntervalCases
import Mathlib.Tactic.Ring

/-!
# `GeneratedKeys.Proofs.Keys.Versions`: the texts that mean a server version

A version is written as one decimal number or as two with a point between. Reading splits the
trimmed text at its first point and adds up digits from the left; what a text means is said here
without either, by the values of its digits and their places.

* `Text.number?_eq_some_iff`: which texts are read as a number below a bound.
* `ServerVersion.versionText_iff`: the two halves of a text, and the version that it means.
* `version_texts`: which texts are read as which version, that written versions are read back, and
  that versions are compared number by number.
-/

set_option autoImplicit false

namespace GeneratedKeys

/-! ### Decimal numbers -/

/-- The value of decimal digits, the most significant one first. Leading zeros add nothing to it. -/
def digitsValue (ds : List (Fin 10)) : Nat :=
  Nat.ofDigits 10 (ds.reverse.map Fin.val)

/-- Decimal digits as they are written. Every text of digits is of this form. -/
def digitsText (ds : List (Fin 10)) : Text :=
  ds.map fun d : Fin 10 => Nat.digitChar d.val

/-- A text that is a decimal number: one or more digits, with or without a plus sign in front. Any
number of them may be leading zeros. -/
inductive Numeral : Text → Nat → Prop where
  | unsigned {ds : List (Fin 10)} : ds ≠ [] → Numeral (digitsText ds) (digitsValue ds)
  | signed {ds : List (Fin 10)} : ds ≠ [] → Numeral ('+' :: digitsText ds) (digitsValue ds)

/-- The first digit counts as many tens as there are digits behind it. -/
theorem digitsValue_cons (d : Fin 10) (ds : List (Fin 10)) :
    digitsValue (d :: ds) = d * 10 ^ ds.length + digitsValue ds := by
  simp only [digitsValue, List.map_reverse, List.map_cons, Nat.ofDigits_reverse_cons,
    List.length_map]
  rw [Nat.mul_comm, Nat.add_comm]

/-- Adding up digits from the left gives their value, with `n` in front of them moved by as many
places. -/
theorem ofDigitChars_digitsText (ds : List (Fin 10)) (n : Nat) :
    Nat.ofDigitChars 10 (digitsText ds) n = n * 10 ^ ds.length + digitsValue ds := by
  induction ds generalizing n with
  | nil => simp [digitsText, digitsValue]
  | cons d ds ih =>
      have hdigit : (Nat.digitChar d.val).toNat - '0'.toNat = d := by
        revert d
        decide
      have hcons : digitsText (d :: ds) = Nat.digitChar d.val :: digitsText ds := rfl
      rw [hcons, Nat.ofDigitChars_cons, hdigit, ih, digitsValue_cons, List.length_cons,
        Nat.pow_succ]
      ring

/-- Written digits are digits, and no other character is written. -/
theorem isDigit_of_mem_digitsText {ds : List (Fin 10)} {c : Char} (h : c ∈ digitsText ds) :
    c.isDigit = true := by
  obtain ⟨d, -, rfl⟩ := List.mem_map.1 h
  rw [Nat.isDigit_digitChar, decide_eq_true d.isLt]

/-- Every digit is one of ten, which is how a text of digits becomes a list of numbers. -/
theorem exists_digitChar {c : Char} (h : c.isDigit = true) :
    ∃ d : Fin 10, c = Nat.digitChar d.val := by
  have hbounds : 48 ≤ c.toNat ∧ c.toNat ≤ 57 := by
    simpa [Char.isDigit, UInt32.le_iff_toNat_le] using h
  obtain ⟨hlow, hhigh⟩ := hbounds
  rw [← Char.ofNat_toNat c]
  generalize c.toNat = n at hlow hhigh
  interval_cases n
  all_goals decide

/-- A text of digits is the written form of some, so claims about such texts are claims about lists
of digits. -/
theorem exists_digitsText {t : Text} (h : ∀ c ∈ t, c.isDigit = true) :
    ∃ ds, t = digitsText ds := by
  induction t with
  | nil => exact ⟨[], rfl⟩
  | cons c t ih =>
      obtain ⟨d, rfl⟩ := exists_digitChar (h c List.mem_cons_self)
      obtain ⟨ds, rfl⟩ := ih fun e he => h e (List.mem_cons_of_mem _ he)
      exact ⟨d :: ds, rfl⟩

/-- No decimal number has a point in it, so the first point of a version text separates its halves.
-/
theorem Numeral.not_mem {t : Text} {n : Nat} (h : Numeral t n) : '.' ∉ t := by
  have hdigits : ∀ ds, '.' ∉ digitsText ds := fun ds hmem =>
    absurd (isDigit_of_mem_digitsText hmem) (by decide)
  cases h with
  | unsigned => exact hdigits _
  | signed =>
      rw [List.mem_cons, not_or]
      exact ⟨by decide, hdigits _⟩

namespace Text

/-- A sign is told apart from a digit, so it is taken off only where it is one. -/
theorem withoutPlus_cases (t : Text) :
    t = withoutPlus t ∨ t = '+' :: withoutPlus t := by
  unfold withoutPlus
  split
  · exact .inr rfl
  · exact .inl rfl

/-- A text is read as a number below a bound exactly if it is a decimal number and its value lies
below the bound. -/
theorem number?_eq_some_iff {bound n : Nat} {t : Text} :
    number? bound t = some n ↔ Numeral t n ∧ n < bound := by
  -- What a number is read as, once its digits are known.
  have hvalue : ∀ ds, Nat.ofDigitChars 10 (digitsText ds) 0 = digitsValue ds := by
    intro ds
    rw [ofDigitChars_digitsText, Nat.zero_mul, Nat.zero_add]
  have hread : ∀ {u : Text} {ds : List (Fin 10)}, ds ≠ [] → withoutPlus u = digitsText ds →
      digitsValue ds < bound → number? bound u = some (digitsValue ds) := by
    intro u ds hne hu hlt
    rw [number?, hu, hvalue, if_pos]
    refine ⟨?_, ?_, hlt⟩
    · simpa [digitsText] using hne
    · simpa using fun c hc => isDigit_of_mem_digitsText hc
  constructor
  · intro h
    rw [number?] at h
    split at h
    · next hcond =>
      obtain ⟨hne, hall, hlt⟩ := hcond
      obtain ⟨ds, hds⟩ := exists_digitsText (List.all_eq_true.1 hall)
      cases h
      rw [hds, hvalue] at hlt ⊢
      have hds' : ds ≠ [] := by
        rintro rfl
        exact hne hds
      refine ⟨?_, hlt⟩
      rcases withoutPlus_cases t with ht | ht
      · rw [ht, hds]
        exact .unsigned hds'
      · rw [ht, hds]
        exact .signed hds'
    · cases h
  · rintro ⟨hnumeral, hlt⟩
    cases hnumeral with
    | unsigned hne => exact hread hne (withoutPlus_of_digits fun _ => isDigit_of_mem_digitsText) hlt
    | signed hne => exact hread hne rfl hlt

end Text

/-- A written number is one, without a sign and without leading zeros. -/
theorem numeral_decimal (n : Nat) : Numeral (Text.decimal n) n :=
  (Text.number?_eq_some_iff.1 (Text.number?_decimal (Nat.lt_succ_self n))).1

/-- A text is the decimal number of one value only. The other way round a value has many texts, with
leading zeros. -/
theorem Numeral.unique {t : Text} {m n : Nat} (hm : Numeral t m) (hn : Numeral t n) : m = n := by
  have hread : ∀ {k : Nat}, Numeral t k → k ≤ max m n →
      Text.number? (max m n + 1) t = some k := fun hk hle =>
    Text.number?_eq_some_iff.2 ⟨hk, Nat.lt_succ_of_le hle⟩
  have hsame := (hread hm (Nat.le_max_left m n)).symm.trans (hread hn (Nat.le_max_right m n))
  exact Option.some.inj hsame

/-! ### Versions -/

/-- A text that means the version of the two numbers: both of them with a point between, or the
first one alone, which stands for a second number of zero. -/
inductive VersionText : Text → Nat → Nat → Prop where
  | major {t : Text} {m : Nat} : Numeral t m → VersionText t m 0
  | both {t u : Text} {m n : Nat} : Numeral t m → Numeral u n → VersionText (t ++ '.' :: u) m n

namespace ServerVersion

/-- A part of a version is read exactly if it is a decimal number of 32 bits. -/
theorem part?_eq_some_iff {t : Text} {w : UInt32} : part? t = some w ↔ Numeral t w.toNat := by
  have hbound : Nat.pow 2 32 = 4294967296 := rfl
  simp only [part?, Option.map_eq_some_iff, Text.number?_eq_some_iff]
  constructor
  · rintro ⟨n, ⟨hnumeral, hlt⟩, rfl⟩
    rw [UInt32.toNat_ofNat_of_lt' (by simpa [hbound] using hlt)]
    exact hnumeral
  · intro h
    exact ⟨w.toNat, ⟨h, w.toNat_lt⟩, UInt32.ofNat_toNat⟩

/-- What stands in front of the first point, and what stands behind it. -/
theorem halves_append {a : Text} (ha : '.' ∉ a) (b : Text) : halves (a ++ '.' :: b) = (a, b) := by
  have hkeep : ∀ c ∈ a, decide (c ≠ '.') = true := by
    intro c hc
    rw [decide_eq_true_eq]
    rintro rfl
    exact ha hc
  rw [halves, List.dropWhile_append_of_pos hkeep, List.takeWhile_append_of_pos hkeep]
  simp

/-- A text without a point is completed by a zero, so a major version alone is a version. -/
theorem halves_of_not_mem {t : Text} (h : '.' ∉ t) : halves t = (t, ['0']) := by
  have hdrop : t.dropWhile (· ≠ '.') = [] := by
    rw [List.dropWhile_eq_nil_iff]
    intro c hc
    rw [decide_eq_true_eq]
    rintro rfl
    exact h hc
  rw [halves, hdrop]

/-- Both halves of a text are decimal numbers exactly if the text means the version of the two. -/
theorem versionText_iff {t : Text} {m n : Nat} :
    VersionText t m n ↔ Numeral (halves t).1 m ∧ Numeral (halves t).2 n := by
  constructor
  · intro h
    cases h with
    | major hm =>
        rw [halves_of_not_mem hm.not_mem]
        exact ⟨hm, numeral_decimal 0⟩
    | both hm hn =>
        rw [halves_append hm.not_mem]
        exact ⟨hm, hn⟩
  · rintro ⟨hm, hn⟩
    -- With a point there are two numbers, and without one the second is the zero that was added.
    by_cases hmem : '.' ∈ t
    · obtain ⟨a, b, rfl, ha⟩ := List.eq_append_cons_of_mem hmem
      rw [halves_append ha] at hm hn
      exact .both hm hn
    · rw [halves_of_not_mem hmem] at hm hn
      rw [hn.unique (numeral_decimal 0)]
      exact .major hm

/-- A text is read as a version exactly if, without the blanks at its ends, it means the version. -/
theorem ofText?_eq_some_iff {t : Text} {v : ServerVersion} :
    ofText? t = some v ↔ VersionText (Text.trim t) v.major.toNat v.minor.toNat := by
  rw [versionText_iff, ← part?_eq_some_iff, ← part?_eq_some_iff]
  simp only [ofText?]
  split
  · next major minor hmajor hminor =>
    rw [hmajor, hminor]
    cases v
    simp
  · next hnone =>
    simp only [reduceCtorEq, false_iff, not_and]
    intro hmajor hminor
    exact hnone _ _ hmajor hminor

/-- A version is read in the form with errors exactly if it is read in the form without them. -/
theorem ofText_eq_ok_iff {t : Text} {v : ServerVersion} :
    ofText t = .ok v ↔ ofText? t = some v := by
  rw [ofText]
  cases ofText? t <;> simp

/-- A text that is no version is shown as it is, with its blanks. -/
theorem ofText_eq_error_iff {t : Text} {e : KeysError} :
    ofText t = .error e ↔ e = .invalidVersion t ∧ ∀ v, ofText? t ≠ some v := by
  rw [ofText]
  cases ofText? t <;> simp [eq_comm]

/-- A written version has no blanks, so trimming does not change it. -/
theorem isBlank_of_mem_text {v : ServerVersion} {c : Char} (h : c ∈ v.text) :
    isBlank c = false := by
  have hdigit : ∀ d : Fin 10, isBlank (Nat.digitChar d.val) = false := by decide
  have hdecimal : ∀ n, c ∈ Text.decimal n → isBlank c = false := by
    intro n hc
    obtain ⟨d, rfl⟩ := exists_digitChar (Text.isDigit_of_mem_decimal hc)
    exact hdigit d
  rw [text, List.mem_append, List.mem_cons] at h
  rcases h with h | rfl | h
  · exact hdecimal _ h
  · decide
  · exact hdecimal _ h

/-- What is written is read back, for every version, as both of its numbers have 32 bits. -/
theorem ofText?_text (v : ServerVersion) : ofText? v.text = some v := by
  rw [ofText?_eq_some_iff, Text.trim_eq_self fun c => isBlank_of_mem_text]
  exact .both (numeral_decimal _) (numeral_decimal _)

/-- The two numbers of a version, in the order of pairs: the first ones decide unless they are
equal. -/
def numbers (v : ServerVersion) : Nat ×ₗ Nat :=
  toLex (v.major.toNat, v.minor.toNat)

/-- Numbers of 32 bits are compared as natural numbers are. -/
theorem compare_toNat (x y : UInt32) : compare x.toNat y.toNat = compare x y := by
  show compareOfLessAndEq _ _ = compareOfLessAndEq _ _
  simp only [compareOfLessAndEq, UInt32.lt_iff_toNat_lt, UInt32.toNat_inj]

/-- Versions are compared as their pairs of numbers are, the major one first. -/
theorem compare_numbers (v w : ServerVersion) : compare v.numbers w.numbers = compare v w := by
  rw [Prod.Lex.compare_def]
  show (compare v.major.toNat w.major.toNat).then (compare v.minor.toNat w.minor.toNat)
    = (compare v.major w.major).then (compare v.minor w.minor)
  rw [compare_toNat, compare_toNat]

/-- So one version is at most another exactly if its pair is. -/
theorem numbers_le_iff {v w : ServerVersion} : v.numbers ≤ w.numbers ↔ v ≤ w := by
  rw [numbers, numbers, Prod.Lex.toLex_le_toLex]
  show _ ↔ v.major < w.major ∨ (v.major = w.major ∧ v.minor ≤ w.minor)
  rw [UInt32.lt_iff_toNat_lt, UInt32.le_iff_toNat_le, UInt32.toNat_inj]

end ServerVersion

/-- Which texts are read as versions, what is read back, and how versions are ordered. A text is
read exactly if, trimmed, it is one decimal number or two with a point between, all of them of 32
bits; any other text comes back with the error as it is. What a version is written as is read as the
same version. The order of versions is that of the pairs of their numbers. -/
theorem version_texts :
    (∀ t : Text,
      (∀ v, ServerVersion.ofText t = .ok v ↔
        VersionText (Text.trim t) v.major.toNat v.minor.toNat) ∧
      (∀ e, ServerVersion.ofText t = .error e ↔ e = .invalidVersion t ∧
        ∀ m n, VersionText (Text.trim t) m n → 2 ^ 32 ≤ m ∨ 2 ^ 32 ≤ n)) ∧
    (∀ v : ServerVersion, ServerVersion.ofText v.text = .ok v) ∧
    ∀ v w : ServerVersion,
      compare v w = compare v.numbers w.numbers ∧ (v ≤ w ↔ v.numbers ≤ w.numbers) := by
  refine ⟨fun t => ⟨fun v => ?_, fun e => ?_⟩, fun v => ?_, fun v w => ⟨?_, ?_⟩⟩
  · rw [ServerVersion.ofText_eq_ok_iff, ServerVersion.ofText?_eq_some_iff]
  · rw [ServerVersion.ofText_eq_error_iff]
    refine and_congr_right fun _ => ⟨fun h m n hmeans => ?_, fun h v hv => ?_⟩
    · -- Two numbers of 32 bits would be those of a version that is read.
      rw [← not_lt, ← not_lt, ← not_and_or]
      rintro ⟨hm, hn⟩
      refine h ⟨.ofNat m, .ofNat n⟩ (ServerVersion.ofText?_eq_some_iff.2 ?_)
      rwa [UInt32.toNat_ofNat_of_lt' hm, UInt32.toNat_ofNat_of_lt' hn]
    -- A version that is read has numbers of 32 bits.
    · have hbounds := h _ _ (ServerVersion.ofText?_eq_some_iff.1 hv)
      have hmajor := v.major.toNat_lt
      have hminor := v.minor.toNat_lt
      omega
  · rw [ServerVersion.ofText_eq_ok_iff, ServerVersion.ofText?_text]
  · exact (ServerVersion.compare_numbers v w).symm
  · exact ServerVersion.numbers_le_iff.symm

/-- Leading zeros, signs and blanks at the ends do not matter. A second point does, and so does the
first number of 33 bits. -/
example : ServerVersion.ofText " +0004.07\n".toList = .ok ⟨4, 7⟩ ∧
    ServerVersion.ofText "4.0.1".toList = .error (.invalidVersion "4.0.1".toList) ∧
    ServerVersion.ofText " 4294967296".toList = .error (.invalidVersion " 4294967296".toList) := by
  decide +kernel

end GeneratedKeys
