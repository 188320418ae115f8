import GeneratedKeys.Text.Basic

/-!
# `GeneratedKeys.Text.Quoted`: doubling of a quote character

A delimited text writes its delimiter twice wherever it occurs inside. `double`
writes the inside of such a text and `collapse` reads it.

* `collapse_double`: reading gives back what was written.
* `count_double`: the delimiter is written twice and every other character once.
-/

set_option autoImplicit false

namespace GeneratedKeys

namespace Text

/-- The text with every `q` written twice. This is how a delimiter is written inside a literal that
it delimits. -/
def double (q : Char) (t : Text) : Text :=
  t.flatMap fun c => if c = q then [q, q] else [c]

/-- The text with every pair of adjacent `q` read as one, from left to right. -/
def collapse (q : Char) : Text → Text
  | [] => []
  | [c] => [c]
  | c :: d :: t => if c = q ∧ d = q then q :: collapse q t else c :: collapse q (d :: t)

/-- The text between two `q`, with every inner `q` written twice. A reader can then tell the closing
delimiter from an inner one. -/
def quote (q : Char) (t : Text) : Text :=
  q :: double q t ++ [q]

/-- Nothing is doubled in the empty text. -/
@[simp] theorem double_nil (q : Char) : double q [] = [] := rfl

/-- One character is written twice or once, depending on whether it is the delimiter. -/
theorem double_cons (q c : Char) (t : Text) :
    double q (c :: t) = (if c = q then [q, q] else [c]) ++ double q t := rfl

/-- The delimiter is written twice, and this is the only character for which that happens. -/
@[simp] theorem double_cons_self (q : Char) (t : Text) :
    double q (q :: t) = q :: q :: double q t := by
  simp [double_cons]

/-- Every other character is written as it is, also the other kind of quote. -/
@[simp] theorem double_cons_of_ne {q c : Char} (h : c ≠ q) (t : Text) :
    double q (c :: t) = c :: double q t := by
  simp [double_cons, h]

/-- So the parts of a text can be doubled apart, and inductions over a name go character by
character. -/
theorem double_append (q : Char) (s t : Text) : double q (s ++ t) = double q s ++ double q t := by
  simp [double]

/-- Nothing is read from the empty text. -/
@[simp] theorem collapse_nil (q : Char) : collapse q [] = [] := rfl

/-- A pair of delimiters is read as one of them, as `double` has written one as a pair. -/
@[simp] theorem collapse_pair (q : Char) (t : Text) :
    collapse q (q :: q :: t) = q :: collapse q t := by
  simp [collapse]

/-- Every other character is read as it is. Only pairs of the delimiter are read as something else.
-/
@[simp] theorem collapse_cons_of_ne {q c : Char} (h : c ≠ q) (t : Text) :
    collapse q (c :: t) = c :: collapse q t := by
  cases t <;> simp [collapse, h]

/-- Reading gives back what was written: a literal that is made by `double` stands for the text that
it was made from. -/
theorem collapse_double (q : Char) (t : Text) : collapse q (double q t) = t := by
  induction t with
  | nil => rfl
  | cons c t ih =>
    by_cases h : c = q
    · subst h; simp [ih]
    · simp [h, ih]

/-- The delimiter is written twice and every other character once. The number of delimiters in the
doubled text is therefore even. -/
theorem count_double (q x : Char) (t : Text) :
    (double q t).count x = (if x = q then 2 else 1) * t.count x := by
  induction t with
  | nil => simp
  | cons c t ih => by_cases h : c = q <;> by_cases hx : x = c <;> grind [double_cons]

end Text

end GeneratedKeys
