import GeneratedKeys.Text.Basic

/-!
# `GeneratedKeys.Text.Json`: JSON values and their indented layout

The reports of the command line are JSON objects whose members keep a fixed order.
`Json.pretty` lays them out with two blanks per level, one member or element to a
line, and empty arrays and objects closed on the line that opens them.
-/

set_option autoImplicit false

namespace GeneratedKeys

/-- A JSON value. Members of an object keep their order, so that a report lists its members in the
same order each time. -/
inductive Json where
  | null
  | bool (b : Bool)
  | nat (n : Nat)
  | text (t : Text)
  | array (elements : List Json)
  | object (members : List (String × Json))

namespace Json

/-- The value of an optional text: a string if there is a text, and `null` if there is none. -/
def ofText? : Option Text → Json
  | some t => .text t
  | none => .null

/-- The array of the given texts, in their order. No text gives the empty array and not `null`. -/
def ofTexts (ts : List Text) : Json :=
  .array (ts.map .text)

/-- One character inside a JSON string. Only the quote, the backslash and the
characters below the space are escaped. -/
def escapeChar (c : Char) : Text :=
  if c = '"' || c = '\\' then ['\\', c]
  else if c = '\x08' then ['\\', 'b']
  else if c = '\x0c' then ['\\', 'f']
  else if c = '\n' then ['\\', 'n']
  else if c = '\r' then ['\\', 'r']
  else if c = '\t' then ['\\', 't']
  else if c.toNat < 32 then "\\u".toList ++ List.leftpad 4 '0' (Nat.toDigits 16 c.toNat)
  else [c]

/-- A JSON string: the text between double quotes, each character escaped where JSON demands it. -/
def quoted (t : Text) : Text :=
  '"' :: t.flatMap escapeChar ++ ['"']

/-- A line end followed by the indentation of a level, which is two blanks for each level. -/
def newLine (level : Nat) : Text :=
  '\n' :: List.replicate (2 * level) ' '

mutual

/-- The layout of a value that starts at an indentation level. What is inside an array or an object
stands one level deeper, and only an empty one stays on its line. -/
def layout (level : Nat) : Json → Text
  | null => "null".toList
  | bool b => (toString b).toList
  | nat n => Nat.toDigits 10 n
  | text t => quoted t
  | array [] => ['[', ']']
  | array (v :: vs) =>
    '[' :: newLine (level + 1) ++ layout (level + 1) v ++ layoutElements (level + 1) vs
      ++ newLine level ++ [']']
  | object [] => ['\x7b', '\x7d']
  | object ((name, v) :: ms) =>
    '\x7b' :: newLine (level + 1) ++ quoted name.toList ++ [':', ' '] ++ layout (level + 1) v
      ++ layoutMembers (level + 1) ms ++ newLine level ++ ['\x7d']

/-- The elements after the first one, each on a line of its own with a comma in front of the line
end. -/
def layoutElements (level : Nat) : List Json → Text
  | [] => []
  | v :: vs => ',' :: newLine level ++ layout level v ++ layoutElements level vs

/-- The members after the first one, in the same layout as elements, each with its name in front. -/
def layoutMembers (level : Nat) : List (String × Json) → Text
  | [] => []
  | (name, v) :: ms =>
    ',' :: newLine level ++ quoted name.toList ++ [':', ' '] ++ layout level v
      ++ layoutMembers level ms

end

/-- The indented layout of a whole value, which starts at level zero. No line end follows it. -/
def pretty (v : Json) : Text :=
  layout 0 v

end Json

end GeneratedKeys
