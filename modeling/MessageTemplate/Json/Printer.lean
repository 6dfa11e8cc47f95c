/-
Writing JSON, compact and indented.

In a string the quote, the backslash and the control characters below the space are escaped, the
latter by a short escape where one exists and by four digits otherwise; every other character
stands for itself (`escapeChar`).

Both forms are written by one printer, `printValue`, which takes the blanks between the words from
a `Layout`.  `Layout.compact` has none.  `Layout.indented` puts each element and member on a line of
its own, two spaces deeper than its brackets.  Empty brackets are kept together in every layout.
-/
import MessageTemplate.Json.Value

set_option autoImplicit false

namespace MessageTemplate.Json

/-! ## Words -/

/-- Two digits to the base sixteen, which are enough for a control character behind `\u00`. -/
def twoHexDigits (n : Nat) : List Char :=
  [Nat.digitChar (n / 16), Nat.digitChar (n % 16)]

/-- One character of a string, as it stands between quotes: a short escape, a numbered one for a
control character that has no short one, or the character itself. -/
def escapeChar (c : Char) : List Char :=
  if c = '"' then ['\\', '"']
  else if c = '\\' then ['\\', '\\']
  else if c = '\x08' then ['\\', 'b']
  else if c = '\x0c' then ['\\', 'f']
  else if c = '\n' then ['\\', 'n']
  else if c = '\r' then ['\\', 'r']
  else if c = '\t' then ['\\', 't']
  else if c.toNat < 0x20 then ['\\', 'u', '0', '0'] ++ twoHexDigits c.toNat
  else [c]

/-- A string between quotes, each of its characters written by `escapeChar`. -/
def printString (s : String) : List Char :=
  '"' :: s.toList.flatMap escapeChar ++ ['"']

/-- A number: an integer in decimal digits, anything else by `Magnitude.text`. -/
def printNumber : Number → List Char
  | .natural n => Nat.toDigits 10 n
  | .negative n => '-' :: Nat.toDigits 10 n
  | .floating minus m => (if minus then ['-'] else []) ++ m.text.toList

/-- A value that has no brackets, or whose brackets are empty.  What is inside of brackets is not
looked at, so `printValue` asks this only where there is nothing. -/
def printScalar : Value → List Char
  | .null => ['n', 'u', 'l', 'l']
  | .boolean true => ['t', 'r', 'u', 'e']
  | .boolean false => ['f', 'a', 'l', 's', 'e']
  | .number n => printNumber n
  | .string s => printString s
  | .array _ => ['[', ']']
  | .object _ => ['{', '}']

/-! ## Layouts -/

/-- The blanks that a printer puts between the words of a value.  Any blanks will do for a text to
be read back (`Layout.Blank`). -/
structure Layout where
  /-- What stands in front of an element, a member or a closing bracket that is inside so many
  brackets. -/
  line : Nat → List Char
  /-- What stands behind the `:` of a member. -/
  space : List Char

/-- A new line, indented by `steps` times two spaces. -/
def newLine (steps : Nat) : List Char :=
  '\n' :: List.replicate (2 * steps) ' '

namespace Layout

/-- The `Layout` without any blanks: the layout of messages, and of a template file that an edit
saves. -/
def compact : Layout := ⟨fun _ => [], []⟩

/-- The `Layout` with every element and member on a line of its own, and a space behind every colon:
the layout of the configuration and the template that a new project gets. -/
def indented : Layout := ⟨newLine, [' ']⟩

end Layout

section

variable (l : Layout)

/-- The key of a member with its colon, and `value`, which is printed already, behind it. -/
def printMember (key : String) (value : List Char) : List Char :=
  printString key ++ ':' :: (l.space ++ value)

mutual

/-- A value that stands inside `steps` brackets, in the layout `l`. -/
def printValue (steps : Nat) : Value → List Char
  | .array (v :: rest) =>
    '[' :: (l.line (steps + 1) ++ (printValue (steps + 1) v ++ printItems steps rest))
  | .object ((key, v) :: rest) =>
    '{' :: (l.line (steps + 1) ++
      (printMember l key (printValue (steps + 1) v) ++ printMembers steps rest))
  | v => printScalar v

/-- Further elements and the closing bracket of `printValue`, each with its comma in front. -/
def printItems (steps : Nat) : List Value → List Char
  | [] => l.line steps ++ [']']
  | v :: rest =>
    ',' :: (l.line (steps + 1) ++ (printValue (steps + 1) v ++ printItems steps rest))

/-- Further members and the closing brace of `printValue`, each with its comma in front. -/
def printMembers (steps : Nat) : List (String × Value) → List Char
  | [] => l.line steps ++ ['}']
  | (key, v) :: rest =>
    ',' :: (l.line (steps + 1) ++
      (printMember l key (printValue (steps + 1) v) ++ printMembers steps rest))

end

end

/-! ## Texts -/

/-- The compact text of a value, `printValue` in `Layout.compact`. -/
def Value.compact (v : Value) : String :=
  String.ofList (printValue .compact 0 v)

/-- The indented text of a value, `printValue` in `Layout.indented`. -/
def Value.indented (v : Value) : String :=
  String.ofList (printValue .indented 0 v)

end MessageTemplate.Json
