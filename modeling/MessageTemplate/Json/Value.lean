/-
JSON values as the reader sees them, and what can be wrong with a text that should hold one.

In a `Value` members keep the order in which they were written, and a key may stand twice.  A
`Number` is of one of three kinds, told apart by how it is written: a natural number of 64 bits, a
negative integer of 64 bits, and everything else as a rounded `Magnitude` with a sign.

A `Fault` is one of three kinds as well.  The text may hold a character that no JSON text could
hold at that place (`Fault.badToken`); it may end where more must follow (`Fault.endsEarly`); or it
may be good JSON that does not have the shape asked for.  Only the last kind, a `Mismatch`, has a
wording of its own, because only there is something to say about the data.
-/
import MessageTemplate.Json.Magnitude
import MessageTemplate.Text.Classes

set_option autoImplicit false

namespace MessageTemplate.Json

/-! ## Values -/

/-- A number as it was read.  `negative n` is `-n`, with `n` positive; `floating` is whatever is not
an integer of 64 bits, minus zero among it. -/
inductive Number where
  | natural (n : Nat)
  | negative (n : Nat)
  | floating (negative : Bool) (magnitude : Magnitude)
  deriving DecidableEq, Repr

/-- A JSON value.  The members of an `object` are a list of pairs and no map, since a reader is
asked about keys that stand twice. -/
inductive Value where
  | null
  | boolean (b : Bool)
  | number (n : Number)
  | string (s : String)
  | array (items : List Value)
  | object (members : List (String × Value))
  deriving Inhabited, Repr

/-! ## Nesting -/

namespace Value

mutual

/-- How many brackets are open at once where the value nests deepest.  The reader refuses a text in
which this is above `nestingLimit`. -/
def depth : Value → Nat
  | .array items => itemsDepth items + 1
  | .object members => membersDepth members + 1
  | _ => 0

/-- The `Value.depth` of the deepest of some values, 0 if there are none. -/
def itemsDepth : List Value → Nat
  | [] => 0
  | v :: rest => max v.depth (itemsDepth rest)

/-- The `Value.depth` of the deepest of some members, by the values under their keys. -/
def membersDepth : List (String × Value) → Nat
  | [] => 0
  | (_, v) :: rest => max v.depth (membersDepth rest)

end

end Value

/-! ## Faults -/

/-- What stood where something else was asked for.  Scalars, from `null` to `string`, are repeated
in the message with their value, arrays and objects by their sort only. -/
inductive Found where
  | null
  | boolean (b : Bool)
  | integer (i : Int)
  | floating (negative : Bool) (magnitude : Magnitude)
  | string (s : String)
  | sequence
  | map
  deriving DecidableEq, Repr

/-- What was asked for.  Records and unions are known by name; `fieldsOf` is a record that may be
written as a sequence of its fields, `items` a sequence of which every element must have a
meaning. -/
inductive Expected where
  | string
  | sequence
  | map
  | size
  | unit
  | tag
  | tagBelow (count : Nat)
  | union (name : String)
  | record (name : String)
  | fieldsOf (description : String) (count : Nat)
  | items (count : Nat)
  deriving DecidableEq, Repr

/-- Why good JSON was refused.  Each cause carries what its message repeats, so that `Mismatch.text`
is a function of it alone. -/
inductive Mismatch where
  | wrongType (found : Found) (expected : Expected)
  | wrongValue (found : Found) (expected : Expected)
  | wrongLength (length : Nat) (expected : Expected)
  | unknownTag (tag : String) (known : List String)
  | missingField (name : String)
  | duplicateField (name : String)
  deriving DecidableEq, Repr

/-- Why a text could not be read: a `mismatch` if the JSON is good and has another shape, and else
where the JSON itself is at fault.  The first fault met is the one reported, so a bad character
behind wrong data is not seen any more. -/
inductive Fault where
  | badToken
  | endsEarly
  | mismatch (cause : Mismatch)
  deriving DecidableEq, Repr

/-! ## Wording -/

namespace Found

/-- A found value in the words of a message; a string is repeated as `Text.quoted` writes it. -/
def text : Found → String
  | .null => "null"
  | .boolean b => s!"boolean `{b}`"
  | .integer i => s!"integer `{i}`"
  | .floating minus m =>
    let sign := if minus then "-" else ""
    s!"floating point `{sign}{m.text}`"
  | .string s => s!"string {Text.quoted s}"
  | .sequence => "sequence"
  | .map => "map"

end Found

/-- A count of elements, with the word in singular for one, as in `Found.text`. -/
def elementCount (n : Nat) : String :=
  if n = 1 then "1 element" else s!"{n} elements"

namespace Expected

/-- A requirement in the words of a message, as it stands behind `expected` there. -/
def text : Expected → String
  | .string => "a string"
  | .sequence => "a sequence"
  | .map => "a map"
  | .size => "usize"
  | .unit => "unit"
  | .tag => "variant identifier"
  | .tagBelow count => s!"variant index 0 <= i < {count}"
  | .union name => s!"internally tagged enum {name}"
  | .record name => s!"struct {name}"
  | .fieldsOf description count => s!"{description} with {elementCount count}"
  | .items count => s!"{elementCount count} in sequence"

end Expected

/-- The tags that a `TaggedUnion` knows, for the message about one that it does not: two are joined
by a word, more are listed. -/
def tagChoice : List String → String
  | [] => "nothing"
  | [a] => s!"`{a}`"
  | [a, b] => s!"`{a}` or `{b}`"
  | many => "one of " ++ ", ".intercalate (many.map fun a => s!"`{a}`")

namespace Mismatch

/-- The message about data of the wrong shape, `Mismatch` by `Mismatch`. -/
def text : Mismatch → String
  | .wrongType found expected => s!"invalid type: {found.text}, expected {expected.text}"
  | .wrongValue found expected => s!"invalid value: {found.text}, expected {expected.text}"
  | .wrongLength length expected => s!"invalid length {length}, expected {expected.text}"
  | .unknownTag tag known => s!"unknown variant `{tag}`, expected {tagChoice known}"
  | .missingField name => s!"missing field `{name}`"
  | .duplicateField name => s!"duplicate field `{name}`"

end Mismatch

/-- What a `Fault` says to the user.  Where the text itself is at fault there is little to say, and
no place is named. -/
def Fault.text : Fault → String
  | .badToken => "unexpected character"
  | .endsEarly => "unexpected end"
  | .mismatch cause => cause.text

/-! ## What a value is found to be -/

/-- What `Found` says of a number that stands in place of something else. -/
def Number.found : Number → Found
  | .natural n => .integer n
  | .negative n => .integer (-n)
  | .floating minus m => .floating minus m

/-- A `Value` as `Found` in a message, without what is inside of its brackets. -/
def Value.found : Value → Found
  | .null => .null
  | .boolean b => .boolean b
  | .number n => n.found
  | .string s => .string s
  | .array _ => .sequence
  | .object _ => .map

end MessageTemplate.Json
