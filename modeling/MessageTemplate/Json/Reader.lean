/-
Reading JSON: whole values, and the steps from which readers of particular shapes are made.

Everything is read from left to right and the first fault ends the reading.  At most `nestingLimit`
brackets may be open at once; a value is therefore read by recursion on the number of brackets that
may still be opened (`value`).  The loops over elements and members take at most one turn per
character of the text they start with, and that text is what their recursion follows
(`elementsFrom`, `membersFrom`); `Listed.length_le` says that these turns are enough.
-/
import MessageTemplate.Json.Lexer

set_option autoImplicit false

namespace MessageTemplate.Json

/-- How many brackets may be open at once in a text; the next one that opens is a `badToken`. -/
def nestingLimit : Nat := 127

/-! ## Elements and members -/

/-- Whether another element follows.  The comma before it is left out; the closing bracket stays for
`close`. -/
def nextElement (first : Bool) : Reader Bool := do
  match ← peekWord with
  | none => throw .endsEarly
  | some ']' => pure false
  | some ',' =>
    if first then pure true
    else
      advance
      match ← peekWord with
      | none => throw .endsEarly
      | some ']' => throw .badToken
      | some _ => pure true
  | some _ => if first then pure true else throw .badToken

/-- The key of the next member, if one follows.  The comma before it is left out; the closing brace
stays for `close`. -/
def nextKey (lex : Lexicon) (first : Bool) : Reader (Option String) := do
  match ← peekWord with
  | none => throw .endsEarly
  | some '}' => pure none
  | some ',' =>
    if first then throw .badToken
    else
      advance
      match ← peekWord with
      | none => throw .endsEarly
      | some '"' => some <$> lex.string
      | some _ => throw .badToken
  | some c => if first ∧ c = '"' then some <$> lex.string else throw .badToken

/-- The colon between a key and its value.  Anything else there is a bad character, as in
`close`. -/
def colon : Reader Unit := do
  match ← peekWord with
  | none => throw .endsEarly
  | some ':' => advance
  | some _ => throw .badToken

/-- The bracket or brace that must come next.  Any other character there is a `badToken`. -/
def close (bracket : Char) : Reader Unit := do
  match ← peekWord with
  | none => throw .endsEarly
  | some c => if c = bracket then advance else throw .badToken

/-- Reads elements up to the closing bracket, `first` telling whether none has been read yet; `read`
holds those before, the last one first.  The first argument only counts the turns. -/
def elementsFrom {α : Type} (item : Reader α) : List Char → Bool → List α → Reader (List α)
  | [], _, _ => throw .endsEarly
  | _ :: turns, first, read => do
    if ← nextElement first then
      let x ← item
      elementsFrom item turns false (x :: read)
    else pure read.reverse

/-- The elements of an array, without its brackets; `item` reads one of them. -/
def elements {α : Type} (item : Reader α) : Reader (List α) := do
  elementsFrom item (← get) true []

/-- The elements of an array of which some have been read, as those of a `TaggedUnion` behind its
tag. -/
def moreElements {α : Type} (item : Reader α) : Reader (List α) := do
  elementsFrom item (← get) false []

/-- Reads members up to the closing brace.  `member` is given what the members before have come to
and the key; it reads the colon and the value. -/
def membersFrom {σ : Type} (lex : Lexicon) (member : σ → String → Reader σ) :
    List Char → Bool → σ → Reader σ
  | [], _, _ => throw .endsEarly
  | _ :: turns, first, state => do
    match ← nextKey lex first with
    | none => pure state
    | some key =>
      let state ← member state key
      membersFrom lex member turns false state

/-- The members of an object, without its braces; `start` is what none has come to. -/
def members {σ : Type} (lex : Lexicon) (member : σ → String → Reader σ) (start : σ) :
    Reader σ := do
  membersFrom lex member (← get) true start

/-! ## Values -/

/-- A value that opens no bracket, by its first character `c`. -/
def scalar (lex : Lexicon) (c : Char) : Reader Value := do
  if c = 'n' then
    literal ['n', 'u', 'l', 'l']
    pure .null
  else if c = 't' then
    literal ['t', 'r', 'u', 'e']
    pure (.boolean true)
  else if c = 'f' then
    literal ['f', 'a', 'l', 's', 'e']
    pure (.boolean false)
  else if c = '"' then Value.string <$> lex.string
  else if c = '-' ∨ c.isDigit then Value.number <$> lex.number
  else throw .badToken

/-- A `member` kept with those before it, the last one first. -/
def keepMember (inner : Reader Value) (read : List (String × Value)) (key : String) :
    Reader (List (String × Value)) := do
  colon
  let v ← inner
  pure ((key, v) :: read)

/-- A value, given how the values inside its brackets are read, if it may open any; `none` refuses
an opening bracket. -/
def valueAround (lex : Lexicon) (inner : Option (Reader Value)) : Reader Value := do
  match ← peekWord with
  | none => throw .endsEarly
  | some '[' =>
    match inner with
    | none => throw .badToken
    | some item =>
      advance
      let items ← elements item
      close ']'
      pure (.array items)
  | some '{' =>
    match inner with
    | none => throw .badToken
    | some item =>
      advance
      let read ← members lex (keepMember item) []
      close '}'
      pure (.object read.reverse)
  | some c => scalar lex c

/-- A `Value` in which at most so many brackets are open at once, by recursion on this number. -/
def value (lex : Lexicon) : Nat → Reader Value
  | 0 => valueAround lex none
  | depth + 1 => valueAround lex (some (value lex depth))

/-- Leaves out a value of any depth, by `skimming` its words.  No more brackets can be open than
there are characters, so the length of the text is bound enough. -/
def skipValue : Reader Unit := do
  discard (value skimming (← get).length)

/-! ## Shapes without parts -/

/-- Says what stands here (`Found`) instead of what was asked for (`Expected`).  A scalar is read to
the end first, so a fault inside it comes before the mismatch. -/
def refuse {α : Type} (expected : Expected) (c : Char) : Reader α := do
  if c = '[' then mismatch (.wrongType .sequence expected)
  else if c = '{' then mismatch (.wrongType .map expected)
  else
    let v ← scalar strict c
    mismatch (.wrongType v.found expected)

/-- A string, where only a string has a meaning; `expected` says what it is for, in the message of a
refusal. -/
def readString (expected : Expected) : Reader String := do
  match ← peekWord with
  | none => throw .endsEarly
  | some c => if c = '"' then strict.string else refuse expected c

/-- The natural number of 64 bits that a `Number` is, in a place where only that has a meaning; the
refusals name the number as it was written. -/
def Number.size : Number → Except Mismatch Nat
  | .natural n => .ok n
  | .negative n => .error (.wrongValue (.integer (-n)) .size)
  | .floating minus m => .error (.wrongType (.floating minus m) .size)

/-- Lifts an answer about data into a reader: a `Mismatch` becomes the fault of the text. -/
def accept {α : Type} : Except Mismatch α → Reader α
  | .ok a => pure a
  | .error cause => mismatch cause

/-- A natural number of 64 bits, where only that has a meaning: `Number.size` of the number that
stands here. -/
def readSize : Reader Nat := do
  match ← peekWord with
  | none => throw .endsEarly
  | some c =>
    if c = '-' ∨ c.isDigit then accept (← strict.number).size
    else refuse .size c

/-- A `null`, where only that has a meaning, as behind the name of a kind without fields. -/
def readUnit : Reader Unit := do
  match ← peekWord with
  | none => throw .endsEarly
  | some c => if c = 'n' then literal ['n', 'u', 'l', 'l'] else refuse .unit c

/-- A sequence of things of one kind, each read by `item`. -/
def readSequence {α : Type} (item : Reader α) : Reader (List α) := do
  match ← peekWord with
  | none => throw .endsEarly
  | some c =>
    if c = '[' then
      advance
      let items ← elements item
      close ']'
      pure items
    else refuse .sequence c

/-- A map from names to things of one kind, each read by `item`, in the order written; a name may
stand twice in it. -/
def readMap {α : Type} (item : Reader α) : Reader (List (String × α)) := do
  match ← peekWord with
  | none => throw .endsEarly
  | some c =>
    if c = '{' then
      advance
      let member (read : List (String × α)) (key : String) : Reader (List (String × α)) := do
        colon
        let v ← item
        pure ((key, v) :: read)
      let read ← members strict member []
      close '}'
      pure read.reverse
    else refuse .map c

/-! ## Whole texts -/

/-- Reads a whole text with `reader`: after what is read only blanks may follow, and anything else
is a `badToken`. -/
def decode {α : Type} (reader : Reader α) (source : String) : Except Fault α :=
  match reader source.toList with
  | .error fault => .error fault
  | .ok (a, rest) => if rest.all isSpace then .ok a else .error .badToken

end MessageTemplate.Json
