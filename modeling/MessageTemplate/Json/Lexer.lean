/-
The words of JSON: blanks, literal names, strings and numbers.

A `Reader` takes words off the front of a text and leaves the rest.  It is a state over the list of
characters still to be read, so what a reader leaves is part of its result and every lemma can speak
of it.

Strings and numbers are read by two lexicons.  The `strict` one gives the value and refuses what has
none: a surrogate without its partner, a number beyond the largest `Magnitude`.  The `skimming` one
only finds where the word ends; it serves the members of a record that nobody asked for.
-/
import MessageTemplate.Json.Value

set_option autoImplicit false

namespace MessageTemplate.Json

/-- A reader takes what it reads off the front of the text, or ends in a `Fault`. -/
abbrev Reader := StateT (List Char) (Except Fault)

/-! ## Characters -/

/-- The four characters that may stand between words.  This is JSON's own notion of white space;
`Text.isBlank` is another one. -/
def isSpace (c : Char) : Bool :=
  c = ' ' || c = '\n' || c = '\t' || c = '\r'

/-- Leaves out the blanks in front (`isSpace`), as many as there are. -/
def skipSpace : Reader Unit :=
  modify (·.dropWhile isSpace)

/-- The next character, left in place, or `none` at the end of the text. -/
def peek : Reader (Option Char) :=
  return (← get).head?

/-- The next character that is no blank, left in place; the blanks in front of it are gone.
`skipSpace` has taken them. -/
def peekWord : Reader (Option Char) := do
  skipSpace
  peek

/-- Leaves out one character, which the caller has seen by `peek` or `peekWord`. -/
def advance : Reader Unit :=
  modify List.tail

/-- Refuses good JSON of the wrong shape with a `Mismatch`; faults of the JSON itself are raised
where they are met. -/
def mismatch {α : Type} (cause : Mismatch) : Reader α :=
  throw (.mismatch cause)

/-- Takes the characters of a literal name such as `true`, one by one: a text that ends inside the
name ends early, any other character is a bad one. -/
def literal : List Char → Reader Unit
  | [] => pure ()
  | c :: rest => do
    match ← peek with
    | none => throw .endsEarly
    | some d => if d = c then advance; literal rest else throw .badToken

/-! ## Strings -/

/-- The value of a digit to the base sixteen, or `none`, with letters of either case. -/
def hexDigit? (c : Char) : Option Nat :=
  if c.isDigit then some (c.toNat - '0'.toNat)
  else if 'a' ≤ c ∧ c ≤ 'f' then some (c.toNat - 'a'.toNat + 10)
  else if 'A' ≤ c ∧ c ≤ 'F' then some (c.toNat - 'A'.toNat + 10)
  else none

/-- What a short escape stands for, by its letter; `u` is none, as it starts a numbered escape. -/
def shortEscape? : Char → Option Char
  | '"' => some '"'
  | '\\' => some '\\'
  | '/' => some '/'
  | 'b' => some '\x08'
  | 'f' => some '\x0c'
  | 'n' => some '\n'
  | 'r' => some '\r'
  | 't' => some '\t'
  | _ => none

/-- The first half of a surrogate pair, which is no character on its own: `pairedChar` needs the
second half as well. -/
def isHighSurrogate (n : Nat) : Bool := 0xD800 ≤ n && n ≤ 0xDBFF

/-- The second half of a surrogate pair, which only has a meaning behind one that
`isHighSurrogate`. -/
def isLowSurrogate (n : Nat) : Bool := 0xDC00 ≤ n && n ≤ 0xDFFF

/-- The character that a surrogate pair, `high` and `low`, stands for; it lies beyond the basic
plane. -/
def pairedChar (high low : Nat) : Char :=
  Char.ofNat (0x10000 + (high - 0xD800) * 0x400 + (low - 0xDC00))

/-- Where in a string the reader stands.  Between `\` and the end of an escape it remembers what it
has read of it; `high` is the first half of a pair that still lacks its partner. -/
inductive StringState where
  | plain
  | escape
  | hex (high : Option Nat) (count value : Nat)
  | pairSlash (high : Nat)
  | pairLetter (high : Nat)
  deriving DecidableEq, Repr

/-- A numbered escape needs four more bytes; a text with fewer ends early whatever they are.  Bytes
are counted and not characters, so a wide character can make the room. -/
def roomForHex (rest : List Char) : Bool :=
  4 ≤ (rest.take 4).foldr (fun c size => c.utf8Size + size) 0

/-- The state after the four digits of a numbered escape, and the character they complete, if they
do.  Where pairs are not minded (`paired` is false) every number completes one. -/
def closeHex (paired : Bool) (high : Option Nat) (n : Nat) :
    Except Fault (StringState × Option Char) :=
  if !paired then .ok (.plain, some (Char.ofNat n))
  else
    match high with
    | some h =>
      if isLowSurrogate n then .ok (.plain, some (pairedChar h n)) else .error .badToken
    | none =>
      if isLowSurrogate n then .error .badToken
      else if isHighSurrogate n then .ok (.pairSlash n, none)
      else .ok (.plain, some (Char.ofNat n))

/-- One character of a string outside its closing quote: the next state, and the character of the
value it completes, if any.  `rest` is the text after it, of which only `roomForHex` is asked. -/
def stringStep (paired : Bool) (state : StringState) (c : Char) (rest : List Char) :
    Except Fault (StringState × Option Char) :=
  match state with
  | .plain =>
    if c = '\\' then .ok (.escape, none)
    else if c.toNat < 0x20 then .error .badToken
    else .ok (.plain, some c)
  | .escape =>
    if c = 'u' then
      if roomForHex rest then .ok (.hex none 0 0, none) else .error .endsEarly
    else
      match shortEscape? c with
      | some d => .ok (.plain, some d)
      | none => .error .badToken
  | .hex high count value =>
    match hexDigit? c with
    | none => .error .badToken
    | some d =>
      if count = 3 then closeHex paired high (value * 16 + d)
      else .ok (.hex high (count + 1) (value * 16 + d), none)
  | .pairSlash high => if c = '\\' then .ok (.pairLetter high, none) else .error .badToken
  | .pairLetter high =>
    if c = 'u' then
      if roomForHex rest then .ok (.hex (some high) 0 0, none) else .error .endsEarly
    else .error .badToken

/-- The characters of a string up to its closing quote, and the text after it.  `read` holds the
characters read so far, the last one first; the steps are those of `stringStep`. -/
def stringBody (paired : Bool) :
    StringState → List Char → List Char → Except Fault (List Char × List Char)
  | _, _, [] => .error .endsEarly
  | state, read, c :: rest =>
    if state = .plain ∧ c = '"' then .ok (read.reverse, rest)
    else
      match stringStep paired state c rest with
      | .error fault => .error fault
      | .ok (next, done) => stringBody paired next (done.toList ++ read) rest

/-- A string whose opening quote is the next character; the rest of it is read by `stringBody`. -/
def quotedString (paired : Bool) : Reader String := fun text =>
  match stringBody paired .plain [] text.tail with
  | .error fault => .error fault
  | .ok (read, rest) => .ok (String.ofList read, rest)

/-! ## Numbers -/

/-- A number as it is written: whether a minus sign stands in front, the digits before and after the
point, and the exponent with its sign.  What it is worth is said by `Numeral.value`. -/
structure Numeral where
  negative : Bool
  whole : List Char
  fraction : List Char
  exponent : Option Int
  deriving DecidableEq, Repr

/-- The digits in front (`Char.isDigit`), as many as there are; there may be none. -/
def takeDigits : Reader (List Char) := fun text =>
  .ok (text.takeWhile Char.isDigit, text.dropWhile Char.isDigit)

/-- Digits of which there must be one.  `early` is the fault of a text that ends here, in which the
two lexicons differ. -/
def someDigits (early : Fault) : Reader (List Char) := do
  match ← takeDigits with
  | [] => if (← peek).isNone then throw early else throw .badToken
  | digits => pure digits

/-- The digits before the point of a `Numeral`: a zero stands alone, so a number has one spelling
without its sign. -/
def wholeDigits (early : Fault) : Reader (List Char) := do
  match ← someDigits early with
  | '0' :: _ :: _ => throw .badToken
  | digits => pure digits

/-- The digits after the point of a `Numeral`, none where there is no point; behind a point there
must be one. -/
def fractionDigits (early : Fault) : Reader (List Char) := do
  if (← peek) = some '.' then
    advance
    someDigits early
  else pure []

/-- The exponent after its letter, `none` where there is no letter.  A sign may stand in front of
its digits, and zeros too. -/
def exponentPart (early : Fault) : Reader (Option Int) := do
  match ← peek with
  | some c =>
    if c = 'e' ∨ c = 'E' then
      advance
      let sign ← peek
      if sign = some '+' ∨ sign = some '-' then advance
      let digits ← someDigits early
      let size : Int := Nat.ofDigitChars 10 digits 0
      pure (some (if sign = some '-' then -size else size))
    else pure none
  | none => pure none

/-- A `Numeral` that starts at the next character, part by part: sign, whole digits, fraction and
exponent. -/
def numeral (early : Fault) : Reader Numeral := do
  let negative := (← peek) = some '-'
  if negative then advance
  let whole ← wholeDigits early
  let fraction ← fractionDigits early
  let exponent ← exponentPart early
  pure ⟨negative, whole, fraction, exponent⟩

namespace Numeral

/-- Every `significand` is kept below this bound, so that it fits into the 64 bits of a `UInt64`. -/
def significandBound : Nat := UInt64.size

/-- Takes digits into a significand as long as it stays below `significandBound`, and counts the
digits taken. -/
def absorb : Nat → List Char → Nat × Nat
  | significand, [] => (significand, 0)
  | significand, c :: rest =>
    let next := significand * 10 + (c.toNat - '0'.toNat)
    if next < significandBound then
      let (final, taken) := absorb next rest
      (final, taken + 1)
    else (significand, 0)

/-- The rounded value.  Digits that `absorb` no longer fits into the significand are left out;
before the point each of them still moves the point. -/
def magnitude (n : Numeral) : Option Magnitude :=
  let (whole, taken) := absorb 0 n.whole
  let (significand, places) := absorb whole n.fraction
  let scale : Int := (n.whole.length - taken : Nat) - (places : Int)
  Magnitude.ofDecimal significand (scale + n.exponent.getD 0)

/-- The `Number` that a numeral stands for: an integer of 64 bits where it is written as one, a
rounded magnitude otherwise, and nothing where that is too large.  Minus zero is no integer. -/
def value (n : Numeral) : Option Number :=
  let whole := Nat.ofDigitChars 10 n.whole 0
  if n.fraction = [] ∧ n.exponent = none ∧ whole < significandBound then
    if !n.negative then some (.natural whole)
    else if 0 < whole ∧ whole ≤ UInt64.size / 2 then some (.negative whole)
    else (Magnitude.ofRatio whole 1).map (.floating true)
  else n.magnitude.map (.floating n.negative)

end Numeral

/-! ## Lexicons -/

/-- How strings and numbers are read: for their values (`strict`), or only for their ends
(`skimming`). -/
structure Lexicon where
  string : Reader String
  number : Reader Number

/-- The words of a reader that wants values: `strict` gives every word its value, and refuses a
number that has none as a bad character. -/
def strict : Lexicon where
  string := quotedString true
  number := do
    match (← numeral .endsEarly).value with
    | some n => pure n
    | none => throw .badToken

/-- The words of a reader that leaves values out: `skimming` only finds where a word ends.  A number
that ends early is a bad one here, and any number counts as 0. -/
def skimming : Lexicon where
  string := quotedString false
  number := do
    discard (numeral .badToken)
    pure (.natural 0)

end MessageTemplate.Json
