/-
The shapes of data that are read from JSON: unions with a tag, bare names, and records.

A `TaggedUnion` is an object with a member that names its kind, or an array that starts with that
name.  The tag of a union that stands in the text itself is judged as soon as it is read
(`TaggedUnion.read`).  Its other parts are first read as plain values, up to the closing bracket,
and only then get their meaning, so a fault of the text inside the brackets comes before any wrong
field.  A union inside such a plain value is judged part by part in the order in which the parts
were written (`TaggedUnion.kindOf`); its tag may also be the position of the kind in the list of
kinds.

`readName` reads a choice of names that have no fields, as the kinds of nodes and the branches of a
conditional are.

A `Record` has fixed fields and is read straight from the text.  It is an object whose members may
stand in any order, or an array of its fields in their own order.  Members that the record does not
know are left out unread; a field given twice is refused when its key is met.
-/
import MessageTemplate.Json.Reader

set_option autoImplicit false

namespace MessageTemplate.Json

/-! ## Kinds of a union -/

/-- A union: its name in messages, the key of its tag, and its kinds with their names.  What the
fields of a kind are is not said here; they are kept as `Parts` until the kind is known. -/
structure TaggedUnion (τ : Type) where
  name : String
  tagKey : String
  kinds : List (String × τ)

/-- The parts of a union besides its tag, in the order written: the `fields` of an object, or the
`items` that are the rest of an array. -/
inductive Parts where
  | fields (members : List (String × Value))
  | positional (items : List Value)
  deriving Inhabited, Repr

/-- The kind of a name among some kinds; a name that is none is refused as an `unknownTag`, with the
list of those that are. -/
def kindNamed {τ : Type} (kinds : List (String × τ)) (name : String) : Except Mismatch τ :=
  match kinds.lookup name with
  | some kind => .ok kind
  | none => .error (.unknownTag name (kinds.map Prod.fst))

namespace TaggedUnion

variable {τ : Type}

/-- `kindNamed` among the kinds of the union. -/
def ofName (u : TaggedUnion τ) (name : String) : Except Mismatch τ :=
  kindNamed u.kinds name

/-- The kind at a position in the list of kinds.  Only a union inside a plain value may be tagged so
(`ofTagValue`). -/
def ofPosition (u : TaggedUnion τ) (n : Nat) : Except Mismatch τ :=
  match u.kinds[n]? with
  | some (_, kind) => .ok kind
  | none => .error (.wrongValue (.integer n) (.tagBelow u.kinds.length))

/-- The kind that a plain value stands for as a tag: a name, by `ofName`, or a position, by
`ofPosition`. -/
def ofTagValue (u : TaggedUnion τ) : Value → Except Mismatch τ
  | .string name => u.ofName name
  | .number (.natural n) => u.ofPosition n
  | v => .error (.wrongType v.found .tag)

/-! ## A union in the text -/

/-- One member of a union in the text: the tag is judged at once, another member is kept as a plain
`Value`, to be judged when the kind is known. -/
def readMember (u : TaggedUnion τ) (inner : Reader Value) (state : Option τ × List (String × Value))
    (key : String) : Reader (Option τ × List (String × Value)) := do
  let (tag, read) := state
  if key = u.tagKey then
    if tag.isSome then mismatch (.duplicateField u.tagKey)
    else
      colon
      let kind ← accept (u.ofName (← readString .tag))
      pure (some kind, read)
  else
    let read ← keepMember inner read key
    pure (tag, read)

/-- A union in the text, inside which at most `depth` brackets may be open, its own among them: its
kind and its parts.  The parts are read to the closing bracket before any of them is judged. -/
def read (u : TaggedUnion τ) (depth : Nat) : Reader (τ × Parts) := do
  match ← peekWord with
  | none => throw .endsEarly
  | some '{' =>
    match depth with
    | 0 => throw .badToken
    | depth + 1 =>
      advance
      let (tag, read) ← members strict (u.readMember (value strict depth)) (none, [])
      match tag with
      | none => mismatch (.missingField u.tagKey)
      | some kind =>
        close '}'
        pure (kind, .fields read.reverse)
  | some '[' =>
    match depth with
    | 0 => throw .badToken
    | depth + 1 =>
      advance
      if ← nextElement true then
        let kind ← accept (u.ofName (← readString .tag))
        let items ← moreElements (value strict depth)
        close ']'
        pure (kind, .positional items)
      else mismatch (.missingField u.tagKey)
  | some c => refuse (.union u.name) c

/-! ## A union in a plain value -/

/-- The kind that the members of an object give, under `tagKey`.  Every member with the key of the
tag is judged, so a second one is refused even where the first was good. -/
def tagOf (u : TaggedUnion τ) : Option τ → List (String × Value) → Except Mismatch τ
  | none, [] => .error (.missingField u.tagKey)
  | some kind, [] => .ok kind
  | tag, (key, v) :: rest =>
    if key = u.tagKey then
      if tag.isSome then .error (.duplicateField u.tagKey)
      else
        match u.ofTagValue v with
        | .error cause => .error cause
        | .ok kind => u.tagOf (some kind) rest
    else u.tagOf tag rest

/-- The kind of a plain value: by its members (`tagOf`) if it is an object, by its first element if
it is an array. -/
def kindOf (u : TaggedUnion τ) : Value → Except Mismatch τ
  | .object members => u.tagOf none members
  | .array [] => .error (.missingField u.tagKey)
  | .array (tag :: _) => u.ofTagValue tag
  | v => .error (.wrongType v.found (.union u.name))

end TaggedUnion

/-! ## Meanings of plain values -/

/-- The string that a plain value is, or a `Mismatch` for any other value. -/
def Value.asString : Value → Except Mismatch String
  | .string s => .ok s
  | v => .error (.wrongType v.found .string)

/-- The natural number that a plain value is, or a `Mismatch` for any other value. -/
def Value.asSize : Value → Except Mismatch Nat
  | .number n => n.size
  | v => .error (.wrongType v.found .size)

/-- A required field that has been found or has not; the message of the refusal, `missingField`,
names it. -/
def required {α : Type} (name : String) : Option α → Except Mismatch α
  | some a => .ok a
  | none => .error (.missingField name)

/-! ## Bare names -/

/-- A choice of names without fields, such as `Kind` and `Branch`: the name as a string, or an
object with that name as its only key and null as its value. -/
def readName {τ : Type} (kinds : List (String × τ)) : Reader τ := do
  match ← peekWord with
  | none => throw .endsEarly
  | some '"' => accept (kindNamed kinds (← strict.string))
  | some '{' =>
    advance
    match ← nextKey strict true with
    | none => throw .badToken
    | some name =>
      let kind ← accept (kindNamed kinds name)
      colon
      readUnit
      close '}'
      pure kind
  | some _ => throw .badToken

/-! ## Records -/

/-- One field of a record under construction, of which `σ` is the state. -/
structure Field (σ : Type) where
  name : String
  /-- Whether the field has been read, by what the state `σ` says. -/
  given : σ → Bool
  /-- Reads the field's value into the state `σ`. -/
  read : σ → Reader σ

/-- A record, read into a state `σ`: its name in messages, its fields in their order, and the state
in which none has been read. -/
structure Record (σ : Type) where
  name : String
  fields : List (Field σ)
  start : σ

namespace Record

variable {σ : Type}

/-- One member of a record: its field is read, unless it has been given before; a member that is no
field is left out by `skipValue`. -/
def readMember (r : Record σ) (state : σ) (key : String) : Reader σ := do
  match r.fields.find? (fun f => f.name = key) with
  | none =>
    colon
    skipValue
    pure state
  | some field =>
    if field.given state then mismatch (.duplicateField key)
    else
      colon
      field.read state

/-- The fields in order, as many as the array has elements; elements beyond the last field are left
to `close`, which refuses them. -/
def readInOrder : List (Field σ) → Bool → σ → Reader σ
  | [], _, state => pure state
  | field :: rest, first, state => do
    if ← nextElement first then
      let state ← field.read state
      readInOrder rest false state
    else pure state

/-- A record.  `byName` and `byOrder` say what the fields read come to, or which is missing, for a
record written as an object and as an array. -/
def read {α : Type} (r : Record σ) (byName byOrder : σ → Except Mismatch α) : Reader α := do
  match ← peekWord with
  | none => throw .endsEarly
  | some '{' =>
    advance
    let state ← members strict r.readMember r.start
    let a ← accept (byName state)
    close '}'
    pure a
  | some '[' =>
    advance
    let state ← readInOrder r.fields true r.start
    let a ← accept (byOrder state)
    close ']'
    pure a
  | some c => refuse (.record r.name) c

end Record

end MessageTemplate.Json
