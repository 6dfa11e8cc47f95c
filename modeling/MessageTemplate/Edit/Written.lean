/-
Edits and carets written as JSON.

An edit is an object with its name under `op` and its fields, or an array of its name and its fields
in order.  Members that an edit does not know are read and then ignored.

Which edit it is may come last, so the members are read as plain values first (`TaggedUnion.read`)
and are given their meaning when the name is known.  `EditKind.fields` is the table of what each
edit takes; everything that reads fields goes by it, and `EditFields` gathers what has been found of
the three fields that edits have among them.
-/
import MessageTemplate.Edit.Basic
import MessageTemplate.Json.Union
import MessageTemplate.Json.Printer

set_option autoImplicit false

namespace MessageTemplate

open Json

/-! ## Writing -/

/-- An edit as JSON, written as an object with `op` first. -/
def Edit.toJson (e : Edit) : Value :=
  match e with
  | .insertText a caret s =>
    .object [("op", .string e.name), ("address", .string a.text),
      ("caret", .number (.natural caret)), ("text", .string s)]
  | .replaceText a s =>
    .object [("op", .string e.name), ("address", .string a.text), ("text", .string s)]
  | .insertConditional a caret =>
    .object [("op", .string e.name), ("address", .string a.text),
      ("caret", .number (.natural caret))]
  | .deleteConditional a => .object [("op", .string e.name), ("address", .string a.text)]

/-- A `Focus` as JSON, written as an object. -/
def Focus.toJson (f : Focus) : Value :=
  .object [("address", .string f.address.text), ("caret", .number (.natural f.caret))]

/-! ## Kinds of edits -/

/-- The four edits without their fields, which is all that the name under `op` says. -/
inductive EditKind where
  | insertText
  | replaceText
  | insertConditional
  | deleteConditional
  deriving DecidableEq, Repr

/-- The three fields that the edits have among them, by `EditKind.fields`.  No edit has a field of
its own. -/
inductive EditField where
  | address
  | caret
  | text
  deriving DecidableEq, Repr

/-- The key of an `EditField` in an object. -/
def EditField.key : EditField → String
  | .address => "address"
  | .caret => "caret"
  | .text => "text"

namespace EditKind

/-- The fields of an edit of this `EditKind`, in the order in which an array has them. -/
def fields : EditKind → List EditField
  | .insertText => [.address, .caret, .text]
  | .replaceText => [.address, .text]
  | .insertConditional => [.address, .caret]
  | .deleteConditional => [.address]

/-- The name of an `EditKind` in a message about its fields. -/
def title : EditKind → String
  | .insertText => "struct variant Mutation::InsertText"
  | .replaceText => "struct variant Mutation::ReplaceText"
  | .insertConditional => "struct variant Mutation::InsertConditional"
  | .deleteConditional => "struct variant Mutation::DeleteConditional"

/-- Edits as a `TaggedUnion`: the key of the name, and the name of every edit. -/
def union : TaggedUnion EditKind where
  name := "Mutation"
  tagKey := "op"
  kinds :=
    [("insert_text", .insertText), ("replace_text", .replaceText),
      ("insert_conditional", .insertConditional), ("delete_conditional", .deleteConditional)]

end EditKind

/-! ## Fields from plain values -/

/-- The fields of an edit found so far, each with its meaning; `none` is a field that has not been
given. -/
structure EditFields where
  address : Option String := none
  caret : Option Nat := none
  text : Option String := none
  deriving DecidableEq, Repr, Inhabited

namespace EditFields

/-- Whether a field has been found, so that it must not come again: that would be a
`duplicateField`. -/
def has (s : EditFields) : EditField → Bool
  | .address => s.address.isSome
  | .caret => s.caret.isSome
  | .text => s.text.isSome

/-- Adds what a plain `Value` stands for as a field, or says why the value stands for nothing of the
kind. -/
def put (s : EditFields) (field : EditField) (v : Value) : Except Mismatch EditFields :=
  match field with
  | .address => v.asString.map fun a => { s with address := some a }
  | .caret => v.asSize.map fun n => { s with caret := some n }
  | .text => v.asString.map fun t => { s with text := some t }

/-- The fields of an edit among the members of an object.  A key that is not among `fields` is
passed over, a field that comes twice is refused. -/
def ofMembers (fields : List EditField) :
    EditFields → List (String × Value) → Except Mismatch EditFields
  | found, [] => .ok found
  | found, (key, v) :: rest =>
    match fields.find? (fun f => f.key = key) with
    | none => ofMembers fields found rest
    | some field =>
      if found.has field then .error (.duplicateField key)
      else
        match found.put field v with
        | .error cause => .error cause
        | .ok found => ofMembers fields found rest

/-- The fields of an edit written in order.  `total` is the number of all elements and `given`
counts those before the ones at hand; a message about a wrong number needs both. -/
def ofItems (kind : EditKind) (total given : Nat) :
    List EditField → EditFields → List Value → Except Mismatch EditFields
  | [], found, [] => .ok found
  | [], _, _ :: _ => .error (.wrongLength total (.items kind.fields.length))
  | _ :: _, _, [] => .error (.wrongLength given (.fieldsOf kind.title kind.fields.length))
  | field :: fields, found, v :: rest =>
    match found.put field v with
    | .error cause => .error cause
    | .ok found => ofItems kind total (given + 1) fields found rest

/-- The edit of a kind with the fields found, or a `missingField`, which names the first that is
missing. -/
def edit (s : EditFields) (kind : EditKind) : Except Mismatch Edit := do
  let address ← required "address" s.address
  match kind with
  | .insertText =>
    let caret ← required "caret" s.caret
    let text ← required "text" s.text
    .ok (.insertText ⟨address⟩ caret text)
  | .replaceText =>
    let text ← required "text" s.text
    .ok (.replaceText ⟨address⟩ text)
  | .insertConditional =>
    let caret ← required "caret" s.caret
    .ok (.insertConditional ⟨address⟩ caret)
  | .deleteConditional => .ok (.deleteConditional ⟨address⟩)

end EditFields

/-! ## Reading -/

namespace Edit

/-- The edit of a kind and its parts.  The members of an object are sought by their keys
(`ofMembers`), the elements of an array are taken in order. -/
def ofParts (kind : EditKind) (parts : Parts) : Except Mismatch Edit := do
  let found ← match parts with
    | .fields members => EditFields.ofMembers kind.fields {} members
    | .positional items => EditFields.ofItems kind items.length 0 kind.fields {} items
  found.edit kind

/-- Reads an `Edit` where the reader stands. -/
def read : Reader Edit := do
  let (kind, parts) ← EditKind.union.read nestingLimit
  accept (ofParts kind parts)

/-- The `Edit` that a source holds, with nothing behind it but blanks. -/
def parse (source : String) : Except Fault Edit :=
  decode read source

end Edit

namespace Focus

/-- A `Focus` as a `Record`: it has two fields, and both are needed. -/
def record : Record (Option String × Option Nat) where
  name := "Focus"
  start := (none, none)
  fields :=
    [{ name := "address"
       given := fun s => s.1.isSome
       read := fun s => do return (some (← readString .string), s.2) },
     { name := "caret"
       given := fun s => s.2.isSome
       read := fun s => do return (s.1, some (← readSize)) }]

/-- The `Focus` of the fields of an object; the first field that is missing is named. -/
def ofFields (s : Option String × Option Nat) : Except Mismatch Focus := do
  let address ← required "address" s.1
  let caret ← required "caret" s.2
  .ok ⟨⟨address⟩, caret⟩

/-- The `Focus` of the elements of an array; when one is missing, the message counts those before
it. -/
def ofElements : Option String × Option Nat → Except Mismatch Focus
  | (some address, some caret) => .ok ⟨⟨address⟩, caret⟩
  | (none, _) => .error (.wrongLength 0 (.fieldsOf (Expected.record "Focus").text 2))
  | (some _, none) => .error (.wrongLength 1 (.fieldsOf (Expected.record "Focus").text 2))

/-- The `Focus` that a source holds, with nothing behind it but blanks. -/
def parse (source : String) : Except Fault Focus :=
  decode (record.read ofFields ofElements) source

end Focus

end MessageTemplate
