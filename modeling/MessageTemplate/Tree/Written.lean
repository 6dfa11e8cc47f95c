/-
Trees written as JSON.

A node is an object with a `type`, `TEXT` or `IF`, and its content; a node of the working form has
its derived fields as well.  Only the stored form is read back, by `Content.parse`.  There every
field may be absent or null, which stands for an empty text or an empty forest, a branch may go by
its older name (`Content.branchOfKey?`), and members with other names are ignored.

A node that stands in the text itself is read by `TaggedUnion.read`, and the nodes below it are
found in the plain values that this has kept (`Content.ofValue`); so there are two ways in, and both
end in the same reading of fields.

Kinds and branches are written on their own too, as their names.
-/
import MessageTemplate.Tree.Addressing
import MessageTemplate.Json.Union
import MessageTemplate.Json.Printer

set_option autoImplicit false

namespace MessageTemplate

open Json

/-! ## Kinds and branches -/

/-- A kind as JSON, which is its word as it stands in addresses (`Kind.word`). -/
def Kind.toJson (k : Kind) : Value := .string k.word

/-- A `Kind` in the text, by its `word`. -/
def Kind.read : Reader Kind :=
  readName (Kind.all.map fun k => (k.word, k))

/-- The kind that a source holds; `Kind.parse_holds` says that it is the one that was written. -/
def Kind.parse (source : String) : Except Fault Kind :=
  decode Kind.read source

/-- A branch as JSON, which is its name as a field, `Branch.key`, and not its suffix in an
address. -/
def Branch.toJson (b : Branch) : Value := .string b.key

/-- A `Branch` in the text, by its `key`. -/
def Branch.read : Reader Branch :=
  readName (Branch.all.map fun b => (b.key, b))

/-- The branch that a source holds; `Branch.parse_holds` says that it is the one that was
written. -/
def Branch.parse (source : String) : Except Fault Branch :=
  decode Branch.read source

/-! ## Writing -/

namespace Content

mutual

/-- The stored form of a node as a JSON `Value`, with the members in a fixed order and no branch
left out, even where it is empty. -/
def toJson : Content → Value
  | .text s => .object [("type", .string "TEXT"), ("text", .string s)]
  | .conditional c t e =>
    .object [("type", .string "IF"), ("condition", .array (forestToJson c)),
      ("then", .array (forestToJson t)), ("else", .array (forestToJson e))]

/-- The stored form of the nodes of a forest, as the elements of a JSON array: `toJson` of each. -/
def forestToJson : List Content → List Value
  | [] => []
  | n :: rest => toJson n :: forestToJson rest

end

end Content

namespace Node

mutual

/-- The working form of a node as a JSON `Value`: the stored form with the `address`, and for a text
with the `fingerprint` as well. -/
def toJson : Node → Value
  | .text a f s =>
    .object [("type", .string "TEXT"), ("address", .string a.text),
      ("fingerprint", .string f.text), ("text", .string s)]
  | .conditional a c t e =>
    .object [("type", .string "IF"), ("address", .string a.text),
      ("condition", .array (forestToJson c)), ("then", .array (forestToJson t)),
      ("else", .array (forestToJson e))]

/-- The working form of the nodes of a forest, as the elements of a JSON array: `toJson` of each. -/
def forestToJson : List Node → List Value
  | [] => []
  | n :: rest => toJson n :: forestToJson rest

end

end Node

namespace Template

/-- The `compact` text of a template's stored form, which is what a file holds. -/
def source (t : Template) : String :=
  (Value.array (Content.forestToJson t.contents)).compact

/-- The indented text of a template's stored form, which reads back as the same template as the
compact one (`Template.parse_indentedSource`). -/
def indentedSource (t : Template) : String :=
  (Value.array (Content.forestToJson t.contents)).indented

/-- The `compact` text of a template's working form.  It is shown and compared, and never read
back. -/
def working (t : Template) : String :=
  (Value.array (Node.forestToJson t.nodes)).compact

end Template

/-! ## Plain values as nodes -/

namespace Content

/-- A stored node as a union of two kinds, told apart by the string under `type`. -/
def union : TaggedUnion Kind where
  name := "RawNode"
  tagKey := "type"
  kinds := [("TEXT", .text), ("IF", .conditional)]

/-- The branch that a key names, by its own name (`then`, `else`) or by its older one.  Any other
key is none of a conditional's fields, and the member is ignored. -/
def branchOfKey? (key : String) : Option Branch :=
  if key = "condition" ∨ key = "condBranch" then some .condition
  else if key = "then" ∨ key = "thenBranch" then some .consequent
  else if key = "else" ∨ key = "elseBranch" then some .alternative
  else none

/-- The branches found so far among the fields of a conditional; `none` is a branch that has not
been met, and one that was met as null is empty. -/
structure Branches where
  condition : Option (List Content) := none
  consequent : Option (List Content) := none
  alternative : Option (List Content) := none
  deriving Inhabited

namespace Branches

/-- What has been found for a `Branch`, if it has been given. -/
def get? (s : Branches) : Branch → Option (List Content)
  | .condition => s.condition
  | .consequent => s.consequent
  | .alternative => s.alternative

/-- Adds what has been found for a branch, over what was there; the callers have looked with `get?`
before. -/
def put (s : Branches) (b : Branch) (forest : List Content) : Branches :=
  match b with
  | .condition => { s with condition := some forest }
  | .consequent => { s with consequent := some forest }
  | .alternative => { s with alternative := some forest }

/-- The `conditional` with these branches; one that was not given is empty. -/
def node (s : Branches) : Content :=
  .conditional (s.condition.getD []) (s.consequent.getD []) (s.alternative.getD [])

end Branches

/-- The text that a plain `Value` stands for: a string is itself, and `null` is the empty text. -/
def textOf : Value → Except Mismatch String
  | .null => .ok ""
  | v => v.asString

/-- The text among the fields of a `text` node.  A second member of that name is refused when it is
met, and members with other names are passed over. -/
def textField : Option String → List (String × Value) → Except Mismatch String
  | found, [] => .ok (found.getD "")
  | found, (key, v) :: rest =>
    if key = "text" then
      if found.isSome then .error (.duplicateField "text")
      else
        match textOf v with
        | .error cause => .error cause
        | .ok s => textField (some s) rest
    else textField found rest

/-- The text among the parts of a `text` node written in order, which may be missing but may not be
more than one. -/
def textItem : List Value → Except Mismatch String
  | [] => .ok ""
  | [v] => textOf v
  | v :: more =>
    match textOf v with
    | .error cause => .error cause
    | .ok _ => .error (.wrongLength (more.length + 1) (.items 1))

mutual

/-- The node that a plain `Value` stands for.  This is how all nodes are read that stand inside of
another one; only the outermost are read from the text, by `read`. -/
def ofValue : Value → Except Mismatch Content
  | .object members =>
    match union.kindOf (.object members) with
    | .error cause => .error cause
    | .ok .text => (textField none members).map .text
    | .ok .conditional => (branchFields {} members).map Branches.node
  | .array (tag :: items) =>
    match union.ofTagValue tag with
    | .error cause => .error cause
    | .ok .text => (textItem items).map .text
    | .ok .conditional => (branchItems Branch.all items.length {} items).map Branches.node
  | .array [] => .error (.missingField union.tagKey)
  | v => .error (.wrongType v.found (.union union.name))

/-- The forest that a plain value stands for: `null` for the empty one, or an array of nodes. -/
def forestOf : Value → Except Mismatch (List Content)
  | .null => .ok []
  | .array items => nodesOf items
  | v => .error (.wrongType v.found .sequence)

/-- The nodes that some plain values stand for; the first one that is refused by `ofValue` is the
error of all. -/
def nodesOf : List Value → Except Mismatch (List Content)
  | [] => .ok []
  | v :: rest =>
    match ofValue v with
    | .error cause => .error cause
    | .ok n =>
      match nodesOf rest with
      | .error cause => .error cause
      | .ok more => .ok (n :: more)

/-- The branches among the fields of a conditional, added to those `found`.  The second member for a
branch is refused by whichever of its two names it comes. -/
def branchFields (found : Branches) : List (String × Value) → Except Mismatch Branches
  | [] => .ok found
  | (key, v) :: rest =>
    match branchOfKey? key with
    | none => branchFields found rest
    | some b =>
      if (found.get? b).isSome then .error (.duplicateField b.key)
      else
        match forestOf v with
        | .error cause => .error cause
        | .ok forest => branchFields (found.put b forest) rest

/-- The branches of a conditional written in order, `total` parts in all; those left out at the end
are empty, and there may be no more than three. -/
def branchItems (order : List Branch) (total : Nat) (found : Branches) :
    List Value → Except Mismatch Branches
  | [] => .ok found
  | v :: rest =>
    match order with
    | [] => .error (.wrongLength total (.items Branch.all.length))
    | b :: more =>
      match forestOf v with
      | .error cause => .error cause
      | .ok forest => branchItems more total (found.put b forest) rest

end

/-- The node of a kind and its parts, by name or in order, as `TaggedUnion.read` has kept them. -/
def ofParts : Kind → Parts → Except Mismatch Content
  | .text, .fields members => (textField none members).map .text
  | .text, .positional items => (textItem items).map .text
  | .conditional, .fields members => (branchFields {} members).map Branches.node
  | .conditional, .positional items =>
    (branchItems Branch.all items.length {} items).map Branches.node

/-! ## Reading -/

/-- A node in the text, inside which at most `depth` brackets may be open, its own among them. -/
def read (depth : Nat) : Reader Content := do
  let (kind, parts) ← union.read depth
  accept (ofParts kind parts)

/-- A forest in the text.  Null stands for the empty one; otherwise it is an array, whose bracket
counts against `nestingLimit`. -/
def readForest : Reader (List Content) := do
  if (← peekWord) = some 'n' then
    literal ['n', 'u', 'l', 'l']
    pure []
  else readSequence (read (nestingLimit - 1))

/-- The stored forest that a source holds, or the first `Fault` that is met in it. -/
def parse (source : String) : Except Fault (List Content) :=
  decode readForest source

end Content

/-- The template that a source holds: the stored forest, built by `Template.ofContents`. -/
def Template.parse (source : String) : Except Fault Template :=
  (Content.parse source).map .ofContents

end MessageTemplate
