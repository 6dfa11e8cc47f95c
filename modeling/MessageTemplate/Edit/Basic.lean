/-
The four edits of a template, as values and as what they do.

An `Edit` names the node it is meant for by its address, and so it is meant for the template that
the address was read from.  It is also meant for a kind of node: a conditional is deleted, and
everything else is done to a text.  `Template.target` is the one place where both are looked at, so
all edits refuse a wrong address in the same words.  Carets count characters (`cutAt`); one beyond
the end of a text stands for its end (`clampCaret`).

`Edit.apply` gives a new template or an `EditError` that says why the edit does not apply; the
template it is given stays as it is.  Edits of a text change that text and its fingerprint and
nothing else (`Template.setTextAt`).  Inserting and deleting a conditional change the number of
siblings, so every derived field is computed anew by `Template.refresh`.  `Edit.check` says whether
an edit would apply without building a template.
-/
import MessageTemplate.Address.Basic
import MessageTemplate.Tree.Resolve
import MessageTemplate.Tree.Addressing

set_option autoImplicit false

namespace MessageTemplate

/-! ## Edits -/

/-- Where editing goes on: the `address` of a text, and a `caret` in it that counts characters. -/
structure Focus where
  address : Address
  caret : Nat
  deriving DecidableEq, Repr, Inhabited

/-- An edit of a template.  `insertConditional` splits a text at a caret, and `deleteConditional`
takes the seam away as well: the texts on both sides become one. -/
inductive Edit where
  | insertText (address : Address) (caret : Nat) (text : String)
  | replaceText (address : Address) (text : String)
  | insertConditional (address : Address) (caret : Nat)
  | deleteConditional (address : Address)
  deriving DecidableEq, Repr

namespace Edit

/-- The address of the node that an `Edit` is meant for, as it was written; it need not lead
anywhere. -/
def address : Edit → Address
  | .insertText a _ _ => a
  | .replaceText a _ => a
  | .insertConditional a _ => a
  | .deleteConditional a => a

/-- The `Kind` of node that an edit is meant for.  Only a deletion is meant for a conditional; a
conditional is inserted into a text. -/
def kind : Edit → Kind
  | .insertText _ _ _ => .text
  | .replaceText _ _ => .text
  | .insertConditional _ _ => .text
  | .deleteConditional _ => .conditional

/-- The name of an edit, as the commands print it and as JSON has it under `op`. -/
def name : Edit → String
  | .insertText _ _ _ => "insert_text"
  | .replaceText _ _ => "replace_text"
  | .insertConditional _ _ => "insert_conditional"
  | .deleteConditional _ => "delete_conditional"

end Edit

/-! ## Refusals -/

/-- Why an edit does not apply: the address leads nowhere (`unresolved`), or it leads to a node of
the wrong kind. -/
inductive EditError where
  | unresolved (cause : AddressError)
  | notText (address : Address)
  | notConditional (address : Address)
  deriving DecidableEq, Repr

/-- The refusal of a node that is not of the kind asked for, `notText` or `notConditional`. -/
def Kind.misfit (a : Address) : Kind → EditError
  | .text => .notText a
  | .conditional => .notConditional a

namespace EditError

/-- The message of an `EditError`, which shows the address as it was given. -/
def text : EditError → String
  | .unresolved cause => cause.text
  | .notText a => s!"Node is not text: {a.text}"
  | .notConditional a => s!"Node is not a conditional: {a.text}"

/-- Whether the address is no path at all, so that `segments` refuses it.  No template has a node
for it, so trying the edit again is of no use. -/
def isMalformed : EditError → Bool
  | .unresolved cause => cause.isMalformed
  | _ => false

/-- Whether the address is a path that leads to no fitting node.  In another template it may, so
this is the opposite of `isMalformed`. -/
def isStructural (e : EditError) : Bool :=
  !e.isMalformed

end EditError

/-! ## Carets -/

/-- A text cut at a caret: the characters before it and those after it.  A caret beyond the end
counts as one at the end, as in `clampCaret`. -/
def cutAt (s : String) (caret : Nat) : String × String :=
  (String.ofList (s.toList.take caret), String.ofList (s.toList.drop caret))

/-- The caret in a text: one beyond the end stands at the end, where `cutAt` cuts. -/
def clampCaret (s : String) (caret : Nat) : Nat :=
  min caret s.length

/-! ## Finding the node -/

/-- The node that an address was found to lead to, if it is of the kind that an edit asks for, and
the refusal of that kind (`Kind.misfit`) if not. -/
def Kind.demand (k : Kind) (a : Address) :
    Except AddressError (Site × Node) → Except EditError (Site × Node)
  | .error cause => .error (.unresolved cause)
  | .ok (site, n) => if n.kind = k then .ok (site, n) else .error (k.misfit a)

namespace Template

/-- The `Site` of a node of a kind, and what the edit `demand`s of the node.  The address is
followed first, so a path that leads nowhere is refused before its kind is looked at. -/
def target (t : Template) (k : Kind) (a : Address) : Except EditError (Site × Node) :=
  k.demand a (Node.siteOf t.nodes a)

/-- The place of a text, and the characters of the text.  Since the node is a text, `getD` never has
to help out. -/
def textTarget (t : Template) (a : Address) : Except EditError (Site × String) :=
  (t.target .text a).map fun (site, n) => (site, n.text?.getD "")

/-- The `Site` of a conditional.  The node itself is of no interest to who deletes it. -/
def conditionalTarget (t : Template) (a : Address) : Except EditError Site :=
  (t.target .conditional a).map Prod.fst

end Template

/-! ## Edits of a text -/

/-- A node with its text exchanged, and the `Fingerprint` with it.  Its address stays, and a
conditional stays as it is. -/
def Node.setText (s : String) : Node → Node
  | .text a _ _ => .text a (.of s) s
  | n => n

namespace Template

/-- Exchanges the text at a `Site`.  Siblings keep their number, so no address has to be computed
anew. -/
def setTextAt (t : Template) (site : Site) (s : String) : Template :=
  ⟨site.exchange (fun owner => owner.modify site.index (Node.setText s)) t.nodes⟩

/-- Puts a `literal` into a text at a caret.  The focus stands behind it, in the same text. -/
def insertText (t : Template) (a : Address) (caret : Nat) (literal : String) :
    Except EditError (Template × Focus) := do
  let (site, s) ← t.textTarget a
  let (before, after) := cutAt s caret
  .ok (t.setTextAt site (before ++ literal ++ after),
    ⟨a, clampCaret s caret + literal.length⟩)

/-- Exchanges a text as a whole.  Where editing goes on is left to the caller, so there is no
`Focus`. -/
def replaceText (t : Template) (a : Address) (s : String) : Except EditError Template := do
  let (site, _) ← t.textTarget a
  .ok (t.setTextAt site s)

/-! ## Edits of the structure -/

/-- Splits a text at a caret around a new conditional, so two more siblings stand where the text
stood.  The `Focus` is the first text of the new condition. -/
def insertConditional (t : Template) (a : Address) (caret : Nat) :
    Except EditError (Template × Address) := do
  let (site, s) ← t.textTarget a
  let (before, after) := cutAt s caret
  let nodes := [Node.ofText before, Node.emptyConditional, Node.ofText after]
  let edited := Template.mk (site.splice site.index (site.index + 1) nodes t.nodes)
  let focus := ((a.sibling (site.index + 1) .conditional).branch .condition).child 0 .text
  .ok (edited.refresh, focus)

/-- Deletes a conditional and makes one text of the texts next to it.  On a side where no text
stands nothing is joined, and if there is none on either side an empty text takes the conditional's
place.  The `Focus` stands at the seam, where the conditional stood. -/
def deleteConditional (t : Template) (a : Address) : Except EditError (Template × Focus) := do
  let site ← t.conditionalTarget a
  let owner := site.siblings t.nodes
  -- The site at hand: what is joined lies between `start` and `stop` among the siblings.
  let previous := if site.index = 0 then none else owner[site.index - 1]?.bind Node.text?
  let next := owner[site.index + 1]?.bind Node.text?
  let start := if previous.isSome then site.index - 1 else site.index
  let stop := if next.isSome then site.index + 2 else site.index + 1
  let before := previous.getD ""
  let merged := Node.ofText (before ++ next.getD "")
  let edited := Template.mk (site.splice start stop [merged] t.nodes)
  .ok (edited.refresh, ⟨a.sibling start .text, before.length⟩)

end Template

/-! ## Edits as values -/

/-- What an edit comes to: the new `template`, and the `focus`, where editing goes on, if the edit
decides it.  An exchange of a whole text does not. -/
structure Edited where
  template : Template
  focus : Option Focus
  deriving DecidableEq, Inhabited

namespace Edit

/-- Applies an `Edit`, by the operation that belongs to it. -/
def apply (e : Edit) (t : Template) : Except EditError Edited :=
  match e with
  | .insertText a caret s => (t.insertText a caret s).map fun (t, focus) => ⟨t, some focus⟩
  | .replaceText a s => (t.replaceText a s).map fun t => ⟨t, none⟩
  | .insertConditional a caret =>
    (t.insertConditional a caret).map fun (t, focus) => ⟨t, some ⟨focus, 0⟩⟩
  | .deleteConditional a => (t.deleteConditional a).map fun (t, focus) => ⟨t, some focus⟩

/-- Says whether an edit applies, without building a template.  It reads the tree by `Node.resolve`,
where `apply` looks for a site, and it judges the kind of the node by itself; `Edit.check_foretells`
shows that both come to the same answer. -/
def check (e : Edit) (t : Template) : Except EditError Unit := do
  let found ← (Node.resolve t.nodes e.address).mapError .unresolved
  match e, found.node.kind with
  | .deleteConditional _, .conditional => .ok ()
  | .deleteConditional a, .text => .error (.notConditional a)
  | _, .text => .ok ()
  | e, .conditional => .error (.notText e.address)

end Edit

end MessageTemplate
