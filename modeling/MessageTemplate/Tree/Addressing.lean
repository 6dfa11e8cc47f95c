/-
From the stored form to the working form and back, and bringing the derived fields of a working tree
up to date.

Three rules are kept by everything here.  A node's address is the path of its position.  A text's
fingerprint is that of its text.  No forest is empty: an empty one is filled with one empty text,
which changes nothing that is shown.  `Template.WellFormed` says that a template keeps all three.

Each direction is three functions by mutual recursion, and they part at the same places: one for a
node at a position, one for a whole forest, which is filled if it is empty, and one for the rest of
a forest from a position on, which is not.
-/
import MessageTemplate.Tree.Node

set_option autoImplicit false

namespace MessageTemplate

/-! ## Building -/

namespace Content

mutual

/-- The working form, `Node`, of a `Content` at a position of a forest, with the address of this
place and the fingerprint of its text. -/
def place (path : Address) (index : Nat) : Content → Node
  | .text s => .text (path.child index .text) (.of s) s
  | .conditional c t e =>
    let a := path.child index .conditional
    .conditional a (placeForest (a.branch .condition) c) (placeForest (a.branch .consequent) t)
      (placeForest (a.branch .alternative) e)

/-- The working form of the forest at a path.  Only here is anything filled: an empty forest becomes
one empty text, which is where `Node.contents` and `placeForest` are not inverse. -/
def placeForest (path : Address) : List Content → List Node
  | [] => [.text (path.child 0 .text) (.of "") ""]
  | n :: rest => place path 0 n :: placeFrom path 1 rest

/-- The working form of the nodes of a forest from the position `index` on; nothing is filled, as
the nodes before them are already there. -/
def placeFrom (path : Address) (index : Nat) : List Content → List Node
  | [] => []
  | n :: rest => place path index n :: placeFrom path (index + 1) rest

end

mutual

/-- The node with its content and no addresses, as it is before it gets a place in a tree.  Its
empty branches are filled all the same, by `Node.ofBranches`. -/
def unplaced : Content → Node
  | .text s => .ofText s
  | .conditional c t e => .ofBranches (unplacedForest c) (unplacedForest t) (unplacedForest e)

/-- The nodes of a forest before it gets a place in a tree, each `unplaced`; the forest itself may
be empty. -/
def unplacedForest : List Content → List Node
  | [] => []
  | n :: rest => unplaced n :: unplacedForest rest

end

end Content

/-! ## Stripping and refreshing -/

namespace Node

mutual

/-- The content of a node, without address and fingerprint: the inverse of `Content.place` but for
what that fills. -/
def content : Node → Content
  | .text _ _ s => .text s
  | .conditional _ c t e => .conditional (contents c) (contents t) (contents e)

/-- The `Content` of a forest, node by node. -/
def contents : List Node → List Content
  | [] => []
  | n :: rest => content n :: contents rest

end

mutual

/-- The node at a position of a forest with its derived fields computed anew, as `place` computes
them.  Neither the address nor the fingerprint that it carries is looked at. -/
def refresh (path : Address) (index : Nat) : Node → Node
  | .text _ _ s => .text (path.child index .text) (.of s) s
  | .conditional _ c t e =>
    let a := path.child index .conditional
    .conditional a (refreshForest (a.branch .condition) c) (refreshForest (a.branch .consequent) t)
      (refreshForest (a.branch .alternative) e)

/-- The forest at a path with its derived fields computed anew.  An empty forest is filled as in
`placeForest`, wherever it stands in the tree. -/
def refreshForest (path : Address) : List Node → List Node
  | [] => [.text (path.child 0 .text) (.of "") ""]
  | n :: rest => refresh path 0 n :: refreshFrom path 1 rest

/-- The nodes of a forest from the position `index` on, computed anew; their addresses count on from
there. -/
def refreshFrom (path : Address) (index : Nat) : List Node → List Node
  | [] => []
  | n :: rest => refresh path index n :: refreshFrom path (index + 1) rest

end

end Node

/-! ## Templates -/

namespace Template

/-- The template of a stored forest, built by `Content.placeForest` from the root on. -/
def ofContents (forest : List Content) : Template :=
  ⟨Content.placeForest .root forest⟩

/-- The template of nothing: one empty text.  A document whose file does not exist starts with it
(`Document.load`). -/
def blank : Template := ofContents []

/-- The stored form, `Content`, of a template, which is what is written to its file. -/
def contents (t : Template) : List Content :=
  Node.contents t.nodes

/-- The template with every derived field computed anew by `Node.refreshForest`, as the structural
edits leave it. -/
def refresh (t : Template) : Template :=
  ⟨Node.refreshForest .root t.nodes⟩

/-- The template of a working forest, wherever its nodes come from; what they carry is computed anew
by `refreshForest`. -/
def ofNodes (forest : List Node) : Template :=
  Template.refresh ⟨forest⟩

end Template

/-! ## Well-formed trees -/

namespace Node

mutual

/-- A node `n` stands at a position of a forest as it should: its address is the path of this
position, its fingerprint is current, and its branches are well formed. -/
def Placed (path : Address) (index : Nat) : Node → Prop
  | .text a f s => a = path.child index .text ∧ f = .of s
  | .conditional a c t e =>
    a = path.child index .conditional ∧ WellFormed (a.branch .condition) c ∧
      WellFormed (a.branch .consequent) t ∧ WellFormed (a.branch .alternative) e

/-- The forest at a path is not empty, and its nodes are `Placed`, counted from position 0. -/
def WellFormed (path : Address) : List Node → Prop
  | [] => False
  | n :: rest => Placed path 0 n ∧ PlacedFrom path 1 rest

/-- The nodes of a forest from the position `index` on stand as they should; there may be none. -/
def PlacedFrom (path : Address) (index : Nat) : List Node → Prop
  | [] => True
  | n :: rest => Placed path index n ∧ PlacedFrom path (index + 1) rest

end

end Node

/-- A template is well formed if its forest is `Node.WellFormed`, from the root on.  Every template
that a session can come to hold is (`Session.templates_wellFormed`). -/
def Template.WellFormed (t : Template) : Prop :=
  Node.WellFormed .root t.nodes

end MessageTemplate
