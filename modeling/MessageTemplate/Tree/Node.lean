/-
The two forms of a template's tree.

A tree is a forest of texts and conditionals, and a conditional owns three forests.  The stored
form, `Content`, carries this and nothing else; it is what a file holds.  The working form, `Node`,
adds to every node its `Address` and to every text a `Fingerprint`; both can be computed from the
content (`Content.placeForest`), and both are kept because others hold on to them between edits.

Equality of either form is decided by recursion on the tree, `Node.decEq` and `Content.decEq`, so
that what a template comes to on a fixed input can be found out by evaluating it.
-/
import MessageTemplate.Address.Basic
import MessageTemplate.Text.Units

set_option autoImplicit false

namespace MessageTemplate

/-! ## Stored form -/

/-- A node's content: the string of a `text`, or the three forests of a `conditional`.  Any forest
may be empty here; the working form, `Node`, has none that is. -/
inductive Content where
  | text (text : String)
  | conditional (condition consequent alternative : List Content)
  deriving Inhabited, Repr

/-- The kind of a stored node, which its `type` is written from and judged by. -/
def Content.kind : Content → Kind
  | .text _ => .text
  | .conditional _ _ _ => .conditional

/-! ## Fingerprints -/

/-- A short text, made by `checksum`, that stands for a longer one.  Equal texts have equal
fingerprints, so a display may keep what it has drawn while the fingerprint stays. -/
structure Fingerprint where
  text : String
  deriving DecidableEq, Repr, Inhabited

/-- The fingerprint of a text is its `Text.checksum`.  That of a node may be out of date, if its
text was exchanged in place; `Node.refresh` brings it up to date. -/
def Fingerprint.of (s : String) : Fingerprint := ⟨Text.checksum s⟩

/-! ## Working form -/

/-- A node with its address, and with its fingerprint if it is a text.  Whether both are those of
its place is not part of the type but said by `Node.Placed`. -/
inductive Node where
  | text (address : Address) (fingerprint : Fingerprint) (text : String)
  | conditional (address : Address) (condition consequent alternative : List Node)
  deriving Inhabited, Repr

namespace Node

/-- The kind of a node.  An edit is refused where the node is not of the kind it is meant for
(`Kind.demand`). -/
def kind : Node → Kind
  | .text _ _ _ => .text
  | .conditional _ _ _ _ => .conditional

/-- The address that a node carries, which need not be the one of the place where it stands;
`Node.Placed` says that it is. -/
def address : Node → Address
  | .text a _ _ => a
  | .conditional a _ _ _ => a

/-- The text of a node that is one, and `none` for a conditional. -/
def text? : Node → Option String
  | .text _ _ s => some s
  | .conditional _ _ _ _ => none

/-- A branch of a node.  A text has none, which is the empty forest, so that a way through a text
leads nowhere (`Node.forestAt`). -/
def branch : Node → Branch → List Node
  | .text _ _ _, _ => []
  | .conditional _ c _ _, .condition => c
  | .conditional _ _ t _, .consequent => t
  | .conditional _ _ _ e, .alternative => e

/-- The node with a `Branch` replaced.  A text stays as it is, as it has no branches; everything
else about the node stays too. -/
def setBranch : Node → Branch → List Node → Node
  | .text a f s, _, _ => .text a f s
  | .conditional a _ t e, .condition, forest => .conditional a forest t e
  | .conditional a c _ e, .consequent, forest => .conditional a c forest e
  | .conditional a c t _, .alternative, forest => .conditional a c t forest

/-- A text that has no address yet: it carries `Address.root`, and `Node.refresh` gives it the one
of its place. -/
def ofText (s : String) : Node := .text .root (.of s) s

/-- A forest with one empty text in place of nothing.  This is done with the branches of a node that
has no place yet, by `Node.ofBranches`. -/
def filled : List Node → List Node
  | [] => [ofText ""]
  | n :: rest => n :: rest

/-- A conditional that has no address yet; none of its branches is empty, because each is
`filled`. -/
def ofBranches (condition consequent alternative : List Node) : Node :=
  .conditional .root (filled condition) (filled consequent) (filled alternative)

/-- A conditional that says nothing either way: each of its branches is one empty text.  This is
what `insertConditional` puts between the halves of a text. -/
def emptyConditional : Node := ofBranches [] [] []

end Node

/-! ## Templates -/

/-- A template is a working forest.  Well-formedness is not part of the type but said by
`Template.WellFormed`, since a document may be handed any forest. -/
structure Template where
  nodes : List Node
  deriving Inhabited, Repr

/-! ## Equality -/

namespace Node

mutual

/-- Decides whether two nodes are the same, fields first and then branch by branch.  The instance
cannot be derived, since a `Node` contains lists of nodes. -/
def decEq : (m n : Node) → Decidable (m = n)
  | .text a f s, .text b g t =>
    if h : a = b ∧ f = g ∧ s = t then .isTrue (by obtain ⟨rfl, rfl, rfl⟩ := h; rfl)
    else .isFalse (by rintro ⟨⟩; exact h ⟨rfl, rfl, rfl⟩)
  | .text _ _ _, .conditional _ _ _ _ => .isFalse nofun
  | .conditional _ _ _ _, .text _ _ _ => .isFalse nofun
  | .conditional a c t e, .conditional b c' t' e' =>
    match (inferInstance : Decidable (a = b)), decEqForest c c', decEqForest t t',
      decEqForest e e' with
    | .isTrue h₁, .isTrue h₂, .isTrue h₃, .isTrue h₄ => .isTrue (by subst h₁ h₂ h₃ h₄; rfl)
    | .isFalse h, _, _, _ => .isFalse (by rintro ⟨⟩; exact h rfl)
    | _, .isFalse h, _, _ => .isFalse (by rintro ⟨⟩; exact h rfl)
    | _, _, .isFalse h, _ => .isFalse (by rintro ⟨⟩; exact h rfl)
    | _, _, _, .isFalse h => .isFalse (by rintro ⟨⟩; exact h rfl)

/-- Decides whether two forests are the same, node by node from the front, together with
`Node.decEq`. -/
def decEqForest : (xs ys : List Node) → Decidable (xs = ys)
  | [], [] => .isTrue rfl
  | [], _ :: _ => .isFalse nofun
  | _ :: _, [] => .isFalse nofun
  | x :: xs, y :: ys =>
    match decEq x y, decEqForest xs ys with
    | .isTrue h₁, .isTrue h₂ => .isTrue (by subst h₁ h₂; rfl)
    | .isFalse h, _ => .isFalse (by rintro ⟨⟩; exact h rfl)
    | _, .isFalse h => .isFalse (by rintro ⟨⟩; exact h rfl)

end

instance : DecidableEq Node := decEq

end Node

instance : DecidableEq Template := fun s t =>
  decidable_of_iff (s.nodes = t.nodes) (by cases s; cases t; simp)

namespace Content

mutual

/-- Decides whether two stored nodes are the same, in the way of `Node.decEq`. -/
def decEq : (m n : Content) → Decidable (m = n)
  | .text s, .text t =>
    if h : s = t then .isTrue (by subst h; rfl) else .isFalse (by rintro ⟨⟩; exact h rfl)
  | .text _, .conditional _ _ _ => .isFalse nofun
  | .conditional _ _ _, .text _ => .isFalse nofun
  | .conditional c t e, .conditional c' t' e' =>
    match decEqForest c c', decEqForest t t', decEqForest e e' with
    | .isTrue h₁, .isTrue h₂, .isTrue h₃ => .isTrue (by subst h₁ h₂ h₃; rfl)
    | .isFalse h, _, _ => .isFalse (by rintro ⟨⟩; exact h rfl)
    | _, .isFalse h, _ => .isFalse (by rintro ⟨⟩; exact h rfl)
    | _, _, .isFalse h => .isFalse (by rintro ⟨⟩; exact h rfl)

/-- Decides whether two stored forests are the same, node by node from the front, together with
`Content.decEq`. -/
def decEqForest : (xs ys : List Content) → Decidable (xs = ys)
  | [], [] => .isTrue rfl
  | [], _ :: _ => .isFalse nofun
  | _ :: _, [] => .isFalse nofun
  | x :: xs, y :: ys =>
    match decEq x y, decEqForest xs ys with
    | .isTrue h₁, .isTrue h₂ => .isTrue (by subst h₁ h₂; rfl)
    | .isFalse h, _ => .isFalse (by rintro ⟨⟩; exact h rfl)
    | _, .isFalse h => .isFalse (by rintro ⟨⟩; exact h rfl)

end

instance : DecidableEq Content := decEq

end Content

end MessageTemplate
