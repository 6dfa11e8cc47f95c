/-
Resolving an address against a forest.

The segments of the address are followed one by one from the root.  At each the position must exist
and hold a node of the kind that the segment names (`Segment.lookUp`); the first step at which tree
and address part is the error, together with the path up to it.

There are two answers.  Who reads wants the node with its siblings, and gets it from `Node.resolve`.
Who edits wants a `Site`, the way to the forest that owns the node, so that this forest can be
exchanged and everything around it stays; `Node.siteOf` gives it.
-/
import MessageTemplate.Tree.Node
import MessageTemplate.Address.Basic

set_option autoImplicit false

namespace MessageTemplate

/-! ## One step -/

/-- The node that a `Segment` names in the forest at a path.  Both refusals name the place by the
path and the segment, whether it is past the end or holds a node of the other kind. -/
def Segment.lookUp (s : Segment) (path : Address) (forest : List Node) :
    Except AddressError Node :=
  match forest[s.index]? with
  | none => .error (.outOfRange (path.child s.index s.kind) s.index forest.length)
  | some n =>
    if n.kind = s.kind then .ok n
    else .error (.wrongKind (path.child s.index s.kind) s.kind n.kind)

/-- The branch by which a segment goes on.  A decoded address has one wherever it is asked for, so
the refusal is never seen (`Malformation.branchMissing`). -/
def Segment.descent (s : Segment) (a : Address) : Except AddressError Branch :=
  match s.branch with
  | some b => .ok b
  | none => .error (.malformed a .branchMissing)

/-! ## Reading -/

/-- A node with the forest that owns it and its position there, which is what reading needs:
`siblings[index]?` is the node. -/
structure Resolved where
  node : Node
  siblings : List Node
  index : Nat
  deriving Inhabited

namespace Node

/-- Follows segments from the forest at a path.  `a` is the whole address and only stands in errors;
the last segment is looked up, and every other one is looked up and gone through. -/
def follow (a : Address) : Address → List Node → List Segment → Except AddressError Resolved
  | _, _, [] => .error (.malformed a .noSegments)
  | path, forest, [s] => do
    let n ← s.lookUp path forest
    .ok ⟨n, forest, s.index⟩
  | path, forest, s :: next :: rest => do
    let n ← s.lookUp path forest
    let b ← s.descent a
    follow a ((path.child s.index s.kind).branch b) (n.branch b) (next :: rest)

/-- The node at an address, for reading: the address is decoded by `segments`, and these are
followed from the root by `follow`. -/
def resolve (forest : List Node) (a : Address) : Except AddressError Resolved := do
  let segments ← a.segments
  follow a .root forest segments

end Node

/-! ## Editing -/

/-- A way down to a forest: at each step a position and a branch of the conditional there.  Unlike
an `Address` it names no kinds, and says nothing of the node in the end. -/
abbrev Way := List (Nat × Branch)

namespace Node

/-- The forest at the end of a `Way`; a way that leads nowhere ends in the empty forest. -/
def forestAt : List Node → Way → List Node
  | forest, [] => forest
  | forest, (i, b) :: rest =>
    match forest[i]? with
    | some n => forestAt (n.branch b) rest
    | none => []

/-- Exchanges the forest at the end of a way by `f`.  A way that leads past the end of a forest
changes nothing, and so does one into a text. -/
def exchange (f : List Node → List Node) : List Node → Way → List Node
  | forest, [] => f forest
  | forest, (i, b) :: rest =>
    forest.modify i fun n => n.setBranch b (exchange f (n.branch b) rest)

end Node

/-- Where a node can be edited: the `way` to the forest that owns it, and its `index` there. -/
structure Site where
  way : Way
  index : Nat
  deriving DecidableEq, Repr, Inhabited

namespace Site

/-- The forest that owns the node, `forestAt` the way, with the node itself among its siblings. -/
def siblings (s : Site) (forest : List Node) : List Node :=
  Node.forestAt forest s.way

/-- Exchanges the forest that owns the node, by `Node.exchange` along the way of the site. -/
def exchange (s : Site) (f : List Node → List Node) (forest : List Node) : List Node :=
  Node.exchange f forest s.way

/-- Puts nodes in the place of the siblings from `start` up to but not including `stop`; this is how
the structural edits change a tree. -/
def splice (s : Site) (start stop : Nat) (nodes : List Node) (forest : List Node) : List Node :=
  s.exchange (fun owner => owner.take start ++ nodes ++ owner.drop stop) forest

/-- Puts one node in the place of the node at this site, and leaves the other `siblings`. -/
def replace (s : Site) (n : Node) (forest : List Node) : List Node :=
  s.exchange (fun owner => owner.set s.index n) forest

/-- The site one step further in: what is at `s` below the branch of a conditional, seen from the
forest that owns the conditional. -/
def below (step : Nat × Branch) (s : Site) : Site :=
  ⟨step :: s.way, s.index⟩

end Site

namespace Node

/-- Follows segments from the forest at a path to the place of an edit, and gives the node there
too.  It looks up what `Node.follow` looks up, in the same order, and makes the site on the way
back. -/
def followToSite (a : Address) :
    Address → List Node → List Segment → Except AddressError (Site × Node)
  | _, _, [] => .error (.malformed a .noSegments)
  | path, forest, [s] => do
    let n ← s.lookUp path forest
    .ok (⟨[], s.index⟩, n)
  | path, forest, s :: next :: rest => do
    let n ← s.lookUp path forest
    let b ← s.descent a
    let (site, found) ←
      followToSite a ((path.child s.index s.kind).branch b) (n.branch b) (next :: rest)
    .ok (site.below (s.index, b), found)

/-- The `Site` at an address where the tree can be edited, and the node there.  The segments are
gone through by `followToSite`. -/
def siteOf (forest : List Node) (a : Address) : Except AddressError (Site × Node) := do
  let segments ← a.segments
  followToSite a .root forest segments

end Node

end MessageTemplate
