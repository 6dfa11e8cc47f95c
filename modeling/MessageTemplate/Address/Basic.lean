/-
Addresses of nodes: how they are written, what they mean, and what can be wrong with them.

A node's address is the path of sibling positions that leads to it.  Each `Segment` names a
position and the `Kind` of the node there, and every segment but the last names the `Branch` by
which the path goes on:

    /1-if-then/0-text

is the first node of the `then` branch of the conditional at position 1.  The empty path is
`Address.root`, which no node has.

An `Address` is kept as text, and the text may be anything a caller sends.  It is given a meaning
by `Address.segments`, which judges the segments from left to right, each first by its spelling
(`Segment.decode`) and then by its place.  Every position has one spelling only: decimal digits
without leading zeros, below `indexBound`.

An address leads to no node for one of two reasons, which `AddressError` keeps apart.  It may be no
path at all (`AddressError.malformed`), and then no tree has the node.  Or it may be a path that
this tree does not have: that is expected of an address read before another edit, and the error
names the step at which path and tree part.
-/

set_option autoImplicit false

namespace MessageTemplate

/-! ## Kinds and branches -/

/-- The two kinds of nodes: `text` and `conditional`.  A segment of an address names the kind of the
node it leads to, so that an address read from an older tree is noticed. -/
inductive Kind where
  | text
  | conditional
  deriving DecidableEq, Repr

/-- The three forests of a conditional: the `condition` decides, the `consequent` is shown if it
says something, and the `alternative` if it does not. -/
inductive Branch where
  | condition
  | consequent
  | alternative
  deriving DecidableEq, Repr

/-- Both kinds, in the order in which `Kind.read` tries their words. -/
def Kind.all : List Kind := [.text, .conditional]

/-- The word for a kind: it stands in addresses (`Segment.text`), in the outline and in the messages
of `AddressError.text`. -/
def Kind.word : Kind → String
  | .text => "text"
  | .conditional => "if"

namespace Branch

/-- The word for a branch inside an address, behind a dash: `cond`, `then` or `else`.  It differs
from `Branch.key` for the condition. -/
def suffix : Branch → String
  | .condition => "cond"
  | .consequent => "then"
  | .alternative => "else"

/-- The word for a branch as a field of a conditional that is written as JSON: `condition`, `then`
or `else`. -/
def key : Branch → String
  | .condition => "condition"
  | .consequent => "then"
  | .alternative => "else"

/-- All branches, in the order in which they are read and walked through: `condition` first. -/
def all : List Branch := [.condition, .consequent, .alternative]

/-- The branch that a suffix names, or `none`; the inverse of `Branch.suffix`. -/
def ofSuffix? (s : String) : Option Branch :=
  all.find? fun b => b.suffix = s

end Branch

/-! ## Addresses -/

/-- The text of an address.  Nothing is asked of the text: whether it is a path at all is found out
by `Address.segments`. -/
structure Address where
  text : String
  deriving DecidableEq, Repr, Inhabited

/-- One step of a path: a position, the kind of the node there, and the branch by which the path
goes on, if it does.  `Segment.text` writes a step and `Segment.decode` reads it. -/
structure Segment where
  index : Nat
  kind : Kind
  branch : Option Branch
  deriving DecidableEq, Repr

/-- The text of a `Segment`: a slash, the position in decimal digits, and the words of its kind and
branch with a dash in front of each. -/
def Segment.text (s : Segment) : String :=
  let step := "/" ++ s.index.repr ++ "-" ++ s.kind.word
  match s.branch with
  | none => step
  | some b => step ++ "-" ++ b.suffix

namespace Address

/-- The empty path, `Address.root`.  It is no address of a node, but the path of the forest that is
the whole tree. -/
def root : Address := ⟨""⟩

/-- The address of the node at a position of the forest that this path leads to: one more `Segment`
without a branch. -/
def child (a : Address) (index : Nat) (kind : Kind) : Address :=
  ⟨a.text ++ (Segment.mk index kind none).text⟩

/-- The path into a branch of the conditional at this address, by its `Branch.suffix`. -/
def branch (a : Address) (b : Branch) : Address :=
  ⟨a.text ++ "-" ++ b.suffix⟩

/-- The first text of a template, where editing starts: position 0 of the `root`. -/
def firstText : Address := root.child 0 .text

/-- Whether the path is empty, as `Address.root` is. -/
def isRoot (a : Address) : Bool :=
  a.text.isEmpty

/-- The path to the forest that owns the node: all before the last `/`.  It is taken from the text,
so it is there for texts that `segments` refuses as well. -/
def parent (a : Address) : Address :=
  ⟨String.ofList ((a.text.toList.reverse.dropWhile (· ≠ '/')).tail.reverse)⟩

/-- The address of another node of the same forest: the `parent` with another last segment. -/
def sibling (a : Address) (index : Nat) (kind : Kind) : Address :=
  a.parent.child index kind

/-- Addresses in the order of their code points, each once, as a report of several nodes lists them;
of equal ones `eraseDups` keeps the first. -/
def sorted (as : List Address) : List Address :=
  let rising := as.mergeSort fun a b => decide (a.text ≤ b.text)
  rising.eraseDups

end Address

/-! ## Why an address leads to no node -/

/-- What is wrong with the spelling of an address.  The last two of these causes are for a walk over
segments that no decoded address has; `Address.segments` never gives them. -/
inductive Malformation where
  | noLeadingSlash
  | badSegment (part : String)
  | endsInBranch (branch : Branch)
  | noBranch (part : String)
  | noSegments
  | branchMissing
  deriving DecidableEq, Repr

/-- Why an address leads to no node.  `place` is the path up to and with the step that fails,
without its branch. -/
inductive AddressError where
  | malformed (address : Address) (reason : Malformation)
  | outOfRange (place : Address) (index siblings : Nat)
  | wrongKind (place : Address) (expected found : Kind)
  deriving DecidableEq, Repr

/-- The wording of a malformation, as it stands behind the address in `AddressError.text`. -/
def Malformation.text : Malformation → String
  | .noLeadingSlash => "must start with '/'"
  | .badSegment part => s!"invalid segment '{part}'"
  | .endsInBranch b => s!"ends inside the '{b.suffix}' branch"
  | .noBranch part => s!"segment '{part}' has no branch to descend into"
  | .noSegments => "no segments"
  | .branchMissing => "missing branch suffix"

namespace AddressError

/-- The message of an `AddressError`, with the address or the place at fault in quotes. -/
def text : AddressError → String
  | .malformed a reason => s!"Malformed address '{a.text}': {reason.text}"
  | .outOfRange place index siblings =>
    s!"Index {index} out of range at '{place.text}' ({siblings} siblings)"
  | .wrongKind place expected found =>
    s!"Expected {expected.word} node at '{place.text}', found {found.word}"

/-- Whether the address is no path at all, so that no tree has a node for it:
`AddressError.malformed`. -/
def isMalformed : AddressError → Bool
  | .malformed _ _ => true
  | _ => false

/-- Whether the address is a path that the tree does not have, which is expected of one read before
another edit; the negation of `isMalformed`. -/
def isStructural (e : AddressError) : Bool :=
  !e.isMalformed

end AddressError

/-! ## Decoding one segment -/

/-- Positions are natural numbers of 64 bits, so they are below `UInt64.size`. -/
def indexBound : Nat := UInt64.size

/-- A position in decimal digits: at least one digit, no leading zero, and below `indexBound`.  So
every position has one spelling only. -/
def decodeIndex (digits : List Char) : Option Nat :=
  if digits = [] ∨ !digits.all Char.isDigit ∨ (1 < digits.length ∧ digits.head? = some '0') then
    none
  else
    let n := Nat.ofDigitChars 10 digits 0
    if n < indexBound then some n else none

/-- The kind of a segment and its branch, from what stands behind the first dash.  Only a
conditional can have a branch, which `Branch.ofSuffix?` names. -/
def decodeKind (word : List Char) : Option (Kind × Option Branch) :=
  match word with
  | ['t', 'e', 'x', 't'] => some (.text, none)
  | ['i', 'f'] => some (.conditional, none)
  | 'i' :: 'f' :: '-' :: suffix =>
    (Branch.ofSuffix? (String.ofList suffix)).map fun b => (.conditional, some b)
  | _ => none

/-- A segment without its slash: a position by `decodeIndex` up to the first dash, and what
`decodeKind` makes of the rest. -/
def Segment.decode (part : List Char) : Option Segment :=
  match part.dropWhile (· ≠ '-') with
  | [] => none
  | _ :: word => do
    let index ← decodeIndex (part.takeWhile (· ≠ '-'))
    let (kind, branch) ← decodeKind word
    some ⟨index, kind, branch⟩

/-! ## Decoding addresses -/

namespace Address

/-- The segments of the parts between slashes of the address `a`, which is only repeated in errors.
Every part is judged by its spelling and then by its place, before any part behind it is looked
at. -/
def decodeParts (a : Address) : List (List Char) → Except AddressError (List Segment)
  | [] => .ok []
  | part :: rest =>
    match Segment.decode part with
    | none => .error (.malformed a (.badSegment (String.ofList part)))
    | some s =>
      match s.branch, rest with
      | some b, [] => .error (.malformed a (.endsInBranch b))
      | none, _ :: _ => .error (.malformed a (.noBranch (String.ofList part)))
      | _, _ =>
        match a.decodeParts rest with
        | .error e => .error e
        | .ok more => .ok (s :: more)

/-- The segments of an address.  The text must start with a slash, and `decodeParts` judges what
stands between the slashes. -/
def segments (a : Address) : Except AddressError (List Segment) :=
  match a.text.toList with
  | '/' :: tail => a.decodeParts (tail.splitOn '/')
  | _ => .error (.malformed a .noLeadingSlash)

/-- The number of `segments` of an address; one that is no path has none. -/
def depth (a : Address) : Nat :=
  match a.segments with
  | .ok segments => segments.length
  | .error _ => 0

end Address

end MessageTemplate
