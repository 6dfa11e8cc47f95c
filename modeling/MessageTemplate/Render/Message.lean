/-
The message that a tree says under a map of values.

`Values` is a finite map from names to texts.  A name is bound at most once, and a later binding
takes the place of an earlier one, so maps can be laid over each other.

A placeholder is a name between braces.  A name is not empty and is made of ASCII letters and
digits, underscores, hyphens, dots and white space (`isNameChar`); nothing else may stand between
the braces, so a brace that opens no placeholder is an ordinary character.  A text is read once,
from left to right, by a `Scanner` that knows what it has read and whether a brace is open; since
`scan` is a fold over the characters, the scan of two texts one after the other is the scan of the
second from the state that the first leaves.

`render` says the nodes of a forest in order and joins what they say.  A text says itself with its
values put in by `substitute`.  A conditional renders its condition first, and says its consequent
if that says anything and its alternative if not.  Both forms of a tree can be rendered, and
nothing can go wrong.
-/
import MessageTemplate.Text.Classes
import MessageTemplate.Tree.Node

set_option autoImplicit false

namespace MessageTemplate

/-! ## Values -/

/-- A finite map from names to texts, as the list of its bindings.  `Values.insert` keeps every name
bound at most once, so the `lookup` of `Values.get?` never has a choice. -/
structure Values where
  bindings : List (String × String)
  deriving DecidableEq, Repr, Inhabited

namespace Values

/-- The map that binds nothing, so that `get?` of every name is `none`. -/
def empty : Values := ⟨[]⟩

/-- The text bound to a name, or `none` for a name that is not bound.  A name bound to the empty
text is bound. -/
def get? (v : Values) (name : String) : Option String :=
  v.bindings.lookup name

/-- Binds a name, in place of what it was bound to.  The new binding goes to the end of the list;
the old one is taken out of it, so no name is bound twice. -/
def insert (v : Values) (name value : String) : Values :=
  ⟨v.bindings.filter (fun b => b.1 != name) ++ [(name, value)]⟩

/-- Lays further bindings over a map, one after the other, so the last binding of a name in `more`
is the one that holds. -/
def extend (v : Values) (more : List (String × String)) : Values :=
  more.foldl (fun v (name, value) => v.insert name value) v

/-- The map of some bindings, by one `insert` after the other; a later binding of a name replaces an
earlier one. -/
def ofList (bindings : List (String × String)) : Values :=
  empty.extend bindings

/-- How many names are bound, each counted once, since `insert` leaves no name twice. -/
def size (v : Values) : Nat := v.bindings.length

/-- Every name bound to the empty text.  Rendering against such a map shows what is fixed in a
template; a name that is not among `names` still stays as it is written. -/
def blank (names : List String) : Values :=
  ofList (names.map fun name => (name, ""))

end Values

/-! ## Names of placeholders -/

/-- The characters of a placeholder's name: ASCII letters and digits, the underscore, the hyphen,
the dot, and what `Text.isBlank` counts as white space. -/
def isNameChar (c : Char) : Bool :=
  c.isAlphanum || c = '_' || c = '-' || c = '.' || Text.isBlank c

/-- Whether characters can stand between the braces of a placeholder: at least one, and each of them
an `isNameChar`. -/
def isName (name : List Char) : Bool :=
  !name.isEmpty && name.all isNameChar

/-! ## Scanning -/

/-- A part of a text: an ordinary character (`literal`), or a whole `placeholder` with the name
between its braces. -/
inductive Part where
  | literal (c : Char)
  | placeholder (name : List Char)
  deriving DecidableEq, Repr

/-- What a scanner has read so far: the finished `parts`, the last one first, and, if a brace is
`opened`, the characters since, the last one first as well. -/
structure Scanner where
  parts : List Part
  opened : Option (List Char)
  deriving DecidableEq, Repr

namespace Scanner

/-- The `Scanner` before the first character: nothing has been read, and no brace is open. -/
def start : Scanner := ⟨[], none⟩

/-- The parts when an open brace turns out to open nothing: the brace and the characters of `name`
behind it become ordinary characters. -/
def giveUp (parts : List Part) (name : List Char) : List Part :=
  name.map .literal ++ .literal '{' :: parts

/-- Reads one more character.  While a brace is open, characters of names (`isNameChar`) gather
behind it; a closing brace then makes a placeholder if anything has gathered, and every other
character shows that the brace opened nothing.  A second opening brace gives up the first and starts
anew. -/
def step (s : Scanner) (c : Char) : Scanner :=
  match s.opened with
  | none => if c = '{' then ⟨s.parts, some []⟩ else ⟨.literal c :: s.parts, none⟩
  | some name =>
    if isNameChar c then ⟨s.parts, some (c :: name)⟩
    else if c = '}' ∧ name ≠ [] then ⟨.placeholder name.reverse :: s.parts, none⟩
    else if c = '{' then ⟨giveUp s.parts name, some []⟩
    else ⟨.literal c :: giveUp s.parts name, none⟩

/-- The `Part`s when the text ends, in the order of the text.  A brace that is still open has opened
nothing. -/
def finish (s : Scanner) : List Part :=
  match s.opened with
  | none => s.parts.reverse
  | some name => (giveUp s.parts name).reverse

end Scanner

/-- The `Part`s of a text, read in one pass from left to right: `step` for every character, and
`finish` at the end. -/
def scan (text : List Char) : List Part :=
  (text.foldl Scanner.step .start).finish

/-! ## Using the parts -/

namespace Part

/-- A part as it is written in the text, so the parts of a text written one after the other are the
text again (`flatMap_written_scan`). -/
def written : Part → List Char
  | .literal c => [c]
  | .placeholder name => '{' :: name ++ ['}']

/-- A `Part` with its value put in.  A name without a value stays as it is written, braces
included. -/
def filled (v : Values) : Part → List Char
  | .literal c => [c]
  | .placeholder name =>
    match v.get? (String.ofList name) with
    | some value => value.toList
    | none => '{' :: name ++ ['}']

/-- The name of a placeholder, or `none` for an ordinary character. -/
def name? : Part → Option String
  | .literal _ => none
  | .placeholder name => some (String.ofList name)

end Part

/-- The names of the placeholders that `scan` finds in a text, in order of appearance and as often
as they appear. -/
def placeholders (s : String) : List String :=
  (scan s.toList).filterMap Part.name?

/-- A text with its values put in, part by part as `scan` has them.  What is put in is not scanned
again, so a value may hold braces.  Without a map the text stays as it is. -/
def substitute (values : Option Values) (s : String) : String :=
  match values with
  | none => s
  | some v => String.ofList ((scan s.toList).flatMap (Part.filled v))

/-! ## What the stored form says -/

namespace Content

mutual

/-- What a stored node says.  A conditional says its consequent `t` if its condition `c` says
anything at all, and its alternative `e` if not; what the condition says is never part of the
message. -/
def render (values : Option Values) : Content → String
  | .text s => substitute values s
  | .conditional c t e =>
    if (renderForest values c).isEmpty then renderForest values e else renderForest values t

/-- What a stored forest says: what its nodes say by `render`, in order and with nothing in
between. -/
def renderForest (values : Option Values) : List Content → String
  | [] => ""
  | n :: rest => render values n ++ renderForest values rest

end

end Content

/-! ## What the working form says -/

namespace Node

mutual

/-- What a `Node` says, by the rules for stored nodes.  Addresses and fingerprints do not matter. -/
def render (values : Option Values) : Node → String
  | .text _ _ s => substitute values s
  | .conditional _ c t e =>
    if (renderForest values c).isEmpty then renderForest values e else renderForest values t

/-- What a forest says: what its nodes say by `render`, in order and with nothing in between. -/
def renderForest (values : Option Values) : List Node → String
  | [] => ""
  | n :: rest => render values n ++ renderForest values rest

end

end Node

/-- What a template says under a map of values, or as it is written if there is no map (`none`). -/
def Template.render (values : Option Values) (t : Template) : String :=
  Node.renderForest values t.nodes

end MessageTemplate
