/-
A disk as a value, which answers as a machine does.

An `Entry` is a file with bytes, or a directory of entries with names, each name once.  A `Place`
below an entry is the list of names that lead to it; what it holds, `Disk.get?`, is the view in
which everything on the disk is described, and `Disk.put` changes the view there.

A path is followed name by name from the top (`Disk.walk`).  Every name is looked up in a
directory, two dots go back to where the way came from, and the first name that cannot be followed
is the refusal.  Writing looks up all names but the last, the `Disk.owner`, and then the last one in
the directory they lead to.
-/
import MessageTemplate.Disk.Files

set_option autoImplicit false

namespace MessageTemplate

/-! ## Entries -/

/-- What stands under a name: a `file` with its bytes, or a `directory` of entries with names. -/
inductive Entry where
  | file (bytes : ByteArray)
  | directory (entries : List (String × Entry))
  deriving Inhabited

/-- A place, as the names that lead to it from the top.  Unlike a `Path` it has no dots. -/
abbrev Place := List String

namespace Entry

/-- Whether an `Entry` is a directory, so that names can be looked up in it. -/
def isDirectory : Entry → Bool
  | .file _ => false
  | .directory _ => true

/-- The entries of a `directory`; a `file` has none. -/
def entries : Entry → List (String × Entry)
  | .file _ => []
  | .directory entries => entries

/-! ## Places -/

/-- What a `Place` below an entry holds, if anything. -/
def get? : Entry → Place → Option Entry
  | e, [] => some e
  | e, name :: rest =>
    match e.entries.lookup name with
    | none => none
    | some below => below.get? rest

/-- Some `entries` with a name standing for an entry, whatever it stood for.  No name stands
twice. -/
def bindName (entries : List (String × Entry)) (name : String) (e : Entry) :
    List (String × Entry) :=
  entries.filter (fun b => b.1 != name) ++ [(name, e)]

/-- An entry with a `Place` below it holding something new.  Directories that are missing on the way
are made, and a file on the way stays as it is. -/
def put (new : Entry) : Entry → Place → Entry
  | _, [] => new
  | .file bytes, _ :: _ => .file bytes
  | .directory entries, name :: rest =>
    let below := (entries.lookup name).getD (.directory [])
    .directory (bindName entries name (put new below rest))

/-! ## Files below -/

mutual

/-- Every file at or below an entry, with its `Place` and its bytes. -/
def files : Entry → List (Place × ByteArray)
  | .file bytes => [([], bytes)]
  | .directory entries => filesAmong entries

/-- Every file at or below some `entries`, the name of the entry at the front of its `Place`. -/
def filesAmong : List (String × Entry) → List (Place × ByteArray)
  | [] => []
  | (name, e) :: rest => (files e).map (fun f => (name :: f.1, f.2)) ++ filesAmong rest

end

end Entry

/-! ## Disks -/

/-- A disk, by the `entries` at its top.  The top is a directory, so it needs no name. -/
structure Disk where
  top : List (String × Entry)
  deriving Inhabited

/-- The way to an entry, the last step first: each name with what it led to.  Two dots take the last
step back (`List.tail`), and at the top they lead nowhere else. -/
abbrev Trail := List (String × Entry)

/-- The `Place` at the end of a way. -/
def Trail.place (t : Trail) : Place :=
  (t.map Prod.fst).reverse

namespace Disk

/-- The top of a disk as an `Entry`, which is always a directory. -/
def root (d : Disk) : Entry := .directory d.top

/-- What a `Place` holds, if anything. -/
def get? (d : Disk) (place : Place) : Option Entry := d.root.get? place

/-- The disk with a `Place` holding something, whatever it held before. -/
def put (d : Disk) (place : Place) (e : Entry) : Disk :=
  ⟨(Entry.put e d.root place).entries⟩

/-- Every file of a disk, with its `Place` and its bytes. -/
def files (d : Disk) : List (Place × ByteArray) := d.root.files

/-! ## Finding entries -/

/-- What stands at the end of a way; the empty way ends at the `root`. -/
def arrived (d : Disk) : Trail → Entry
  | [] => d.root
  | (_, e) :: _ => e

/-- What a name stands for in the directory at the end of a `Trail`.  At a file there are no names
to look up, and a name that is too long is refused before it is. -/
def look (d : Disk) (t : Trail) (name : String) : Except FileError (Option Entry) :=
  match d.arrived t with
  | .file _ => .error .notDirectory
  | .directory entries =>
    if name.utf8ByteSize ≤ nameLimit then .ok (entries.lookup name) else .error .nameTooLong

/-- Goes on along a `Trail`, name by name, up to the first name that cannot be followed. -/
def walkFrom (d : Disk) : Trail → List String → Except FileError Trail
  | t, [] => .ok t
  | t, name :: rest =>
    if name = ".." then
      if (d.arrived t).isDirectory then d.walkFrom t.tail rest else .error .notDirectory
    else
      match d.look t name with
      | .error e => .error e
      | .ok none => .error .notFound
      | .ok (some e) => d.walkFrom ((name, e) :: t) rest

/-- The `Trail` along names from the top. -/
def walk (d : Disk) (names : List String) : Except FileError Trail :=
  d.walkFrom [] names

/-- The `Trail` of a `Path`.  A path that asks for a directory, by a slash or by dots at its end,
must lead to one. -/
def find (d : Disk) (p : Path) : Except FileError Trail := do
  p.vet
  let t ← d.walk p.names
  if (p.endsInSlash || p.endsInDots) && !(d.arrived t).isDirectory then .error .notDirectory
  else .ok t

/-- The `Trail` to the directory that owns what names lead to, of which the last need not exist. -/
def owner (d : Disk) (names : List String) : Except FileError Trail := do
  let t ← d.walk names.dropLast
  if (d.arrived t).isDirectory then .ok t else .error .notDirectory

/-! ## Reading and writing -/

/-- Whether a `Path` leads anywhere; why it does not is of no interest here. -/
def isPresent (d : Disk) (p : Path) : Bool :=
  match d.find p with
  | .ok _ => true
  | .error _ => false

/-- The text of the file at a path.  A directory has none, and bytes that are no UTF-8 are refused
as `notText`. -/
def readText (d : Disk) (p : Path) : Except FileError String := do
  let t ← d.find p
  match d.arrived t with
  | .directory _ => .error .isDirectory
  | .file bytes =>
    match String.fromUTF8? bytes with
    | some s => .ok s
    | none => .error .notText

/-- The disk after the file at a `Path` got a text.  A path that ends in dots leads to a directory
or nowhere; one that ends in a slash is refused before its last name is looked up. -/
def writeText (d : Disk) (p : Path) (s : String) : Except FileError Disk := do
  p.vet
  if p.endsInDots then
    let _ ← d.find p
    .error .isDirectory
  else
    match p.names.getLast? with
    | none => .error .isDirectory
    | some name =>
      let t ← d.owner p.names
      if p.endsInSlash then .error .isDirectory
      else
        match ← d.look t name with
        | some (.directory _) => .error .isDirectory
        | _ => .ok (d.put (t.place ++ [name]) (.file s.toUTF8))

/-! ## Making directories -/

/-- Makes one directory, in its `owner`.  What owns it must exist, and what exists already is
refused, whatever it is. -/
def makeDirectory (d : Disk) (names : List String) : Except FileError Disk := do
  let t ← d.owner names
  match names.getLast? with
  | none => .error .alreadyExists
  | some name =>
    if name = ".." then .error .alreadyExists
    else
      match ← d.look t name with
      | some _ => .error .alreadyExists
      | none => .ok (d.put (t.place ++ [name]) (.directory []))

/-- Whether names lead to a directory, which `makeDirectories` takes for success. -/
def leadsToDirectory (d : Disk) (names : List String) : Bool :=
  match d.walk names with
  | .ok t => (d.arrived t).isDirectory
  | .error _ => false

/-- Makes a directory and those above it, trying from the innermost on; `above` counts how many
steps up are left.  A directory that exists already is no failure. -/
def makeDirectories (d : Disk) (names : List String) : Nat → Except FileError Disk
  -- Above the outermost name is the top, which always exists, so there is nothing to make.
  | 0 => .ok d
  | above + 1 =>
    match d.makeDirectory names with
    | .ok d => .ok d
    | .error .notFound =>
      match d.makeDirectories names.dropLast above with
      | .error e => .error e
      | .ok d =>
        match d.makeDirectory names with
        | .ok d => .ok d
        | .error e => if d.leadsToDirectory names then .ok d else .error e
    | .error e => if d.leadsToDirectory names then .ok d else .error e

/-- Makes the directory that owns a `Path`, and those above it. -/
def makeParent (d : Disk) (p : Path) : Except FileError Disk := do
  p.parent.vet
  let names := p.parent.names
  d.makeDirectories names names.length

/-! ## As access to files -/

/-- Keeps the `Disk` that an operation leaves; one that fails leaves the disk as it was. -/
def keep (change : Disk → Except FileError Disk) : StateM Disk (Except FileError Unit) := do
  match change (← get) with
  | .ok d =>
    set d
    pure (.ok ())
  | .error e => pure (.error e)

instance : Files (StateM Disk) where
  isPresent p := return (← get).isPresent p
  readText p := return (← get).readText p
  writeText p s := keep fun d => d.writeText p s
  makeParent p := keep fun d => d.makeParent p

end Disk

end MessageTemplate
