/-
Paths of files, and what the library asks of the files behind them.

A `Path` is text: names between slashes, where empty names and a single dot say nothing and two
dots lead one directory up.  How a path is written matters where it is shown, and a slash behind
the last name asks for a directory.

Access to files is stated as a class, `Files`, so that the same commands run on the files of a
machine and on a disk that is a plain value.  Every refusal, a `FileError`, has the number and
wording that a Unix system gives it.
-/

set_option autoImplicit false

namespace MessageTemplate

/-- A path as it is written.  Two paths can be written differently and lead to the same file; where
a `Path` leads is up to the `Disk`. -/
structure Path where
  text : String
  deriving DecidableEq, Repr, Inhabited

namespace Path

/-! ## Putting paths together -/

/-- Whether a path starts at the top of the disk, with a `/`, and not at another path. -/
def isAbsolute (p : Path) : Bool :=
  p.text.toList.head? = some '/'

/-- A path as seen from another.  One that `isAbsolute` stays; a slash is put between the two where
none is there, but not behind nothing at all. -/
def join (base p : Path) : Path :=
  if p.isAbsolute then p
  else if base.text.isEmpty ∨ base.text.toList.getLast? = some '/' then ⟨base.text ++ p.text⟩
  else ⟨base.text ++ "/" ++ p.text⟩

/-! ## Taking paths apart -/

/-- What stands between the slashes, empty pieces included; `names` leaves the silent ones out. -/
def pieces (p : Path) : List String :=
  (p.text.toList.splitOn '/').map String.ofList

/-- Whether one of the `pieces` says nothing: it is empty or a single dot. -/
def isSilent (piece : String) : Bool :=
  piece = "" || piece = "."

/-- The `pieces` that say something, two dots among them.  Only these are followed on a disk. -/
def names (p : Path) : List String :=
  p.pieces.filter fun piece => !isSilent piece

/-- Whether a path asks for a directory, by a `/` at its end. -/
def endsInSlash (p : Path) : Bool :=
  p.text.toList.getLast? = some '/'

/-- Whether a path ends in `.` or `..`, which name a directory in another way.  Slashes after the
dots change nothing. -/
def endsInDots (p : Path) : Bool :=
  let last := (p.pieces.reverse.dropWhile (· = "")).head?
  last = some "." || last = some ".."

/-- The path to what owns a `Path`: the text before the last name, without what says nothing at its
end.  The top owns itself, and a single name is owned by the empty path. -/
def parent (p : Path) : Path :=
  let owner := ((p.pieces.reverse.dropWhile isSilent).tail.dropWhile isSilent).reverse
  if p.isAbsolute && owner.isEmpty then ⟨"/"⟩ else ⟨"/".intercalate owner⟩

/-- For `parent` a slash and a dot at the end belong to no name. -/
example : ((Path.mk "d/f/./").parent, (Path.mk "/x").parent) = (⟨"d"⟩, ⟨"/"⟩) := by
  decide +kernel

/-- For `endsInDots` dots count as an ending through slashes. -/
example : ["f/.", "f/..//", "f/", "f/.x"].map (fun s => (Path.mk s).endsInDots) =
    [true, true, false, false] := by
  decide +kernel

end Path

/-! ## Refusals -/

/-- Why a file cannot be read or written.  `nulInName` is a path with a null character, which no
system call can be given, and `notText` a file whose bytes are no UTF-8. -/
inductive FileError where
  | notFound
  | alreadyExists
  | notDirectory
  | isDirectory
  | nameTooLong
  | nulInName
  | notText
  | other (description : String)
  deriving DecidableEq, Repr

/-- The message of a `FileError`, as a Unix system words it. -/
def FileError.text : FileError → String
  | .notFound => "No such file or directory (os error 2)"
  | .alreadyExists => "File exists (os error 17)"
  | .notDirectory => "Not a directory (os error 20)"
  | .isDirectory => "Is a directory (os error 21)"
  | .nameTooLong => "File name too long (os error 36)"
  | .nulInName => "file name contained an unexpected NUL byte"
  | .notText => "stream did not contain valid UTF-8"
  | .other description => description

/-! ## Limits -/

/-- A single name has at most so many bytes; a longer one is refused as `nameTooLong`. -/
def nameLimit : Nat := 255

/-- A `Path` has fewer bytes than this: with the null byte that ends it, it fills at most a page. -/
def pathLimit : Nat := 4096

/-- Whether a path holds a null character, which no system call could be given. -/
def Path.hasNul (p : Path) : Bool :=
  p.text.toList.any (· = '\x00')

/-- Refuses a path that no system call takes, whatever is on the disk: one that `hasNul`, or one
that is too long. -/
def Path.vet (p : Path) : Except FileError Unit :=
  if p.hasNul then .error .nulInName
  else if p.text.utf8ByteSize < pathLimit then .ok ()
  else .error .nameTooLong

/-! ## Access -/

/-- Access to files, as far as the library needs it.  The machine has an instance, and a `Disk` that
is a plain value has one. -/
class Files (m : Type → Type) where
  /-- Whether a `Path` leads to a file or a directory.  A path that cannot be followed leads
  nowhere. -/
  isPresent : Path → m Bool
  /-- The text of a file, which must be UTF-8 (`notText`). -/
  readText : Path → m (Except FileError String)
  /-- Gives a file a new text; the file is made if its directory exists. -/
  writeText : Path → String → m (Except FileError Unit)
  /-- Makes the directory that owns a path, and all directories above it that are missing. -/
  makeParent : Path → m (Except FileError Unit)

end MessageTemplate
