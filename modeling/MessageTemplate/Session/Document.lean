/-
Documents: a template under edit.

A document counts its changes.  An address is good for the template it was read from, so who edits
from a distance sends the version along with the edit, and an edit for another version is refused
(`Document.applyAt`).  A document also knows whether it has changed since it was last handed out for
keeping, and in which file it is kept, if in any.

Every operation gives its answer together with the document it leaves; one that fails leaves the
document as it was.  What loads and saves asks the class `Files` for its files, so it runs on a
machine's files and on a disk that is a plain value.
-/
import MessageTemplate.Edit.Basic
import MessageTemplate.Tree.Written
import MessageTemplate.Render.Message
import MessageTemplate.Disk.Files

set_option autoImplicit false

namespace MessageTemplate

/-! ## Refusals -/

/-- Why an operation on a `Document` fails.  Each layer below has a case of its own and keeps its
own words. -/
inductive DocumentError where
  | badSource (fault : Json.Fault)
  | file (cause : FileError)
  | edit (cause : EditError)
  | stale (expected actual : Nat)
  | notFileBacked
  deriving DecidableEq, Repr

namespace DocumentError

/-- The message of a refusal, without what the `Fault` of a source is in detail. -/
def headline : DocumentError → String
  | .badSource _ => "Template error: Invalid template JSON"
  | .file cause => s!"IO error: {cause.text}"
  | .edit cause => s!"Mutation error: {cause.text}"
  | .stale expected actual =>
    s!"Edit was computed against version {expected}, document is at {actual}"
  | .notFileBacked => "Document is not file-backed"

/-- The message of a refusal; only the fault of a source has anything to add to the `headline`. -/
def text : DocumentError → String
  | .badSource fault => headline (.badSource fault) ++ ": " ++ fault.text
  | e => e.headline

/-- Whether the edit was `stale` or simply does not fit and may be tried anew from the current
template. -/
def isRecoverable : DocumentError → Bool
  | .edit _ => true
  | .stale _ _ => true
  | _ => false

end DocumentError

/-! ## Documents -/

/-- A template under edit.  The `version` counts changes, and `dirty` says that the template has
changed since it was last saved or handed out. -/
structure Document where
  template : Template
  version : Nat
  dirty : Bool
  path : Option Path
  deriving DecidableEq, Inhabited

/-- What a change of a document comes to: its new `version`, and the `focus`, where editing goes on,
if the change decides it. -/
structure Change where
  version : Nat
  focus : Option Focus
  deriving DecidableEq, Repr

namespace Document

/-! ## Coming into being -/

/-- A document of a template, kept in no file and as yet without changes: at version 0, and not
`dirty`. -/
def ofTemplate (t : Template) : Document := ⟨t, 0, false, none⟩

/-- A document of a stored forest, which is filled and given its addresses first, by
`Template.ofContents`. -/
def ofContents (forest : List Content) : Document := ofTemplate (.ofContents forest)

/-- The template of a source; one that shows nothing (`Text.allBlank`) stands for the `blank`
template, so an empty file can be opened. -/
def templateOfSource (source : String) : Except DocumentError Template :=
  if Text.allBlank source then .ok .blank
  else (Template.parse source).mapError .badSource

/-- A document of a source, kept in no file; `templateOfSource` reads the source. -/
def ofSource (source : String) : Except DocumentError Document :=
  (templateOfSource source).map ofTemplate

/-- The document kept in a file.  A file that does not exist stands for the `blank` template and is
made when the document is saved. -/
def load {m : Type → Type} [Monad m] [Files m] (p : Path) : m (Except DocumentError Document) := do
  if ← Files.isPresent p then
    match ← Files.readText p with
    | .error e => return .error (.file e)
    | .ok source => return (templateOfSource source).map fun t => ⟨t, 0, false, some p⟩
  else return .ok ⟨.blank, 0, false, some p⟩

/-! ## Changing -/

/-- Puts a template in place of the present one; the `version` grows by one.  This is a change,
whatever the template is. -/
def replace (d : Document) (t : Template) : Document :=
  { d with template := t, version := d.version + 1, dirty := true }

/-- Applies an `Edit`.  Only an edit that is accepted changes the document, and it counts as one
change. -/
def apply (d : Document) (e : Edit) : Except DocumentError Change × Document :=
  match e.apply d.template with
  | .error cause => (.error (.edit cause), d)
  | .ok edited => (.ok ⟨d.version + 1, edited.focus⟩, d.replace edited.template)

/-- Applies an edit that is meant for a version.  At another version the edit is `stale` and not
even looked at. -/
def applyAt (d : Document) (expected : Nat) (e : Edit) : Except DocumentError Change × Document :=
  if expected = d.version then d.apply e else (.error (.stale expected d.version), d)

/-! ## Keeping -/

/-- What is to be kept of a document: its template as compact JSON, `Template.source`. -/
def source (d : Document) : String := d.template.source

/-- Hands the `source` out for keeping.  Whether it is really kept is no longer the document's
concern. -/
def commit (d : Document) : String × Document :=
  (d.source, { d with dirty := false })

/-- Writes a document to its file.  It is no longer `dirty` only if that succeeds. -/
def save {m : Type → Type} [Monad m] [Files m] (d : Document) :
    m (Except DocumentError Unit × Document) := do
  match d.path with
  | none => return (.error .notFileBacked, d)
  | some p =>
    match ← Files.writeText p d.source with
    | .error e => return (.error (.file e), d)
    | .ok _ => return (.ok (), { d with dirty := false })

/-- What the document's template says, `Template.render`. -/
def render (d : Document) (values : Option Values) : String := d.template.render values

end Document

end MessageTemplate
