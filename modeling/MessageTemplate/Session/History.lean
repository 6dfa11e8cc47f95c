/-
Undo and redo.

A history keeps, for every edit applied through it, the template before and after.  Undoing puts
back the one, redoing the other, and an entry moves from one stack to the other with it.  A new
entry ends what could be redone.  Between the start and the end of a batch edits gather in one
`Entry`, which joins the others when the batch ends.

The stacks have their most recent entry first.  A history may have a bound on its undo entries and
then forgets the oldest (`History.push`).  `History.run` takes one `Step` after the other; what is
said of a history in the long run is said of `run`.
-/
import MessageTemplate.Session.Document

set_option autoImplicit false

namespace MessageTemplate

namespace History

/-- Edits that are undone and redone together, with the template `before` the first of them and the
one `after` the last. -/
structure Entry where
  edits : List Edit
  before : Template
  after : Template
  description : Option String
  deriving DecidableEq, Inhabited

/-- The `Entry` of one edit made outside of a batch, which nobody has described. -/
def Entry.single (e : Edit) (before after : Template) : Entry := ⟨[e], before, after, none⟩

end History

/-- A history.  `limit` bounds the undo entries, zero meaning no bound; `batch` is the entry of the
batch under way, made by its first edit, and `pending` the description it is to have. -/
structure History where
  undos : List History.Entry
  redos : List History.Entry
  limit : Nat
  batching : Bool
  batch : Option History.Entry
  pending : Option String
  deriving DecidableEq, Inhabited

namespace History

/-! ## Coming into being -/

/-- The `limit` of a history for which none is given. -/
def usualLimit : Nat := 100

/-- A history without entries and without a batch under way; a `limit` of 0 is none. -/
def fresh (limit : Nat) : History := ⟨[], [], limit, false, none, none⟩

/-! ## Recording -/

/-- Adds an entry to `undos`.  The oldest one is forgotten if these are more than the `limit`, and
nothing can be redone any more. -/
def push (h : History) (entry : Entry) : History :=
  let undos := entry :: h.undos
  { h with
    undos := if 0 < h.limit ∧ h.limit < undos.length then undos.dropLast else undos
    redos := [] }

/-- Records an edit that has been applied.  In a batch the entry grows: it keeps its template
before, and gets the template after the latest edit.  Only `push` ends what could be redone, so an
edit in a batch does not. -/
def record (h : History) (e : Edit) (before after : Template) : History :=
  if h.batching then
    match h.batch with
    | some entry => { h with batch := some { entry with edits := entry.edits ++ [e], after } }
    | none =>
      { h with
        batch := some { Entry.single e before after with description := h.pending }
        pending := none }
  else h.push (.single e before after)

/-- Applies an `Edit` to a document and `record`s it.  An edit that is refused leaves no trace in
the history. -/
def apply (h : History) (e : Edit) (d : Document) :
    Except DocumentError Change × History × Document :=
  match d.apply e with
  | (.error cause, d) => (.error cause, h, d)
  | (.ok change, edited) => (.ok change, h.record e d.template edited.template, edited)

/-! ## Batches -/

/-- Starts a batch.  A `batch` under way is dropped, with the entry it may have. -/
def beginBatch (h : History) : History :=
  { h with batching := true, batch := none, pending := none }

/-- Ends the batch; its entry is `push`ed if an edit was made.  Outside of a batch nothing
happens. -/
def endBatch (h : History) : History :=
  let closed := { h with batching := false, batch := none, pending := none }
  match h.batch with
  | some entry => closed.push entry
  | none => closed

/-- Describes the `batch` under way; a second description replaces the first.  Outside of a batch
there is nothing to describe. -/
def describe (h : History) (description : String) : History :=
  if h.batching then
    match h.batch with
    | some entry => { h with batch := some { entry with description := some description } }
    | none => { h with pending := some description }
  else h

/-! ## Undoing and redoing -/

/-- Puts back the template `before` the most recent entry, and says whether there was one.  The
document counts this as a change. -/
def undo (h : History) (d : Document) : Bool × History × Document :=
  match h.undos with
  | [] => (false, h, d)
  | entry :: rest =>
    (true, { h with undos := rest, redos := entry :: h.redos }, d.replace entry.before)

/-- Puts back the template `after` the entry undone last, and says whether there was one. -/
def redo (h : History) (d : Document) : Bool × History × Document :=
  match h.redos with
  | [] => (false, h, d)
  | entry :: rest =>
    (true, { h with undos := entry :: h.undos, redos := rest }, d.replace entry.after)

/-- Forgets everything, the batch under way included; only the `limit` stays. -/
def clear (h : History) : History := fresh h.limit

/-! ## Looking -/

/-- How often one can `undo` from here without redoing in between. -/
def undoLevels (h : History) : Nat := h.undos.length

/-- How often one can `redo` from here. -/
def redoLevels (h : History) : Nat := h.redos.length

/-- The description of the entry that `undo` would take back, if it has one. -/
def undoDescription (h : History) : Option String := h.undos.head?.bind Entry.description

/-- The description of the entry that `redo` would bring back, if it has one. -/
def redoDescription (h : History) : Option String := h.redos.head?.bind Entry.description

/-! ## Runs -/

/-- One operation on a `History` and its `Document`, with what it is given. -/
inductive Step where
  | apply (e : Edit)
  | undo
  | redo
  | beginBatch
  | endBatch
  | describe (description : String)
  | clear
  deriving DecidableEq, Repr

/-- What a `Step` answers: the change or refusal of an edit, whether `undo` or `redo` moved
anything, or that there is nothing to say. -/
inductive Answer where
  | changed (change : Change)
  | refused (cause : DocumentError)
  | moved (did : Bool)
  | done
  deriving DecidableEq, Repr

/-- Takes one `Step`, and gives its answer with the history and the document it leaves. -/
def perform (h : History) (d : Document) : Step → Answer × History × Document
  | .apply e =>
    match h.apply e d with
    | (.ok change, h, d) => (.changed change, h, d)
    | (.error cause, h, d) => (.refused cause, h, d)
  | .undo =>
    match h.undo d with
    | (did, h, d) => (.moved did, h, d)
  | .redo =>
    match h.redo d with
    | (did, h, d) => (.moved did, h, d)
  | .beginBatch => (.done, h.beginBatch, d)
  | .endBatch => (.done, h.endBatch, d)
  | .describe description => (.done, h.describe description, d)
  | .clear => (.done, h.clear, d)

/-- Takes steps one after the other by `perform`, and leaves what the last one leaves.  A step that
is refused does not end the run. -/
def run (h : History) (d : Document) (steps : List Step) : History × Document :=
  steps.foldl (fun (h, d) step => (h.perform d step).2) (h, d)

end History

end MessageTemplate
