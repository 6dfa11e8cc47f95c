/-
Edit sessions: one user's view of a document.

A session has the document, a cursor in one of its texts, the history of its edits and the names
offered for insertion.  Every edit goes through the history and moves the cursor where the edit says
(`Session.apply`).  When the cursor's address no longer leads to a text, the cursor goes back to the
start of the first text (`Session.settle`).
-/
import MessageTemplate.Session.History

set_option autoImplicit false

namespace MessageTemplate

/-- An edit session, with the `document` it works on, its own `cursor` and its own `history`. -/
structure Session where
  id : String
  document : Document
  names : List String
  cursor : Focus
  history : History
  deriving DecidableEq, Inhabited

namespace Session

/-! ## Coming into being -/

/-- Where the cursor starts, and where it goes when its place is lost.  The address,
`Address.firstText`, is the same for every template, whether it leads to a text there or not. -/
def home : Focus := ⟨.firstText, 0⟩

/-- A session on a document, with the cursor at `home` and nothing to undo. -/
def start (id : String) (document : Document) (names : List String) : Session :=
  ⟨id, document, names, home, .fresh History.usualLimit⟩

/-! ## The cursor -/

/-- The length of the text at an address in characters, or why there is no text: the address leads
nowhere, or to a conditional (`notText`). -/
def textLength (t : Template) (a : Address) : Except EditError Nat := do
  let found ← (Node.resolve t.nodes a).mapError .unresolved
  match found.node.text? with
  | some s => .ok s.length
  | none => .error (.notText a)

/-- Keeps the cursor in the text it stands in, at the end of the text if that has become shorter, or
takes it `home` if there is no such text any more. -/
def settle (s : Session) : Session :=
  match textLength s.document.template s.cursor.address with
  | .ok length => { s with cursor := ⟨s.cursor.address, min s.cursor.caret length⟩ }
  | .error _ => { s with cursor := home }

/-- Places the cursor in a text; a caret beyond the end, by `textLength`, stands at the end.  An
address without a text is refused, and the cursor stays. -/
def moveCursor (s : Session) (a : Address) (caret : Nat) : Except DocumentError Unit × Session :=
  match textLength s.document.template a with
  | .ok length => (.ok (), { s with cursor := ⟨a, min caret length⟩ })
  | .error cause => (.error (.edit cause), s)

/-! ## Editing -/

/-- Applies an edit and moves the cursor where the edit says.  If the edit has no `focus`, the
cursor is left to `settle`. -/
def apply (s : Session) (e : Edit) : Except DocumentError Change × Session :=
  match s.history.apply e s.document with
  | (.error cause, history, document) => (.error cause, { s with history, document })
  | (.ok change, history, document) =>
    let s := { s with history, document }
    match change.focus with
    | some focus => (.ok change, { s with cursor := focus })
    | none => (.ok change, s.settle)

/-- Puts text at the cursor by `insertText`; the cursor then stands behind it. -/
def typeText (s : Session) (text : String) : Except DocumentError Change × Session :=
  s.apply (.insertText s.cursor.address s.cursor.caret text)

/-- Puts a placeholder at the cursor.  The name is not looked at; whether a placeholder comes of it
is up to `scan`. -/
def insertVariable (s : Session) (name : String) : Except DocumentError Change × Session :=
  s.typeText (String.ofList ('{' :: name.toList ++ ['}']))

/-- Exchanges a text by `replaceText`, as a text field does, and places the cursor in it where the
field has it. -/
def changeText (s : Session) (a : Address) (caret : Nat) (text : String) :
    Except DocumentError Change × Session :=
  match s.apply (.replaceText a text) with
  | (.error cause, s) => (.error cause, s)
  | (.ok change, s) => (.ok change, { s with cursor := ⟨a, min caret text.length⟩ })

/-- Splits the text at the cursor around a new conditional, by the edit `insertConditional`. -/
def insertConditional (s : Session) : Except DocumentError Change × Session :=
  s.apply (.insertConditional s.cursor.address s.cursor.caret)

/-- Deletes the conditional at an address, wherever the cursor is, by the edit
`deleteConditional`. -/
def deleteConditional (s : Session) (a : Address) : Except DocumentError Change × Session :=
  s.apply (.deleteConditional a)

/-! ## History -/

/-- Undoes the most recent entry, and says whether there was one.  The cursor has to `settle` in the
template put back. -/
def undo (s : Session) : Bool × Session :=
  match s.history.undo s.document with
  | (did, history, document) => (did, { s with history, document }.settle)

/-- Redoes the entry undone last, and says whether there was one.  The cursor has to `settle` here
as well. -/
def redo (s : Session) : Bool × Session :=
  match s.history.redo s.document with
  | (did, history, document) => (did, { s with history, document }.settle)

/-! ## Showing -/

/-- What the template says with every offered name blank, by `Values.blank`. -/
def preview (s : Session) : String :=
  s.document.render (some (.blank s.names))

/-! ## Runs -/

/-- One operation of a `Session`, with what it is given. -/
inductive Step where
  | typeText (text : String)
  | insertVariable (name : String)
  | changeText (address : Address) (caret : Nat) (text : String)
  | insertConditional
  | deleteConditional (address : Address)
  | moveCursor (address : Address) (caret : Nat)
  | undo
  | redo
  | beginBatch
  | endBatch
  | describe (description : String)
  | clear
  deriving DecidableEq, Repr

/-- The `Answer` of an edit: what it changed, or why it was refused. -/
def answerOf : Except DocumentError Change → History.Answer
  | .ok change => .changed change
  | .error cause => .refused cause

/-- Puts the result of an operation in the words of an `Answer`, and leaves the session that comes
with it. -/
def answered {α : Type} (word : α → History.Answer) : α × Session → History.Answer × Session
  | (a, s) => (word a, s)

/-- Takes one `Step`, and gives its answer with the session it leaves. -/
def perform (s : Session) : Step → History.Answer × Session
  | .typeText text => answered answerOf (s.typeText text)
  | .insertVariable name => answered answerOf (s.insertVariable name)
  | .changeText a caret text => answered answerOf (s.changeText a caret text)
  | .insertConditional => answered answerOf s.insertConditional
  | .deleteConditional a => answered answerOf (s.deleteConditional a)
  | .moveCursor a caret =>
    match s.moveCursor a caret with
    | (.ok _, s) => (.done, s)
    | (.error cause, s) => (.refused cause, s)
  | .undo => answered .moved s.undo
  | .redo => answered .moved s.redo
  | .beginBatch => (.done, { s with history := s.history.beginBatch })
  | .endBatch => (.done, { s with history := s.history.endBatch })
  | .describe description => (.done, { s with history := s.history.describe description })
  | .clear => (.done, { s with history := s.history.clear })

/-- Takes steps one after the other by `perform`, and leaves what the last one leaves.  A step that
is refused does not end the run. -/
def run (s : Session) (steps : List Step) : Session :=
  steps.foldl (fun s step => (s.perform step).2) s

end Session

end MessageTemplate
