/-
Every tree that can be seen in a session is well formed.

A session starts from a document that was built from a stored forest, read from a source or loaded
from a file (`Document.Opened`).  After that anything may be done to it in any order, as listed in
`Session.Action`: edits of the document itself, edits meant for a version, a well-formed template
put in place of the present one, the operations of the history on its own, and those of the session,
with success or without.

The invariant is that every template in `Session.templates` is well formed.  Where the templates
come from after one action is `templates_act`, which rests on `History.Move.held`; that edits keep
well-formedness is `Edit.apply_wellFormed`.  `actAll_wellFormed` then carries the invariant along
all actions.
-/
import MessageTemplate.Proofs.Session.Snapshots

set_option autoImplicit false

namespace MessageTemplate

/-! ## Opened documents -/

/-- The ways in which a `Document` comes into being. -/
inductive Document.Opened : Document → Prop
  | ofContents (forest : List Content) : Opened (.ofContents forest)
  | ofSource {source : String} {d : Document} (h : Document.ofSource source = .ok d) : Opened d
  /-- Loaded from a file, whatever is on the disk, and be it that the file does not exist. -/
  | load {p : Path} {disk disk' : Disk} {d : Document}
      (h : (Document.load p : StateM Disk (Except DocumentError Document)) disk = (.ok d, disk')) :
      Opened d

namespace Document

/-- A source that `templateOfSource` accepts gives a filled forest with its addresses, and so does
one that shows nothing and stands for the blank template. -/
theorem templateOfSource_wellFormed {source : String} {t : Template}
    (h : templateOfSource source = .ok t) : t.WellFormed := by
  rw [templateOfSource] at h
  split at h
  case isTrue =>
    rw [← Except.ok.inj h]
    exact Template.ofContents_wellFormed []
  case isFalse =>
    rw [Outcome.mapError_eq_ok, Template.parse, Outcome.map_eq_ok] at h
    obtain ⟨forest, -, rfl⟩ := h
    exact Template.ofContents_wellFormed forest

/-- `ofSource` opens a source if its template can be read, and this is the document's template. -/
theorem ofSource_eq_ok {source : String} {d : Document} :
    ofSource source = .ok d ↔ ∃ t, templateOfSource source = .ok t ∧ d = ofTemplate t := by
  rw [ofSource, Outcome.map_eq_ok]
  exact ⟨fun ⟨t, ht, h⟩ => ⟨t, ht, h.symm⟩, fun ⟨t, ht, h⟩ => ⟨t, ht, h.symm⟩⟩

/-- Loading from a disk reads a source or starts from the blank template, and writes nothing.  All
of `load` on a disk as a plain value is written out here, so no later proof opens the monad. -/
theorem load_eq (p : Path) (disk : Disk) :
    (load p : StateM Disk (Except DocumentError Document)) disk =
      ((if disk.isPresent p then
          match disk.readText p with
          | .error e => .error (.file e)
          | .ok source => (templateOfSource source).map fun t => ⟨t, 0, false, some p⟩
        else .ok ⟨.blank, 0, false, some p⟩), disk) := by
  unfold load
  by_cases h : disk.isPresent p
  · rw [if_pos h]
    show (if disk.isPresent p then _ else _ : StateM Disk _) disk = _
    rw [if_pos h]
    show (match disk.readText p with | .error e => _ | .ok source => _ : StateM Disk _) disk = _
    cases disk.readText p with
    | error e => rfl
    | ok source => rfl
  · rw [if_neg h]
    show (if disk.isPresent p then _ else _ : StateM Disk _) disk = _
    rw [if_neg h]
    rfl

/-- The template of an `Opened` document is well formed, in whichever of the three ways it was
opened. -/
theorem Opened.wellFormed {d : Document} (h : d.Opened) : d.template.WellFormed := by
  cases h with
  | ofContents forest => exact Template.ofContents_wellFormed forest
  | ofSource h =>
    obtain ⟨t, ht, rfl⟩ := ofSource_eq_ok.mp h
    exact templateOfSource_wellFormed ht
  | load h =>
    rw [load_eq, Prod.mk.injEq] at h
    replace h := h.1
    split at h
    case isTrue =>
      split at h
      case h_1 => exact absurd h nofun
      case h_2 source _ =>
        obtain ⟨t, ht, rfl⟩ := Outcome.map_eq_ok.mp h
        exact templateOfSource_wellFormed ht
    case isFalse =>
      rw [← Except.ok.inj h]
      exact Template.ofContents_wellFormed []

end Document

/-! ## What can be done -/

namespace Session

/-- Something done to a `Session`, to its document or to its history. -/
inductive Action where
  | edit (e : Edit)
  | editAt (version : Nat) (e : Edit)
  | replace (t : Template) (wellFormed : t.WellFormed)
  | history (step : History.Step)
  | session (step : Step)

/-- Does one `Action`, and leaves what it leaves. -/
def act (s : Session) : Action → Session
  | .edit e => { s with document := (s.document.apply e).2 }
  | .editAt version e => { s with document := (s.document.applyAt version e).2 }
  | .replace t _ => { s with document := s.document.replace t }
  | .history step =>
    match s.history.perform s.document step with
    | (_, history, document) => { s with history, document }
  | .session step => (s.perform step).2

/-- Does any number of `Action`s, one after the other. -/
def actAll (s : Session) (actions : List Action) : Session :=
  actions.foldl act s

/-- The template of the document and both snapshots of every entry that can be undone
or redone and of the batch under way. -/
def templates (s : Session) : List Template :=
  s.history.templates s.document

/-! ## Where its templates come from -/

theorem templates_settle (s : Session) : s.settle.templates = s.templates := by
  rw [settle]
  split
  case h_1 => rfl
  case h_2 => rfl

/-- The operations that edit all go through `History.apply`.  The cursor that is set afterwards is
no template, so it does not matter where the edit puts it. -/
theorem templates_apply (s : Session) (e : Edit) :
    (s.apply e).2.templates =
      (s.history.apply e s.document).2.1.templates (s.history.apply e s.document).2.2 := by
  rw [apply]
  rcases s.history.apply e s.document with ⟨_ | change, history, document⟩
  · rfl
  · dsimp only
    cases change.focus with
    | none => exact templates_settle _
    | some focus => rfl

/-- `changeText` is the edit `replaceText`, after which only the cursor is put elsewhere. -/
theorem templates_changeText (s : Session) (a : Address) (caret : Nat) (text : String) :
    (s.changeText a caret text).2.templates = (s.apply (.replaceText a text)).2.templates := by
  unfold changeText
  rcases s.apply (.replaceText a text) with ⟨_ | change, s'⟩
  · rfl
  · rfl

theorem templates_moveCursor (s : Session) (a : Address) (caret : Nat) :
    (s.moveCursor a caret).2.templates = s.templates := by
  rw [moveCursor]
  split
  case h_1 => rfl
  case h_2 => rfl

/-- An operation of the session holds afterwards what was held before or what an edit makes of the
document.  Each of them comes down to one operation of the history, of which `History.Move.held`
says the same. -/
theorem templates_perform_session {s : Session} {step : Step} {t : Template}
    (ht : t ∈ (s.perform step).2.templates) : t ∈ s.templates ∨ s.document.Makes t := by
  -- All edits of a session are one case, by `templates_apply`.
  have hedit : ∀ e : Edit, t ∈ (s.apply e).2.templates → t ∈ s.templates ∨ s.document.Makes t := by
    intro e he
    rw [templates_apply] at he
    exact (s.history.move_apply s.document e).held he
  cases step with
  | typeText text => exact hedit _ ht
  | insertVariable name => exact hedit _ ht
  | changeText a caret text =>
    refine hedit (.replaceText a text) ?_
    rw [← templates_changeText s a caret text]
    exact ht
  | insertConditional => exact hedit _ ht
  | deleteConditional a => exact hedit _ ht
  | moveCursor a caret =>
    rw [← templates_moveCursor s a caret]
    refine .inl ?_
    rw [perform] at ht
    split at ht
    case h_1 heq => rwa [heq]
    case h_2 heq => rwa [heq]
  | undo =>
    have ht' : t ∈ s.undo.2.templates := ht
    rw [undo, templates_settle] at ht'
    exact (s.history.move_undo s.document).held ht'
  | redo =>
    have ht' : t ∈ s.redo.2.templates := ht
    rw [redo, templates_settle] at ht'
    exact (s.history.move_redo s.document).held ht'
  | beginBatch => exact (s.history.move s.document .beginBatch).held ht
  | endBatch => exact (s.history.move s.document .endBatch).held ht
  | describe description => exact (s.history.move s.document (.describe description)).held ht
  | clear => exact (s.history.move s.document .clear).held ht

/-- Whatever is done by `act`, a template that is held afterwards was held before, is what an edit
makes of the document, or was handed in well formed. -/
theorem templates_act {s : Session} {action : Action} {t : Template}
    (ht : t ∈ (s.act action).templates) :
    t ∈ s.templates ∨ s.document.Makes t ∨ t.WellFormed := by
  -- What is done to the document itself leaves the entries of the history alone.
  have hdoc : ∀ {d : Document}, d.template = s.document.template ∨ s.document.Makes d.template →
      t ∈ s.history.templates d → t ∈ s.templates ∨ s.document.Makes t ∨ t.WellFormed := by
    intro d hd ht'
    rcases History.mem_templates_of_entries (d := s.document) (fun _ h => h) ht' with rfl | hold
    · rcases hd with hsame | hmade
      · exact .inl (History.mem_templates.mpr (.inl hsame))
      · exact .inr (.inl hmade)
    · exact .inl hold
  cases action with
  | edit e => exact hdoc (s.document.template_apply e) ht
  | editAt version e => exact hdoc (s.document.template_applyAt version e) ht
  | replace new wellFormed =>
    rcases History.mem_templates_of_entries (d := s.document) (fun _ h => h) ht with rfl | hold
    · exact .inr (.inr wellFormed)
    · exact .inl hold
  | history step =>
    rcases (s.history.move s.document step).held ht with hold | hmade
    · exact .inl hold
    · exact .inr (.inl hmade)
  | session step =>
    rcases templates_perform_session ht with hold | hmade
    · exact .inl hold
    · exact .inr (.inl hmade)

/-! ## The invariant -/

/-- The step lemma: if all `templates` held are well formed, they still are after any `Action`. -/
theorem act_wellFormed {s : Session} (h : ∀ t ∈ s.templates, t.WellFormed) (action : Action) :
    ∀ t ∈ (s.act action).templates, t.WellFormed := by
  intro t ht
  rcases templates_act ht with hold | ⟨e, edited, he, rfl⟩ | hnew
  · exact h t hold
  · exact Edit.apply_wellFormed (h _ (History.mem_templates.mpr (.inl rfl))) he
  · exact hnew

/-- The run lemma.  The induction is on the actions, with the session left general, and
`act_wellFormed` is its step. -/
theorem actAll_wellFormed (actions : List Action) : ∀ {s : Session},
    (∀ t ∈ s.templates, t.WellFormed) → ∀ t ∈ (s.actAll actions).templates, t.WellFormed := by
  induction actions with
  | nil => exact fun h => h
  | cons action rest ih => exact fun h => ih (act_wellFormed h action)

/-- From an `Opened` document and a history without entries, every template that is ever held is
well formed. -/
theorem templates_wellFormed {s : Session} {limit : Nat} (hdocument : s.document.Opened)
    (hhistory : s.history = .fresh limit) (actions : List Action) :
    ∀ t ∈ (s.actAll actions).templates, t.WellFormed := by
  refine actAll_wellFormed actions fun t ht => ?_
  rw [templates, hhistory] at ht
  rcases History.mem_templates.mp ht with rfl | ⟨entry, hentry, -⟩
  · exact hdocument.wellFormed
  · exact absurd hentry List.not_mem_nil

/-- Typing, splitting and undoing the split leave five templates to be seen, two of
them from the entry that can be redone. -/
theorem templates_wellFormed_start :
    let s := Session.start "s" (.ofContents [.conditional [] [] []]) []
    let actions : List Action :=
      [.editAt 0 (.insertText ⟨"/0-if-cond/0-text"⟩ 0 "a"),
        .session (.moveCursor ⟨"/0-if-then/0-text"⟩ 0), .session .insertConditional,
        .history .undo]
    s.document.Opened ∧ s.history = .fresh History.usualLimit ∧
      (s.actAll actions).history.redos.length = 1 ∧
      ∀ t ∈ (s.actAll actions).templates, t.WellFormed :=
  ⟨.ofContents _, rfl, by decide +kernel, templates_wellFormed (.ofContents _) rfl _⟩

end Session

end MessageTemplate
