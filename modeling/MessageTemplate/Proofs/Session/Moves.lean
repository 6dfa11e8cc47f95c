/-
What one step of a history does.

A step is one of a few moves.  Which one it is depends on the edit, on the batch under way and on
whether there is anything to undo or redo.  The moves are listed in `Move`, each with all that it
needs and all that it changes, and `move` says that every step is one of them; so no proof about
runs has to open the operations.

What a run keeps is then proved move by move and carried along the run by one induction,
`run_keeps`.  Some properties need a condition at every step of the run; the condition may speak of
the state in which the step is taken, and `Throughout` makes it part of the induction.
-/
import MessageTemplate.Session.History

set_option autoImplicit false

namespace MessageTemplate

namespace History

/-! ## The batch under way -/

/-- The history with no batch under way, and nothing else changed.  This is what `endBatch` leaves
before it pushes the batch. -/
def closed (h : History) : History :=
  { h with batching := false, batch := none, pending := none }

/-- The template from which the batch under way started, `before` its entry.  Without an edit in a
batch this is the one that the document has. -/
def base (h : History) (d : Document) : Template :=
  h.batch.elim d.template Entry.before

/-- Without an entry in the batch the `base` is the template of the document, whether a batch has
been begun or not. -/
theorem base_of_none {h : History} (hbatch : h.batch = none) (d : Document) :
    h.base d = d.template := by
  rw [base, hbatch, Option.elim_none]

/-- With an entry in the batch the `base` is the first of its snapshots, however many edits have
joined it. -/
theorem base_of_some {h : History} {entry : Entry} (hbatch : h.batch = some entry)
    (d : Document) : h.base d = entry.before := by
  rw [base, hbatch, Option.elim_some]

/-! ## Moves -/

/-- What a step leaves of a history and its document.  Each constructor is one way in which an
operation can come out, with its guards as hypotheses and the new state written out in full.  So
`cases` on a move gives all that is known of a step, and there are no other cases. -/
inductive Move (h : History) (d : Document) : Step → History → Document → Prop
  | refused {e : Edit} {cause : EditError} (hedit : e.apply d.template = .error cause) :
    Move h d (.apply e) h d
  /-- An edit outside of a batch is an entry of its own. -/
  | recorded {e : Edit} {edited : Edited} (hedit : e.apply d.template = .ok edited)
    (hbatching : h.batching = false) :
    Move h d (.apply e) (h.push (.single e d.template edited.template))
      (d.replace edited.template)
  /-- The first edit of a batch makes the entry of the `batch`, which takes over a description that
  was given before there was anything to describe. -/
  | opened {e : Edit} {edited : Edited} (hedit : e.apply d.template = .ok edited)
    (hbatching : h.batching = true) (hbatch : h.batch = none) :
    Move h d (.apply e)
      { h with
        batch := some { Entry.single e d.template edited.template with description := h.pending }
        pending := none }
      (d.replace edited.template)
  /-- A later edit of a batch moves the end of its entry, `after`, and the start stays. -/
  | joined {e : Edit} {edited : Edited} {entry : Entry} (hedit : e.apply d.template = .ok edited)
    (hbatching : h.batching = true) (hbatch : h.batch = some entry) :
    Move h d (.apply e)
      { h with
        batch := some { entry with edits := entry.edits ++ [e], after := edited.template } }
      (d.replace edited.template)
  | nothingToUndo (hundos : h.undos = []) : Move h d .undo h d
  /-- The entry goes over to `redos`, and the document gets back what was `before` it. -/
  | undone {entry : Entry} {rest : List Entry} (hundos : h.undos = entry :: rest) :
    Move h d .undo { h with undos := rest, redos := entry :: h.redos } (d.replace entry.before)
  | nothingToRedo (hredos : h.redos = []) : Move h d .redo h d
  /-- The entry goes back to `undos`, and the document gets what was `after` it. -/
  | redone {entry : Entry} {rest : List Entry} (hredos : h.redos = entry :: rest) :
    Move h d .redo { h with undos := entry :: h.undos, redos := rest } (d.replace entry.after)
  /-- A batch is begun.  What a `batch` under way has done so far is no entry yet and is lost. -/
  | begun : Move h d .beginBatch h.beginBatch d
  | dropped (hbatch : h.batch = none) : Move h d .endBatch h.closed d
  /-- The entry of the batch is pushed (`History.push`) as if it were that of a single edit. -/
  | pushed {entry : Entry} (hbatch : h.batch = some entry) :
    Move h d .endBatch (h.closed.push entry) d
  | renamed {description : String} {entry : Entry} (hbatching : h.batching = true)
    (hbatch : h.batch = some entry) :
    Move h d (.describe description)
      { h with batch := some { entry with description := some description } } d
  /-- A description given before the first edit of the batch waits for it as `pending`. -/
  | announced {description : String} (hbatching : h.batching = true) (hbatch : h.batch = none) :
    Move h d (.describe description) { h with pending := some description } d
  | ignored {description : String} (hbatching : h.batching = false) :
    Move h d (.describe description) h d
  | cleared : Move h d .clear h.clear d

/-- `apply` comes out in four ways: the edit is refused, or it is recorded, on its own, as the first
of a batch or as a later one. -/
theorem move_apply (h : History) (d : Document) (e : Edit) :
    Move h d (.apply e) (h.apply e d).2.1 (h.apply e d).2.2 := by
  rw [apply, Document.apply]
  cases hedit : e.apply d.template with
  | error cause => exact .refused hedit
  | ok edited =>
    show Move h d (.apply e) (h.record e d.template edited.template) (d.replace edited.template)
    rw [record]
    split
    case isTrue hbatching =>
      split
      case h_1 entry hbatch => exact .joined hedit hbatching hbatch
      case h_2 hbatch => exact .opened hedit hbatching hbatch
    case isFalse hbatching => exact .recorded hedit (Bool.eq_false_iff.mpr hbatching)

/-- `undo` looks at `undos` alone.  A batch under way does not keep it from undoing what was done
before the batch. -/
theorem move_undo (h : History) (d : Document) :
    Move h d .undo (h.undo d).2.1 (h.undo d).2.2 := by
  rw [undo]
  cases hundos : h.undos with
  | nil => exact .nothingToUndo hundos
  | cons entry rest => exact .undone hundos

/-- `redo` looks at `redos` alone, as `undo` does at `undos`. -/
theorem move_redo (h : History) (d : Document) :
    Move h d .redo (h.redo d).2.1 (h.redo d).2.2 := by
  rw [redo]
  cases hredos : h.redos with
  | nil => exact .nothingToRedo hredos
  | cons entry rest => exact .redone hredos

/-- `endBatch` asks whether the batch has an entry, and not whether a batch has been begun. -/
theorem move_endBatch (h : History) (d : Document) : Move h d .endBatch h.endBatch d := by
  rw [endBatch]
  cases hbatch : h.batch with
  | none => exact .dropped hbatch
  | some entry => exact .pushed hbatch

/-- `describe` does nothing unless a batch has been begun; then it asks whether there is an entry to
describe. -/
theorem move_describe (h : History) (d : Document) (description : String) :
    Move h d (.describe description) (h.describe description) d := by
  rw [describe]
  split
  case isTrue hbatching =>
    split
    case h_1 entry hbatch => exact .renamed hbatching hbatch
    case h_2 hbatch => exact .announced hbatching hbatch
  case isFalse hbatching => exact .ignored (Bool.eq_false_iff.mpr hbatching)

/-- Every step is one of the moves.  `perform` gives the parts of an answer in another form than the
operations do, but the state that is left is the same. -/
theorem move (h : History) (d : Document) (step : Step) :
    Move h d step (h.perform d step).2.1 (h.perform d step).2.2 := by
  cases step with
  | apply e =>
    have hmove := h.move_apply d e
    rw [perform]
    -- The two answers carry the same state.
    rcases hres : h.apply e d with ⟨_ | change, h', d'⟩
    all_goals
      rw [hres] at hmove
      exact hmove
  | undo => exact h.move_undo d
  | redo => exact h.move_redo d
  | beginBatch => exact .begun
  | endBatch => exact h.move_endBatch d
  | describe description => exact h.move_describe d description
  | clear => exact .cleared

/-! ## Undoing and redoing -/

/-- An `undo` by what it answers: it is one of the moves, and the answer says whether there was an
entry, so it says which of the two moves for an undo it is. -/
theorem move_of_undo {h h' : History} {d d' : Document} {did : Bool}
    (hundo : h.undo d = (did, h', d')) : Move h d .undo h' d' ∧ did = !h.undos.isEmpty := by
  have hmove := h.move_undo d
  have hdid : (h.undo d).1 = !h.undos.isEmpty := by
    rw [undo]
    cases h.undos with
    | nil => rfl
    | cons entry rest => rfl
  rw [hundo] at hmove hdid
  exact ⟨hmove, hdid⟩

/-- The same for a redo, which answers whether `redos` had an entry. -/
theorem move_of_redo {h h' : History} {d d' : Document} {did : Bool}
    (hredo : h.redo d = (did, h', d')) : Move h d .redo h' d' ∧ did = !h.redos.isEmpty := by
  have hmove := h.move_redo d
  have hdid : (h.redo d).1 = !h.redos.isEmpty := by
    rw [redo]
    cases h.redos with
    | nil => rfl
    | cons entry rest => rfl
  rw [hredo] at hmove hdid
  exact ⟨hmove, hdid⟩

/-- An undo that answers `true` has moved the last entry over to `redos` and put its `before` in
place. -/
theorem undo_eq_true {h h' : History} {d d' : Document} (hundo : h.undo d = (true, h', d')) :
    ∃ entry rest, h.undos = entry :: rest ∧
      h' = { h with undos := rest, redos := entry :: h.redos } ∧ d' = d.replace entry.before := by
  obtain ⟨hmove, hdid⟩ := move_of_undo hundo
  cases hmove with
  | nothingToUndo hundos =>
    rw [hundos] at hdid
    exact absurd hdid nofun
  | undone hundos => exact ⟨_, _, hundos, rfl, rfl⟩

/-- An undo that answers `false` has had nothing to undo and has changed nothing. -/
theorem undo_eq_false {h h' : History} {d d' : Document} (hundo : h.undo d = (false, h', d')) :
    h.undos = [] ∧ h' = h ∧ d' = d := by
  obtain ⟨hmove, hdid⟩ := move_of_undo hundo
  cases hmove with
  | nothingToUndo hundos => exact ⟨hundos, rfl, rfl⟩
  | undone hundos =>
    rw [hundos] at hdid
    exact absurd hdid nofun

/-- A redo that answers `true` has moved the entry back to `undos` and put its `after` in place. -/
theorem redo_eq_true {h h' : History} {d d' : Document} (hredo : h.redo d = (true, h', d')) :
    ∃ entry rest, h.redos = entry :: rest ∧
      h' = { h with undos := entry :: h.undos, redos := rest } ∧ d' = d.replace entry.after := by
  obtain ⟨hmove, hdid⟩ := move_of_redo hredo
  cases hmove with
  | nothingToRedo hredos =>
    rw [hredos] at hdid
    exact absurd hdid nofun
  | redone hredos => exact ⟨_, _, hredos, rfl, rfl⟩

/-- What `undo` leaves, where it is known that there is an entry.  In this form it rewrites a
run. -/
theorem perform_undo {h : History} {entry : Entry} {rest : List Entry}
    (hundos : h.undos = entry :: rest) (d : Document) :
    (h.perform d .undo).2 =
      ({ h with undos := rest, redos := entry :: h.redos }, d.replace entry.before) := by
  rw [perform, undo, hundos]

/-- What `redo` leaves, where it is known that there is an entry. -/
theorem perform_redo {h : History} {entry : Entry} {rest : List Entry}
    (hredos : h.redos = entry :: rest) (d : Document) :
    (h.perform d .redo).2 =
      ({ h with undos := entry :: h.undos, redos := rest }, d.replace entry.after) := by
  rw [perform, redo, hredos]

/-! ## Runs -/

/-- A condition `ok` on the state and the step taken in it, met at every step of a run. -/
def Throughout (ok : History → Document → Step → Prop) : History → Document → List Step → Prop
  | _, _, [] => True
  | h, d, step :: rest =>
    ok h d step ∧ Throughout ok (h.perform d step).2.1 (h.perform d step).2.2 rest

instance {ok : History → Document → Step → Prop} [∀ h d step, Decidable (ok h d step)] :
    ∀ (h : History) (d : Document) (steps : List Step), Decidable (Throughout ok h d steps)
  | _, _, [] => .isTrue trivial
  | h, d, step :: rest =>
    have : Decidable (Throughout ok (h.perform d step).2.1 (h.perform d step).2.2 rest) :=
      instDecidableThroughout _ _ rest
    inferInstanceAs (Decidable (_ ∧ _))

theorem run_cons (h : History) (d : Document) (step : Step) (rest : List Step) :
    h.run d (step :: rest) = (h.perform d step).2.1.run (h.perform d step).2.2 rest := rfl

theorem run_append (h : History) (d : Document) (steps more : List Step) :
    h.run d (steps ++ more) = (h.run d steps).1.run (h.run d steps).2 more := by
  rw [run, List.foldl_append]
  rfl

/-- What holds at the start and is kept by every `Move` that meets the condition holds at the end of
every run that meets it `Throughout`.  The induction is on the steps, for all states at once. -/
theorem run_keeps {P : History → Document → Prop} {ok : History → Document → Step → Prop}
    (hkeep : ∀ {h d step h' d'}, P h d → ok h d step → Move h d step h' d' → P h' d')
    (steps : List Step) : ∀ {h : History} {d : Document}, P h d → Throughout ok h d steps →
      P (h.run d steps).1 (h.run d steps).2 := by
  induction steps with
  | nil => exact fun hstart _ => hstart
  | cons step rest ih =>
    intro h d hstart hok
    obtain ⟨hstep, hrest⟩ := hok
    rw [run_cons]
    exact ih (hkeep hstart hstep (h.move d step)) hrest

end History

end MessageTemplate
