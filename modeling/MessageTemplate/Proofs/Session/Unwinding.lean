/-
Undoing everything.

The entries that can be undone and those that can be redone are one `timeline`, and undoing and
redoing only move the place in it.  Undoing to the end (`undoAll`) leads to the template before the
oldest entry of the timeline, which without a bound is the template that everything started from.

The batch under way stands outside of the timeline until it ends, and two steps do not care for it.
Beginning a batch anew forgets the one under way, though the document keeps its edits.  Undoing
takes back the entry before the batch, and when the batch ends it is put where that entry was,
though it starts from another template.  If nothing older is left in the timeline, there is then no
way back.

These two steps are `Loses`.  The invariant `Anchored` says that the way back is open;
`Anchored.move` keeps it through every other step but clearing, and `Anchored.unwound_of_loses`
shows that each of the two really ends it.  The main result, `unwound_run`, puts this together.
-/
import MessageTemplate.Proofs.Session.Moves

set_option autoImplicit false

namespace MessageTemplate

namespace History

/-! ## Undoing to the end -/

/-- Undoes until there is nothing left to undo.  It ends because an undo that answers `true` has
taken an entry from `undos`. -/
def undoAll (h : History) (d : Document) : History × Document :=
  match _hundo : h.undo d with
  | (false, h', d') => (h', d')
  | (true, h', d') => undoAll h' d'
termination_by h.undos.length
decreasing_by
  obtain ⟨entry, rest, hundos, rfl, -⟩ := undo_eq_true _hundo
  rw [hundos]
  exact Nat.lt_succ_self rest.length

/-- The template that is left when the batch is ended by `endBatch` and then everything undone. -/
def unwound (h : History) (d : Document) : Template :=
  (h.endBatch.undoAll d).2.template

/-- `undoAll` leaves what was `before` the oldest entry, and the template of the document if there
is no entry.  The induction is that of `undoAll` itself. -/
theorem template_undoAll (h : History) (d : Document) :
    (h.undoAll d).2.template = h.undos.getLast?.elim d.template Entry.before := by
  fun_induction undoAll h d with
  | case1 h d h' d' hundo =>
    obtain ⟨hundos, -, rfl⟩ := undo_eq_false hundo
    rw [hundos, List.getLast?_nil, Option.elim_none]
  | case2 h d h' d' hundo ih =>
    obtain ⟨entry, rest, hundos, rfl, rfl⟩ := undo_eq_true hundo
    rw [ih, hundos, List.getLast?_cons, Option.elim_some]
    cases rest.getLast? with
    | none => rfl
    | some oldest => rfl

/-- Without a limit `push` forgets nothing. -/
theorem undos_push {h : History} (hlimit : h.limit = 0) (entry : Entry) :
    (h.push entry).undos = entry :: h.undos := by
  rw [push, hlimit]
  rfl

/-- Undoing to the end leads before the oldest entry, and to the `base` of the batch if there is
none.  Ending the batch pushes its entry, so with an empty `undos` this is then the oldest. -/
theorem unwound_eq {h : History} (hlimit : h.limit = 0) (d : Document) :
    h.unwound d = h.undos.getLast?.elim (h.base d) Entry.before := by
  rw [unwound, template_undoAll, endBatch]
  cases hbatch : h.batch with
  | none => rw [base_of_none hbatch]
  | some entry =>
    have hundos : (h.closed.push entry).undos = entry :: h.undos := undos_push hlimit entry
    show (h.closed.push entry).undos.getLast?.elim d.template Entry.before = _
    rw [hundos, List.getLast?_cons, Option.elim_some, base_of_some hbatch]
    cases h.undos.getLast? with
    | none => rfl
    | some oldest => rfl

/-! ## The timeline -/

/-- All entries from the oldest to the newest, those that can be redone at the end.  The oldest is
the last of `undos`, so this list is turned around. -/
def timeline (h : History) : List Entry :=
  h.undos.reverse ++ h.redos

/-- The `Step` cuts the document off from the template before its history.  This is so if there is
but the batch between the two and the batch is forgotten, or if the only entry is undone while a
batch goes on that started elsewhere. -/
def Loses (h : History) (d : Document) : Step → Prop
  | .beginBatch => h.undos = [] ∧ ∃ entry ∈ h.batch, entry.before ≠ d.template
  | .undo =>
    h.undos.length = 1 ∧ ∃ oldest ∈ h.undos, ∃ entry ∈ h.batch, entry.before ≠ oldest.before
  | _ => False

instance (h : History) (d : Document) : ∀ step : Step, Decidable (h.Loses d step)
  | .beginBatch => inferInstanceAs (Decidable (_ ∧ _))
  | .undo => inferInstanceAs (Decidable (_ ∧ _))
  | .apply _ => .isFalse id
  | .redo => .isFalse id
  | .endBatch => .isFalse id
  | .describe _ => .isFalse id
  | .clear => .isFalse id

/-- The way back to a template is open: it stands before the oldest entry, and where nothing can be
undone it is the `base`, from which the batch under way started.  That an entry gathers only in a
batch that has been begun is part of it, as otherwise a single edit could be pushed over it. -/
structure Anchored (t : Template) (h : History) (d : Document) : Prop where
  unlimited : h.limit = 0
  oldest : ∀ entry ∈ h.timeline.head?, entry.before = t
  ground : h.undos = [] → h.base d = t
  gathers : h.batching = false → h.batch = none

namespace Anchored

variable {t : Template} {h : History} {d : Document}

/-- At the start the `timeline` is empty, and the way back to the document's own template has no
step. -/
theorem fresh (d : Document) : Anchored d.template (.fresh 0) d where
  unlimited := rfl
  oldest := nofun
  ground _ := rfl
  gathers _ := rfl

/-- What `unwound_eq` speaks of is the template that the way leads back to. -/
theorem before_oldest (ha : Anchored t h d) :
    h.undos.getLast?.elim (h.base d) Entry.before = t := by
  cases hlast : h.undos.getLast? with
  | none => exact ha.ground (List.getLast?_eq_none_iff.mp hlast)
  | some entry =>
    refine ha.oldest entry ?_
    rw [timeline, List.head?_append, List.head?_reverse, hlast, Option.some_or]
    rfl

/-- As long as the way back is open (`Anchored`), undoing everything takes it. -/
theorem unwound (ha : Anchored t h d) : h.unwound d = t := by
  rw [unwound_eq ha.unlimited, ha.before_oldest]

/-- An entry that starts at the `base`, where the batch did, continues the timeline; it serves for
an edit on its own and for a batch that ends.  What could be redone is given up for it, so all that
has to be seen is the oldest entry that can be undone. -/
theorem push (ha : Anchored t h d) {entry : Entry} (hbefore : entry.before = h.base d)
    {h' : History} (hundos : h'.undos = entry :: h.undos) (hlimit : h'.limit = 0)
    (hbatch : h'.batch = none) (d' : Document) : Anchored t h' d' where
  unlimited := hlimit
  oldest first hfirst := by
    rw [timeline, hundos, List.head?_append, List.head?_reverse, List.getLast?_cons,
      Option.some_or] at hfirst
    obtain rfl := Option.some.inj hfirst
    have holdest := ha.before_oldest
    rw [← hbefore] at holdest
    -- The new entry is the oldest only if there was none.
    rw [← holdest]
    cases h.undos.getLast? with
    | none => rfl
    | some oldest => rfl
  ground hnil := absurd (hundos.symm.trans hnil) (List.cons_ne_nil _ _)
  gathers _ := hbatch

/-- After a step that changes the batch under way and nothing else of the history.  The batch has to
start at the `base`, where it did before, or where the document is if it is new. -/
theorem of_batch (ha : Anchored t h d) {entry : Entry} (hbefore : entry.before = h.base d)
    (hbatching : h.batching = true) (pending : Option String) (d' : Document) :
    Anchored t { h with batch := some entry, pending } d' where
  unlimited := ha.unlimited
  oldest := ha.oldest
  ground hundos := by
    show entry.before = t
    rw [hbefore, ha.ground hundos]
  gathers hfalse := absurd (hbatching.symm.trans hfalse) nofun

/-- The step lemma: every `Move` but those that lose it (`Loses`), and clearing, keeps the way
back. -/
theorem move (ha : Anchored t h d) {step : Step} {h' : History} {d' : Document}
    (hkeeps : step ≠ .clear ∧ ¬ h.Loses d step) (hmove : Move h d step h' d') :
    Anchored t h' d' := by
  obtain ⟨hclear, hloses⟩ := hkeeps
  cases hmove with
  | refused | nothingToUndo | nothingToRedo | ignored => exact ha
  | recorded _ hbatching =>
    have hbatch := ha.gathers hbatching
    refine ha.push ?_ (undos_push ha.unlimited _) ha.unlimited hbatch _
    exact (base_of_none hbatch d).symm
  | opened _ hbatching hbatch =>
    refine ha.of_batch ?_ hbatching _ _
    exact (base_of_none hbatch d).symm
  | joined _ hbatching hbatch =>
    refine ha.of_batch ?_ hbatching _ _
    exact (base_of_some hbatch d).symm
  -- Undoing and redoing move the place in the `timeline`, not what it holds.
  | @undone entry rest hundos =>
    have htimeline : h.timeline = rest.reverse ++ entry :: h.redos := by
      rw [timeline, hundos, List.reverse_cons, List.append_assoc, List.singleton_append]
    have holdest := ha.oldest
    rw [htimeline] at holdest
    refine ⟨ha.unlimited, holdest, ?_, ha.gathers⟩
    rintro rfl
    have hentry : entry.before = t := holdest entry rfl
    show h.batch.elim entry.before Entry.before = t
    cases hbatch : h.batch with
    | none => exact hentry
    | some batch =>
      -- The batch starts where the undone entry did, or the way back would be lost.
      rw [Option.elim_some, ← hentry]
      refine Decidable.byContradiction fun hne => ?_
      refine hloses ⟨by rw [hundos]; rfl, entry, ?_, batch, hbatch, hne⟩
      rw [hundos]
      exact List.mem_singleton_self entry
  | @redone entry rest hredos =>
    have htimeline : h.timeline = (entry :: h.undos).reverse ++ rest := by
      rw [timeline, hredos, List.reverse_cons, List.append_assoc, List.singleton_append]
    have holdest := ha.oldest
    rw [htimeline] at holdest
    exact ⟨ha.unlimited, holdest, fun hnil => absurd hnil (List.cons_ne_nil _ _), ha.gathers⟩
  -- The batch under way is forgotten, and its `base` is no longer that of the batch but the
  -- document's template.  Where nothing can be undone these two must be the same.
  | begun =>
    refine ⟨ha.unlimited, ha.oldest, fun hundos => ?_, fun _ => rfl⟩
    show d.template = t
    rw [← ha.ground hundos]
    cases hbatch : h.batch with
    | none => rw [base_of_none hbatch]
    | some entry =>
      rw [base_of_some hbatch]
      exact Decidable.byContradiction fun hne => hloses ⟨hundos, entry, hbatch, Ne.symm hne⟩
  | dropped hbatch =>
    refine ⟨ha.unlimited, ha.oldest, fun hundos => ?_, fun _ => rfl⟩
    rw [← ha.ground hundos, base_of_none hbatch]
    rfl
  | pushed hbatch =>
    exact ha.push (base_of_some hbatch d).symm (undos_push (h := h.closed) ha.unlimited _)
      ha.unlimited rfl _
  | renamed hbatching hbatch =>
    refine ha.of_batch ?_ hbatching _ _
    exact (base_of_some hbatch d).symm
  | announced _ _ => exact ⟨ha.unlimited, ha.oldest, ha.ground, ha.gathers⟩
  | cleared => exact absurd rfl hclear

/-- A step that loses the way back leads to another template in the end: so the condition of
`Anchored.move` cannot be weakened. -/
theorem unwound_of_loses (ha : Anchored t h d) {step : Step} (hloses : h.Loses d step) :
    (h.perform d step).2.1.unwound (h.perform d step).2.2 ≠ t := by
  cases step with
  | beginBatch =>
    obtain ⟨hundos, entry, hbatch, hne⟩ := hloses
    have hground := ha.ground hundos
    rw [base_of_some hbatch] at hground
    show h.beginBatch.unwound d ≠ t
    -- The batch is gone, and what is left is the template with its edits.
    rw [unwound_eq (h := h.beginBatch) ha.unlimited, ← hground]
    show h.undos.getLast?.elim d.template Entry.before ≠ entry.before
    rw [hundos]
    exact Ne.symm hne
  | undo =>
    obtain ⟨hlength, oldest, holdest, entry, hbatch, hne⟩ := hloses
    -- The only entry is taken back, and the batch with its own start is all that is left.
    obtain ⟨only, hundos⟩ := List.length_eq_one_iff.mp hlength
    rw [hundos, List.mem_singleton] at holdest
    subst holdest
    have hbefore : oldest.before = t := by
      refine ha.oldest oldest ?_
      rw [timeline, hundos]
      rfl
    rw [perform_undo hundos, unwound_eq (by exact ha.unlimited)]
    show h.batch.elim oldest.before Entry.before ≠ t
    rw [hbatch, Option.elim_some, ← hbefore]
    exact hne
  | apply _ | redo | endBatch | describe _ | clear => exact hloses.elim

end Anchored

/-! ## Runs without a bound -/

/-- Two ways to lose an edit.  A batch that is begun anew forgets its edit.  Undoing
while a batch goes on takes the older entry back and lets the batch stand in its
place. -/
theorem unwound_astray :
    let d := Document.ofContents []
    let type (s : String) := Step.apply (.insertText ⟨"/0-text"⟩ 0 s)
    let anew := (fresh 0).run d [.beginBatch, type "a", .beginBatch]
    let amid := (fresh 0).run d [type "a", .beginBatch, type "b", .undo]
    anew.1.unwound anew.2 ≠ d.template ∧ amid.1.unwound amid.2 ≠ d.template := by
  intro d type anew amid
  rw [unwound_eq (h := anew.1) rfl, unwound_eq (h := amid.1) rfl]
  decide +kernel

/-- From a history without bound and without entries, through any steps but clearing: as long as no
step has lost the way back (`Loses`), ending the batch and undoing everything leads to the template
of the start.  The first step that loses it ends this. -/
theorem unwound_run {d : Document} {steps : List Step}
    (hsteps : Throughout (fun h d step => step ≠ .clear ∧ ¬ h.Loses d step) (fresh 0) d steps) :
    let s := (fresh 0).run d steps
    s.1.unwound s.2 = d.template ∧
      ∀ step, s.1.Loses s.2 step →
        (s.1.perform s.2 step).2.1.unwound (s.1.perform s.2 step).2.2 ≠ d.template := by
  intro s
  have hanchored : Anchored d.template s.1 s.2 :=
    run_keeps (fun ha hkeeps hmove => ha.move hkeeps hmove) steps (.fresh d) hsteps
  exact ⟨hanchored.unwound, fun step hloses => hanchored.unwound_of_loses hloses⟩

/-- An older entry is redone while a batch has an edit, and the newest one is undone while
the next batch has one.  Undoing once more loses the way back. -/
theorem unwound_run_batches :
    let d := Document.ofContents [.text "x"]
    let type (s : String) := Step.apply (.insertText ⟨"/0-text"⟩ 0 s)
    let steps := [type "a", .undo, .beginBatch, type "b", .redo, .endBatch, .beginBatch, type "c",
      .undo, .describe "last"]
    let s := (fresh 0).run d steps
    Throughout (fun h d step => step ≠ .clear ∧ ¬ h.Loses d step) (fresh 0) d steps ∧
      s.1.unwound s.2 = d.template ∧ s.1.Loses s.2 .undo ∧
      (s.1.perform s.2 .undo).2.1.unwound (s.1.perform s.2 .undo).2.2 ≠ d.template := by
  intro d type steps s
  have hsteps :
      Throughout (fun h d step => step ≠ .clear ∧ ¬ h.Loses d step) (fresh 0) d steps := by
    decide +kernel
  have hloses : s.1.Loses s.2 .undo := by decide +kernel
  obtain ⟨hback, hlost⟩ := unwound_run hsteps
  exact ⟨hsteps, hback, hloses, hlost .undo hloses⟩

end History

end MessageTemplate
