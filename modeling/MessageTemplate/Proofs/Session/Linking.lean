/-
The entries of a history fit together.

Where one entry ends the next one starts, the entry that would be undone ends at the document's
template, and the one that would be redone starts there: this is `Linked`.  So undoing and redoing
lead along one line of templates and back (`Linked.undo_redo`).  The edits of an entry, made in
their order, lead from its start to its end.

A batch under way is not part of the line.  While it gathers edits the line ends where the batch
started, at `History.base`, and the batch leads from there to the document's template.  The
invariant `Faithful` says all of this.  It is kept as long as the batch is not interrupted: undoing,
redoing and beginning anew take no notice of it (`Step.interrupts`).
-/
import MessageTemplate.Proofs.Session.Snapshots
import MessageTemplate.Proofs.Session.Moves

set_option autoImplicit false

namespace MessageTemplate

/-! ## Edits in a row -/

namespace Edit

/-- Makes edits one after the other, as long as they apply: `Edit.apply` in a row, with the focus
left out. -/
def applyAll (edits : List Edit) (t : Template) : Except EditError Template :=
  edits.foldlM (fun t e => (e.apply t).map Edited.template) t

theorem applyAll_single {e : Edit} {t : Template} {edited : Edited} (he : e.apply t = .ok edited) :
    applyAll [e] t = .ok edited.template := by
  rw [applyAll, List.foldlM_cons, he]
  rfl

/-- An edit that applies at the end of a row makes the row longer.  This is what happens to the
entry of a batch when an edit is `joined` to it. -/
theorem applyAll_concat {edits : List Edit} {e : Edit} {t t' : Template} {edited : Edited}
    (hedits : applyAll edits t = .ok t') (he : e.apply t' = .ok edited) :
    applyAll (edits ++ [e]) t = .ok edited.template := by
  rw [applyAll] at hedits
  rw [applyAll, List.foldlM_append, hedits]
  exact applyAll_single he

end Edit

namespace History

/-! ## The line of templates -/

/-- Entries such as `undos` lead back from a template, the most recent first: each one ends where
the entry before it in the list starts, and the first one ends at the template. -/
def LeadBack : List Entry → Template → Prop
  | [], _ => True
  | entry :: older, t => entry.after = t ∧ LeadBack older entry.before

/-- Entries such as `redos` lead on from a template, the next one first: each one starts where the
entry before it in the list ends, and the first one starts at the template. -/
def LeadOn : List Entry → Template → Prop
  | [], _ => True
  | entry :: later, t => entry.before = t ∧ LeadOn later entry.after

/-- The entries of both stacks, `undos` and `redos`, fit together at a template. -/
structure Linked (undos redos : List Entry) (t : Template) : Prop where
  back : LeadBack undos t
  forth : LeadOn redos t

/-- Without the oldest entry, which `History.push` may forget, the others still lead back. -/
theorem LeadBack.dropLast {entries : List Entry} : ∀ {t : Template}, LeadBack entries t →
    LeadBack entries.dropLast t := by
  induction entries with
  | nil => exact id
  | cons entry older ih =>
    intro t hback
    cases older with
    | nil => exact trivial
    | cons _ _ => exact ⟨hback.1, ih hback.2⟩

namespace Linked

variable {undos redos : List Entry} {entry : Entry} {t : Template}

theorem nil (t : Template) : Linked [] [] t := ⟨trivial, trivial⟩

/-- An `undo` takes the entry from one stack to the other and the template from its end to its
start, and everything fits again. -/
theorem undone (hl : Linked (entry :: undos) redos t) :
    Linked undos (entry :: redos) entry.before := by
  obtain ⟨rfl, hback⟩ := hl.back
  exact ⟨hback, rfl, hl.forth⟩

/-- A `redo` takes the entry and the template to where they were, and everything still fits. -/
theorem redone (hl : Linked undos (entry :: redos) t) :
    Linked (entry :: undos) redos entry.after := by
  obtain ⟨rfl, hforth⟩ := hl.forth
  exact ⟨⟨rfl, hl.back⟩, hforth⟩

/-- A new entry ends the line, also when `History.push` forgets the oldest one for it. -/
theorem push {h : History} (hl : Linked h.undos h.redos t) (hbefore : entry.before = t) :
    Linked (h.push entry).undos (h.push entry).redos entry.after := by
  have hback : LeadBack (entry :: h.undos) entry.after := ⟨rfl, hbefore ▸ hl.back⟩
  rw [History.push]
  dsimp only
  split
  case isTrue => exact ⟨hback.dropLast, trivial⟩
  case isFalse => exact ⟨hback, trivial⟩

end Linked

/-! ## There and back -/

/-- `undo` of some entries and `redo` of as many leaves the history and the template as they were.
The induction is on the number: the first undoing and the last redoing belong together, and what is
between them starts from entries that fit together again. -/
theorem Linked.undo_redo (k : Nat) : ∀ {h : History} {d : Document},
    Linked h.undos h.redos d.template → k ≤ h.undos.length →
      let s := h.run d (List.replicate k .undo ++ List.replicate k .redo)
      s.1 = h ∧ s.2.template = d.template := by
  induction k with
  | zero => exact fun _ _ => ⟨rfl, rfl⟩
  | succ k ih =>
    intro h d hl hk
    obtain ⟨entry, rest, hundos⟩ : ∃ entry rest, h.undos = entry :: rest :=
      List.exists_cons_of_length_pos (by omega)
    rw [hundos] at hl hk
    have hlength : k ≤ rest.length := Nat.le_of_succ_le_succ hk
    have hbetween := ih (h := { h with undos := rest, redos := entry :: h.redos })
      (d := d.replace entry.before) hl.undone hlength
    have hsteps : List.replicate (k + 1) Step.undo ++ List.replicate (k + 1) Step.redo =
        .undo :: ((List.replicate k .undo ++ List.replicate k .redo) ++ [.redo]) := by
      rw [List.replicate_succ, List.replicate_succ', List.cons_append, List.append_assoc]
    rw [hsteps, run_cons, perform_undo hundos, run_append]
    dsimp only at hbetween ⊢
    -- In between the run comes back to the state after the first undoing.
    rw [hbetween.1, run_cons, perform_redo rfl, ← hundos]
    exact ⟨rfl, hl.back.1⟩

/-! ## Runs -/

/-- What a history has recorded is what has happened to its document.  With a batch under way, the
line of entries leads to the `base` and the batch leads on from there. -/
structure Faithful (h : History) (d : Document) : Prop where
  linked : Linked h.undos h.redos (h.base d)
  replays : ∀ entry ∈ h.entries, Edit.applyAll entry.edits entry.before = .ok entry.after
  current : ∀ entry ∈ h.batch, entry.after = d.template
  gathers : h.batching = false → h.batch = none

/-- The steps that take no notice of a `batch` under way. -/
def Step.interrupts : Step → Bool
  | .undo => true
  | .redo => true
  | .beginBatch => true
  | _ => false

namespace Faithful

variable {h h' : History} {d d' : Document} {entry : Entry}

/-- A `fresh` history has recorded nothing, and nothing has happened. -/
theorem fresh (limit : Nat) (d : Document) : Faithful (.fresh limit) d where
  linked := .nil _
  replays := nofun
  current := nofun
  gathers _ := rfl

/-- Without a gathered edit the line of entries (`Linked`) ends at the document's template. -/
theorem linked_of_none (hf : Faithful h d) (hbatch : h.batch = none) :
    Linked h.undos h.redos d.template :=
  base_of_none hbatch d ▸ hf.linked

/-- After a step that only moves entries about, while no edit is gathered.  Each entry still replays
as it did, so only `Linked` has to be shown anew. -/
theorem of_entries (hf : Faithful h d) (hlinked : Linked h'.undos h'.redos d'.template)
    (hentries : h'.entries ⊆ h.entries) (hbatch : h'.batch = none) :
    Faithful h' d' where
  linked := (base_of_none hbatch d').symm ▸ hlinked
  replays _ hother := hf.replays _ (hentries hother)
  current _ hother := absurd (hbatch.symm.trans hother) nofun
  gathers _ := hbatch

/-- After a step that changes the batch under way and nothing else: its entry has to start at the
`base`, to end at the document's template, and to replay from the one to the other. -/
theorem of_batch (hf : Faithful h d) (hbefore : entry.before = h.base d)
    (hafter : entry.after = d'.template)
    (hreplays : Edit.applyAll entry.edits entry.before = .ok entry.after)
    (hbatching : h.batching = true) (pending : Option String) :
    Faithful { h with batch := some entry, pending } d' where
  linked := by
    have hlinked := hf.linked
    rw [← hbefore] at hlinked
    exact hlinked
  replays other hother := by
    rcases entries_batch hother with rfl | hold
    · exact hreplays
    · exact hf.replays other hold
  current other hother := by
    obtain rfl := Option.some.inj hother
    exact hafter
  gathers hfalse := absurd (hbatching.symm.trans hfalse) nofun

theorem push (hf : Faithful h d) (hbatch : h.batch = none) (hbefore : entry.before = d.template)
    (hafter : entry.after = d'.template)
    (hreplays : Edit.applyAll entry.edits entry.before = .ok entry.after) :
    Faithful (h.push entry) d' where
  linked := by
    rw [base_of_none (h := h.push entry) hbatch, ← hafter]
    exact (hf.linked_of_none hbatch).push hbefore
  replays other hother := by
    rcases entries_push hother with rfl | hold
    · exact hreplays
    · exact hf.replays other hold
  current other hother := absurd (hbatch.symm.trans hother) nofun
  gathers _ := hbatch

/-- Without its batch a history belongs to the document at the `base`, from which the batch
started. -/
theorem closed (hf : Faithful h d) : Faithful h.closed { d with template := h.base d } :=
  hf.of_entries hf.linked (fun _ => entries_batchless) rfl

/-- The step lemma: every `Move` keeps this, if the steps that `interrupts` names happen only while
no edit is gathered. -/
theorem move (hf : Faithful h d) {step : Step} (hstep : step.interrupts = true → h.batch = none)
    (hmove : Move h d step h' d') : Faithful h' d' := by
  cases hmove with
  | refused | nothingToUndo | nothingToRedo | ignored => exact hf
  | recorded hedit hbatching =>
    have hbatch := hf.gathers hbatching
    exact hf.push hbatch rfl rfl (Edit.applyAll_single hedit)
  | opened hedit hbatching hbatch =>
    refine hf.of_batch ?_ rfl ?_ hbatching _
    · exact (base_of_none hbatch d).symm
    · exact Edit.applyAll_single hedit
  | @joined e edited entry hedit hbatching hbatch =>
    have hentry : entry ∈ h.entries := mem_entries.mpr (.inr (.inr hbatch))
    -- The batch ends at the document's template, so its edits go on with this one.
    rw [← hf.current entry hbatch] at hedit
    refine hf.of_batch ?_ rfl ?_ hbatching _
    · exact (base_of_some hbatch d).symm
    · exact Edit.applyAll_concat (hf.replays entry hentry) hedit
  | @undone entry rest hundos =>
    have hbatch := hstep rfl
    have hlinked := hf.linked_of_none hbatch
    rw [hundos] at hlinked
    refine hf.of_entries hlinked.undone (fun other hother => ?_) hbatch
    rw [mem_entries] at hother ⊢
    grind
  | @redone entry rest hredos =>
    have hbatch := hstep rfl
    have hlinked := hf.linked_of_none hbatch
    rw [hredos] at hlinked
    refine hf.of_entries hlinked.redone (fun other hother => ?_) hbatch
    rw [mem_entries] at hother ⊢
    grind
  | begun => exact hf.of_entries (hf.linked_of_none (hstep rfl)) (fun _ => entries_batchless) rfl
  | dropped hbatch =>
    exact hf.of_entries (hf.linked_of_none hbatch) (fun _ => entries_batchless) rfl
  -- The batch starts where the line ends, and the document is where the batch ends.
  | pushed hbatch =>
    have hentry := mem_entries.mpr (.inr (.inr hbatch))
    exact hf.closed.push rfl (base_of_some hbatch d).symm (hf.current _ hbatch)
      (hf.replays _ hentry)
  | @renamed description entry hbatching hbatch =>
    have hentry : entry ∈ h.entries := mem_entries.mpr (.inr (.inr hbatch))
    refine hf.of_batch ?_ ?_ ?_ hbatching _
    · exact (base_of_some hbatch d).symm
    · exact hf.current entry hbatch
    · exact hf.replays entry hentry
  | announced _ hbatch =>
    exact hf.of_entries (hf.linked_of_none hbatch) (fun _ hother => hother) hbatch
  | cleared => exact hf.of_entries (.nil _) nofun rfl

/-- The run lemma.  The condition speaks of the batch at each step, so it is met `Throughout`. -/
theorem run {limit : Nat} {d : Document} {steps : List Step}
    (hsteps : Throughout (fun h _ step => step.interrupts = true → h.batch = none)
      (.fresh limit) d steps) :
    Faithful ((History.fresh limit).run d steps).1 ((History.fresh limit).run d steps).2 :=
  run_keeps (fun hf hstep hmove => hf.move hstep hmove) steps (.fresh limit d) hsteps

end Faithful

/-! ## Redoing after a newer edit -/

/-- An edit in a batch leaves what can be redone, and redoing that discards the edit. -/
theorem redo_amid :
    let d := Document.ofContents []
    let type (s : String) := Step.apply (.insertText ⟨"/0-text"⟩ 0 s)
    let s := (fresh usualLimit).run d [type "a", .undo, .beginBatch, type "b"]
    (s.1.redo s.2).1 = true ∧ (∃ entry ∈ s.1.redos.head?, s.2.template ≠ entry.before) ∧
      s.2.template.contents = [.text "b"] ∧ (s.1.redo s.2).2.2.template.contents = [.text "a"] := by
  decide +kernel

/-- As long as undoing, redoing and beginning a batch leave alone a batch that has gathered an edit:
when something is redone, the document is where the entry starts, exactly if the batch under way, if
there is one, has come to nothing. -/
theorem redo_starts {limit : Nat} {d : Document} {steps : List Step}
    (hsteps : Throughout (fun h _ step => step.interrupts = true → h.batch = none)
      (fresh limit) d steps) :
    let s := (fresh limit).run d steps
    (s.1.redo s.2).1 = true →
      ∃ entry rest, s.1.redos = entry :: rest ∧ (s.1.redo s.2).2.2.template = entry.after ∧
        (s.2.template = entry.before ↔ ∀ batch ∈ s.1.batch, batch.after = batch.before) := by
  intro s hdid
  have hf : Faithful s.1 s.2 := .run hsteps
  rcases hredo : s.1.redo s.2 with ⟨did, h', d'⟩
  rw [hredo] at hdid
  obtain rfl : did = true := hdid
  obtain ⟨entry, rest, hredos, -, rfl⟩ := redo_eq_true hredo
  refine ⟨entry, rest, hredos, rfl, ?_⟩
  -- What would be redone starts where the batch did, and the batch ends at the document.
  have hforth : LeadOn s.1.redos (s.1.base s.2) := hf.linked.forth
  rw [hredos] at hforth
  rw [hforth.1]
  cases hbatch : s.1.batch with
  | none =>
    rw [base_of_none hbatch]
    exact ⟨fun _ => nofun, fun _ => rfl⟩
  | some batch =>
    rw [base_of_some hbatch, ← hf.current batch hbatch]
    constructor
    · rintro heq _ ⟨⟩
      exact heq
    · exact fun hall => hall batch rfl

/-- After the oldest entry has been forgotten and a batch was ended, what was undone is
redone while a new batch is still without an edit. -/
theorem redo_starts_batch :
    let d := Document.ofContents [.text "x"]
    let type (s : String) := Step.apply (.insertText ⟨"/0-text"⟩ 0 s)
    let steps := [type "a", .beginBatch, type "b", type "c", .endBatch, type "d", .undo, .undo,
      .redo, .beginBatch]
    let s := (fresh 2).run d steps
    Throughout (fun h _ step => step.interrupts = true → h.batch = none) (fresh 2) d steps ∧
      s.1.batching = true ∧ (s.1.redo s.2).1 = true ∧
      ∃ entry rest, s.1.redos = entry :: rest ∧ s.2.template = entry.before ∧
        (s.1.redo s.2).2.2.template = entry.after := by
  intro d type steps s
  have hsteps : Throughout (fun h _ step => step.interrupts = true → h.batch = none)
      (fresh 2) d steps := by
    decide +kernel
  have hdid : (s.1.redo s.2).1 = true := by decide +kernel
  have hbatch : s.1.batch = none := by decide +kernel
  obtain ⟨entry, rest, hredos, hafter, hstarts⟩ := redo_starts hsteps hdid
  refine ⟨hsteps, by decide +kernel, hdid, entry, rest, hredos, hstarts.mpr ?_, hafter⟩
  rw [hbatch]
  exact nofun

/-! ## Runs in which batches are left alone -/

/-- As long as undoing, redoing and beginning a batch wait for the batch under way to end: whenever
none is under way, the entries are `Linked` at the document's template, the edits of every entry
lead from its start to its end, and undoing some entries and redoing as many changes nothing but the
version. -/
theorem linked_run {limit : Nat} {d : Document} {steps : List Step}
    (hsteps : Throughout (fun h _ step => step.interrupts = true → h.batching = false)
      (fresh limit) d steps) :
    let s := (fresh limit).run d steps
    s.1.batching = false →
      Linked s.1.undos s.1.redos s.2.template ∧
      (∀ entry ∈ s.1.undos ++ s.1.redos,
        Edit.applyAll entry.edits entry.before = .ok entry.after) ∧
      ∀ k ≤ s.1.undoLevels,
        let s' := s.1.run s.2 (List.replicate k .undo ++ List.replicate k .redo)
        s'.1 = s.1 ∧ s'.2.template = s.2.template := by
  intro s hbatching
  have hf : Faithful s.1 s.2 :=
    -- Where no batch is under way no edit is gathered (`gathers`).
    run_keeps (fun hf hstep hmove => hf.move (fun h => hf.gathers (hstep h)) hmove) steps
      (.fresh limit d) hsteps
  have hlinked := hf.linked_of_none (hf.gathers hbatching)
  refine ⟨hlinked, fun entry hentry => ?_, fun k hk => hlinked.undo_redo k hk⟩
  rw [List.mem_append] at hentry
  exact hf.replays entry (mem_entries.mpr (hentry.imp id .inl))

/-- The oldest entry has been forgotten, a batch had an edit that did not apply, and one of
the two entries left has been undone. -/
theorem linked_run_forgetful :
    let d := Document.ofContents [.text "x", .conditional [] [] []]
    let type (s : String) := Step.apply (.insertText ⟨"/0-text"⟩ 0 s)
    let delete (a : String) := Step.apply (.deleteConditional ⟨a⟩)
    let steps := [type "a", type "b", .beginBatch, .describe "both", type "c", delete "/0-text",
      delete "/1-if", .endBatch, .undo]
    let s := (fresh 2).run d steps
    Throughout (fun h _ step => step.interrupts = true → h.batching = false) (fresh 2) d steps ∧
      s.1.batching = false ∧ s.1.undoLevels = 1 ∧ s.1.redoLevels = 1 ∧
      Linked s.1.undos s.1.redos s.2.template ∧
      (s.1.run s.2 [.undo, .redo]).1 = s.1 := by
  intro d type delete steps s
  have hsteps : Throughout (fun h _ step => step.interrupts = true → h.batching = false)
      (fresh 2) d steps := by
    decide +kernel
  obtain ⟨hlinked, -, hback⟩ := linked_run hsteps (by decide +kernel)
  have hlevels : s.1.undoLevels = 1 := by decide +kernel
  exact ⟨hsteps, by decide +kernel, hlevels, by decide +kernel, hlinked,
    (hback 1 (Nat.le_of_eq hlevels.symm)).1⟩

end History

end MessageTemplate
