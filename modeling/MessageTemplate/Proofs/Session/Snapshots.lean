/-
The templates that a session holds.

Besides the template of its document a session holds a snapshot before and after every entry that
can be undone or redone, and of the batch under way: `History.templates`.  Undoing, redoing and
batches only move these templates around.  The one source of new ones is an edit of the document's
present template, or a template that is put in its place from outside.

What a step can do is said once, by `History.Move`, so there are three questions to ask of a move,
each answered case by case: where the document's template comes from (`Move.document`), where the
snapshots of an entry come from (`Move.entry`), and from these two where any template comes from
(`Move.held`).  So what holds of every template handed in, and is kept by every edit, holds of every
template that a session ever holds, in whatever order its operations come.  In
`Proofs.Session.Reachable` this is used of well-formedness.
-/
import MessageTemplate.Disk.Basic
import MessageTemplate.Proofs.Edit.Effect
import MessageTemplate.Proofs.Session.Moves
import MessageTemplate.Session.Basic

set_option autoImplicit false

namespace MessageTemplate

/-! ## Documents -/

/-- A template is what some `Edit` makes of the document's template. -/
def Document.Makes (d : Document) (t : Template) : Prop :=
  ∃ e edited, Edit.apply e d.template = .ok edited ∧ t = edited.template

/-- `Document.apply` leaves the template that was there or one that the edit makes of it. -/
theorem Document.template_apply (d : Document) (e : Edit) :
    (d.apply e).2.template = d.template ∨ d.Makes (d.apply e).2.template := by
  rw [Document.apply]
  cases he : e.apply d.template with
  | error cause => exact .inl rfl
  | ok edited => exact .inr ⟨e, edited, he, rfl⟩

/-- `Document.applyAt` does no more: at another version it leaves everything, at this one it is
`apply`. -/
theorem Document.template_applyAt (d : Document) (version : Nat) (e : Edit) :
    (d.applyAt version e).2.template = d.template ∨ d.Makes (d.applyAt version e).2.template := by
  rw [Document.applyAt]
  by_cases hv : version = d.version
  · rw [if_pos hv]
    exact d.template_apply e
  · rw [if_neg hv]
    exact .inl rfl

/-! ## Histories -/

namespace History

/-- Every entry of a `History`, the batch under way among them. -/
def entries (h : History) : List Entry :=
  h.undos ++ h.redos ++ h.batch.toList

/-- The templates that a `History` and its document hold: the present one, and two for each of the
`entries`. -/
def templates (h : History) (d : Document) : List Template :=
  d.template :: h.entries.flatMap fun entry => [entry.before, entry.after]

/-- An entry is found in one of three places: `undos`, `redos` or `batch`. -/
theorem mem_entries {h : History} {entry : Entry} :
    entry ∈ h.entries ↔ entry ∈ h.undos ∨ entry ∈ h.redos ∨ h.batch = some entry := by
  rw [entries, List.mem_append, List.mem_append, Option.mem_toList, or_assoc]

/-- A template is held as the document's own or as one of the two snapshots, `before` and `after`,
of an entry. -/
theorem mem_templates {h : History} {d : Document} {t : Template} :
    t ∈ h.templates d ↔
      t = d.template ∨ ∃ entry ∈ h.entries, t = entry.before ∨ t = entry.after := by
  rw [templates, List.mem_cons, List.mem_flatMap]
  simp only [List.mem_cons, List.not_mem_nil, or_false]

/-- A state whose `entries` are among those of another holds no template, but for its document's,
that the other does not hold. -/
theorem mem_templates_of_entries {h h' : History} {d d' : Document} {t : Template}
    (hsub : ∀ entry ∈ h'.entries, entry ∈ h.entries) (ht : t ∈ h'.templates d') :
    t = d'.template ∨ t ∈ h.templates d := by
  rcases mem_templates.mp ht with heq | ⟨entry, hentry, heq⟩
  · exact .inl heq
  · exact .inr (mem_templates.mpr (.inr ⟨entry, hsub entry hentry, heq⟩))

/-- `push` adds its entry and may forget the oldest ones, but brings in no other.  It forgets all
that could be redone, so there is nothing to say about `redos`. -/
theorem entries_push {h : History} {entry new : Entry} (hentry : entry ∈ (h.push new).entries) :
    entry = new ∨ entry ∈ h.entries := by
  rw [mem_entries, push] at hentry
  rcases hentry with hundos | hredos | hbatch
  · have hmem : entry ∈ new :: h.undos := by
      dsimp only at hundos
      -- Whether the `limit` has been reached decides only if the last of the list is dropped.
      split at hundos
      · exact (List.dropLast_sublist _).subset hundos
      · exact hundos
    rcases List.mem_cons.mp hmem with rfl | hold
    · exact .inl rfl
    · exact .inr (mem_entries.mpr (.inl hold))
  · exact absurd hredos List.not_mem_nil
  · exact .inr (mem_entries.mpr (.inr (.inr hbatch)))

theorem snapshots_held {h : History} {entry : Entry} (hentry : entry ∈ h.entries) (d : Document) :
    entry.before ∈ h.templates d ∧ entry.after ∈ h.templates d :=
  ⟨mem_templates.mpr (.inr ⟨entry, hentry, .inl rfl⟩),
    mem_templates.mpr (.inr ⟨entry, hentry, .inr rfl⟩)⟩

/-- A history whose `batch` is another one has the entries that it had, and that batch. -/
theorem entries_batch {h : History} {entry new : Entry} {pending : Option String}
    (hentry : entry ∈ ({ h with batch := some new, pending } : History).entries) :
    entry = new ∨ entry ∈ h.entries := by
  rcases mem_entries.mp hentry with hundos | hredos | hbatch
  · exact .inr (mem_entries.mpr (.inl hundos))
  · exact .inr (mem_entries.mpr (.inr (.inl hredos)))
  · exact .inl (Option.some.inj hbatch).symm

/-- A history without its `batch` has none but the entries that it had, be it that the next batch
starts or that this one ends. -/
theorem entries_batchless {h : History} {entry : Entry} {batching : Bool} {pending : Option String}
    (hentry : entry ∈ ({ h with batching, batch := none, pending } : History).entries) :
    entry ∈ h.entries := by
  rcases mem_entries.mp hentry with hundos | hredos | hbatch
  · exact mem_entries.mpr (.inl hundos)
  · exact mem_entries.mpr (.inr (.inl hredos))
  · exact absurd hbatch nofun

/-! ## What a move leaves -/

section

variable {h h' : History} {d d' : Document} {step : Step}

/-- The template that a move gives the document is one that was held, as undoing and redoing put
back a snapshot, or it is what an edit makes of the template that was there (`Document.Makes`). -/
theorem Move.document (hmove : Move h d step h' d') :
    d'.template ∈ h.templates d ∨ d.Makes d'.template := by
  cases hmove with
  | recorded hedit | opened hedit | joined hedit => exact .inr ⟨_, _, hedit, rfl⟩
  | @undone entry rest hundos =>
    have hentry : entry ∈ h.entries := mem_entries.mpr (.inl (hundos ▸ List.mem_cons_self))
    exact .inl (snapshots_held hentry d).1
  | @redone entry rest hredos =>
    have hentry : entry ∈ h.entries := mem_entries.mpr (.inr (.inl (hredos ▸ List.mem_cons_self)))
    exact .inl (snapshots_held hentry d).2
  | _ => exact .inl (mem_templates.mpr (.inl rfl))

/-- Every entry that a `Move` leaves starts at a template that was held, and it ends at one that was
held or at the one that the document now has.  Only an edit makes an entry or lengthens one, and
then the entry ends at the edited template. -/
theorem Move.entry (hmove : Move h d step h' d') {entry : Entry} (hentry : entry ∈ h'.entries) :
    entry.before ∈ h.templates d ∧
      (entry.after ∈ h.templates d ∨ entry.after = d'.template) := by
  -- An edit starts from the template of the document, which is held.
  have hnow : d.template ∈ h.templates d := mem_templates.mpr (.inl rfl)
  have hold : entry ∈ h.entries → entry.before ∈ h.templates d ∧
      (entry.after ∈ h.templates d ∨ entry.after = d'.template) := fun hold =>
    ⟨(snapshots_held hold d).1, .inl (snapshots_held hold d).2⟩
  cases hmove with
  | refused | nothingToUndo | nothingToRedo | announced | ignored => exact hold hentry
  | recorded hedit =>
    rcases entries_push hentry with rfl | hmem
    · exact ⟨hnow, .inr rfl⟩
    · exact hold hmem
  | opened hedit =>
    rcases entries_batch hentry with rfl | hmem
    · exact ⟨hnow, .inr rfl⟩
    · exact hold hmem
  | joined hedit hbatching hbatch =>
    rcases entries_batch hentry with rfl | hmem
    · exact ⟨(snapshots_held (mem_entries.mpr (.inr (.inr hbatch))) d).1, .inr rfl⟩
    · exact hold hmem
  | undone hundos =>
    refine hold ?_
    rw [mem_entries] at hentry ⊢
    grind
  | redone hredos =>
    refine hold ?_
    rw [mem_entries] at hentry ⊢
    grind
  | begun | dropped => exact hold (entries_batchless hentry)
  | pushed hbatch =>
    rcases entries_push hentry with rfl | hmem
    · exact hold (mem_entries.mpr (.inr (.inr hbatch)))
    · exact hold (entries_batchless hmem)
  -- The description of a batch is none of its snapshots.
  | renamed hbatching hbatch =>
    rcases entries_batch hentry with rfl | hmem
    · obtain ⟨hbefore, hafter⟩ := snapshots_held (mem_entries.mpr (.inr (.inr hbatch))) d
      exact ⟨hbefore, .inl hafter⟩
    · exact hold hmem
  | cleared => exact absurd hentry List.not_mem_nil

/-- A `Move` brings no new template but by an edit. -/
theorem Move.held (hmove : Move h d step h' d') {t : Template} (ht : t ∈ h'.templates d') :
    t ∈ h.templates d ∨ d.Makes t := by
  rcases mem_templates.mp ht with rfl | ⟨entry, hentry, rfl | rfl⟩
  · exact hmove.document
  · exact .inl (hmove.entry hentry).1
  · rcases (hmove.entry hentry).2 with hold | heq
    · exact .inl hold
    · rw [heq]
      exact hmove.document

end

end History

end MessageTemplate
