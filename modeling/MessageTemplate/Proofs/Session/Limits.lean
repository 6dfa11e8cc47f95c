/-
What the bound of a history forgets.

A history with a bound is compared with one that has none and goes through the same steps.  The
second is the first with older entries behind its own (`extended`), and this is all of the
difference: by `perform_extended` a step does the same to both, and where the first one has to
forget its oldest entry, that entry is counted among the older ones.  The two part only when the
first has nothing left to undo and the second has, which `KeepsUp` excludes.

That there are never more entries than the bound allows is not seen from recording alone, since
redoing adds an entry as well and looks at no bound.  It is a matter of both stacks, and so `Within`
counts both: an entry that is redone has been counted among the others all the time.
-/
import MessageTemplate.Proofs.Session.Moves

set_option autoImplicit false

namespace MessageTemplate

namespace History

/-! ## Making room -/

/-- `push` where there is room, or no limit at all: the entry is put on top of `undos`. -/
theorem push_of_room {h : History} {entry : Entry}
    (hroom : ¬ (0 < h.limit ∧ h.limit < (entry :: h.undos).length)) :
    h.push entry = { h with undos := entry :: h.undos, redos := [] } := by
  rw [push]
  simp only [if_neg hroom]

/-- `push` where the stack is full: the entry is put on top, and the oldest one is forgotten for
it. -/
theorem push_of_full {h : History} {entry : Entry}
    (hfull : 0 < h.limit ∧ h.limit < (entry :: h.undos).length) :
    h.push entry = { h with undos := (entry :: h.undos).dropLast, redos := [] } := by
  rw [push]
  simp only [if_pos hfull]

/-! ## The number of entries -/

/-- The history has a bound, its `limit`, and no more entries on its two stacks than that. -/
structure Within (limit : Nat) (h : History) : Prop where
  bound : h.limit = limit
  levels : h.undos.length + h.redos.length ≤ limit

namespace Within

variable {limit : Nat} {h h' : History} {d d' : Document}

/-- The step that could break the bound.  `History.push` makes room for its entry, and nothing can
be redone afterwards, so one stack is empty and the other no longer than the limit. -/
theorem push (hlimit : 0 < limit) (hw : Within limit h) (entry : Entry) :
    Within limit (h.push entry) := by
  obtain ⟨hbound, hlevels⟩ := hw
  by_cases hfull : 0 < h.limit ∧ h.limit < (entry :: h.undos).length
  · rw [push_of_full hfull]
    refine ⟨hbound, ?_⟩
    show (entry :: h.undos).dropLast.length + 0 ≤ limit
    rw [List.length_dropLast, List.length_cons]
    omega
  · rw [push_of_room hfull]
    refine ⟨hbound, ?_⟩
    show (entry :: h.undos).length + 0 ≤ limit
    omega

/-- Every `Move` keeps the number of entries within the bound.  Undoing and redoing move an entry
from one stack to the other. -/
theorem move (hlimit : 0 < limit) (hw : Within limit h) {step : Step}
    (hmove : Move h d step h' d') : Within limit h' := by
  cases hmove with
  | recorded => exact hw.push hlimit _
  | @pushed entry _ =>
    have hclosed : Within limit h.closed := ⟨hw.bound, hw.levels⟩
    exact hclosed.push hlimit entry
  | @undone entry rest hundos =>
    have hlevels := hw.levels
    rw [hundos, List.length_cons] at hlevels
    refine ⟨hw.bound, ?_⟩
    show rest.length + (entry :: h.redos).length ≤ limit
    rw [List.length_cons]
    omega
  | @redone entry rest hredos =>
    have hlevels := hw.levels
    rw [hredos, List.length_cons] at hlevels
    refine ⟨hw.bound, ?_⟩
    show (entry :: h.undos).length + rest.length ≤ limit
    rw [List.length_cons]
    omega
  | cleared => exact ⟨hw.bound, Nat.zero_le limit⟩
  -- All other moves leave the stacks as they are.
  | refused | opened | joined | nothingToUndo | nothingToRedo | begun | dropped | renamed
  | announced | ignored => exact ⟨hw.bound, hw.levels⟩

/-- The run lemma for `Within`.  The steps need no condition, so the one that is asked for
`Throughout` is `True`. -/
theorem run (hlimit : 0 < limit) (d : Document) (steps : List Step) :
    Within limit ((fresh limit).run d steps).1 := by
  have hall : ∀ (h : History) (d : Document), Throughout (fun _ _ _ => True) h d steps := by
    induction steps with
    | nil => exact fun _ _ => trivial
    | cons step rest ih => exact fun h d => ⟨trivial, ih _ _⟩
  exact run_keeps (P := fun h _ => Within limit h) (fun hw _ hmove => hw.move hlimit hmove) steps
    ⟨rfl, Nat.zero_le limit⟩ (hall _ _)

end Within

/-! ## Older entries behind -/

/-- The history without its `limit` and with older entries behind its own. -/
def extended (h : History) (older : List Entry) : History :=
  { h with undos := h.undos ++ older, limit := 0 }

/-- An entry is added to both by `push`.  The one that the bound pushes out of the first is the
newest of the older ones in the second. -/
theorem push_extended (h : History) (older : List Entry) (entry : Entry) :
    ∃ older', (h.extended older).push entry = (h.push entry).extended older' := by
  have hroom : ¬ (0 < (h.extended older).limit ∧
      (h.extended older).limit < (entry :: (h.extended older).undos).length) :=
    fun hfull => Nat.lt_irrefl 0 hfull.1
  rw [push_of_room hroom]
  by_cases hfull : 0 < h.limit ∧ h.limit < (entry :: h.undos).length
  · obtain ⟨kept, oldest, hkept⟩ : ∃ kept oldest, entry :: h.undos = kept ++ [oldest] :=
      -- The stack with the new entry is not empty, so it has an oldest entry.
      ⟨_, _, (List.dropLast_concat_getLast (List.cons_ne_nil entry h.undos)).symm⟩
    refine ⟨oldest :: older, ?_⟩
    rw [push_of_full hfull, hkept, List.dropLast_concat]
    simp only [extended, ← List.cons_append, hkept, List.append_assoc, List.singleton_append]
  · rw [push_of_room hfull]
    exact ⟨older, rfl⟩

/-- Recording does the same to both.  Outside of a batch this is `push_extended`; in a batch no
stack is touched. -/
theorem record_extended (h : History) (older : List Entry) (e : Edit) (before after : Template) :
    ∃ older', (h.extended older).record e before after =
      (h.record e before after).extended older' := by
  by_cases hbatching : h.batching = true
  · -- A batch gathers the edit, and the stacks are left alone.
    obtain ⟨undos, redos, limit, _, batch, pending⟩ := h
    obtain rfl := hbatching
    rcases batch with _ | entry
    · exact ⟨older, rfl⟩
    · exact ⟨older, rfl⟩
  · have hextended : ¬ (h.extended older).batching = true := hbatching
    rw [record, record, if_neg hbatching, if_neg hextended]
    exact h.push_extended older _

/-- `perform` does the same to both histories and to their document, and gives the same answer,
unless it undoes and the bounded one has nothing left.  The state is taken apart in each case, so
that both sides compute. -/
theorem perform_extended (h : History) (older : List Entry) (d : Document) (step : Step)
    (hstep : step = .undo → h.undos = [] → older = []) :
    ∃ older', (h.extended older).perform d step =
      ((h.perform d step).1, (h.perform d step).2.1.extended older', (h.perform d step).2.2) := by
  cases step with
  | apply e =>
    rw [perform, perform, apply, apply]
    rcases d.apply e with ⟨cause | change, edited⟩
    · exact ⟨older, rfl⟩
    · obtain ⟨older', hrecord⟩ := h.record_extended older e d.template edited.template
      refine ⟨older', ?_⟩
      dsimp only
      rw [hrecord]
  | undo =>
    obtain ⟨undos, redos, limit, batching, batch, pending⟩ := h
    rcases undos with _ | ⟨entry, rest⟩
    -- Where the bounded history has nothing left, the other one must not have anything either.
    · obtain rfl := hstep rfl rfl
      exact ⟨[], rfl⟩
    · exact ⟨older, rfl⟩
  | redo =>
    obtain ⟨undos, redos, limit, batching, batch, pending⟩ := h
    rcases redos with _ | ⟨entry, rest⟩
    · exact ⟨older, rfl⟩
    · exact ⟨older, rfl⟩
  | beginBatch => exact ⟨older, rfl⟩
  | endBatch =>
    obtain ⟨undos, redos, limit, batching, batch, pending⟩ := h
    rcases batch with _ | entry
    · exact ⟨older, rfl⟩
    · -- The entry of the batch is added when the batch has been closed.
      obtain ⟨older', hpush⟩ :=
        push_extended ⟨undos, redos, limit, false, none, none⟩ older entry
      refine ⟨older', ?_⟩
      exact congrArg (fun h => (Answer.done, h, d)) hpush
  | describe description =>
    obtain ⟨undos, redos, limit, batching, batch, pending⟩ := h
    rcases batching with _ | _
    · exact ⟨older, rfl⟩
    · rcases batch with _ | entry
      · exact ⟨older, rfl⟩
      · exact ⟨older, rfl⟩
  -- Clearing forgets the older entries as well.
  | clear => exact ⟨[], rfl⟩

/-! ## Runs -/

/-- A history with a `limit` and its document, when the first `k` steps of a run have been taken.
Past the end of the run nothing happens any more. -/
def stateAt (limit : Nat) (d : Document) (steps : List Step) (k : Nat) : History × Document :=
  (fresh limit).run d (steps.take k)

/-- What `undo` answers in a state. -/
def canUndo (s : History × Document) : Bool :=
  (s.1.undo s.2).1

/-- Among the first `k` steps of a run there is none that undoes something without a bound and
nothing with it.  Both histories are asked in their own state, so the condition can be decided for a
given run. -/
def KeepsUp (limit : Nat) (d : Document) (steps : List Step) (k : Nat) : Prop :=
  ∀ j < k, steps[j]? = some .undo →
    canUndo (stateAt 0 d steps j) = true → canUndo (stateAt limit d steps j) = true

instance (limit : Nat) (d : Document) (steps : List Step) (k : Nat) :
    Decidable (KeepsUp limit d steps k) :=
  inferInstanceAs (Decidable (∀ j < k, _))

/-- Something can be undone if and only if `undos` has an entry. -/
theorem canUndo_iff {s : History × Document} : canUndo s = true ↔ s.1.undos ≠ [] := by
  rw [canUndo, undo]
  rcases s.1.undos with _ | ⟨entry, rest⟩
  · exact iff_of_false Bool.false_ne_true fun h => h rfl
  · exact iff_of_true rfl (List.cons_ne_nil entry rest)

theorem stateAt_succ {limit : Nat} {d : Document} {steps : List Step} {k : Nat} {step : Step}
    (hstep : steps[k]? = some step) :
    stateAt limit d steps (k + 1) =
      ((stateAt limit d steps k).1.perform (stateAt limit d steps k).2 step).2 := by
  rw [stateAt, List.take_add_one, hstep, Option.toList_some, run_append]
  rfl

/-- The run lemma: a run does the same to both, as long as the bounded history `KeepsUp`.  The
induction is on the number of steps taken, and the older entries of each state are those of the one
before, or one more. -/
theorem stateAt_extended {limit : Nat} {d : Document} {steps : List Step} (k : Nat) :
    KeepsUp limit d steps k → ∃ older,
      stateAt 0 d steps k =
        ((stateAt limit d steps k).1.extended older, (stateAt limit d steps k).2) := by
  induction k with
  | zero => exact fun _ => ⟨[], rfl⟩
  | succ k ih =>
    intro hkeeps
    obtain ⟨older, hsame⟩ := ih fun j hj => hkeeps j (Nat.lt_succ_of_lt hj)
    rcases hnext : steps[k]? with _ | step
    · -- All steps have been taken before.
      have hlength := List.getElem?_eq_none_iff.mp hnext
      have htake : steps.take (k + 1) = steps.take k := by
        rw [List.take_of_length_le hlength, List.take_of_length_le (Nat.le_succ_of_le hlength)]
      rw [stateAt, stateAt, htake]
      exact ⟨older, hsame⟩
    · have hundo : step = .undo → (stateAt limit d steps k).1.undos = [] → older = [] := by
        rintro rfl hundos
        have hcan := hkeeps k (Nat.lt_succ_self k) hnext
        rw [canUndo_iff, canUndo_iff, hsame] at hcan
        -- Nothing can be undone with the bound, so nothing can without it either.
        refine Decidable.byContradiction fun holder => hcan ?_ hundos
        show (stateAt limit d steps k).1.undos ++ older ≠ []
        rw [hundos, List.nil_append]
        exact holder
      obtain ⟨older', hperform⟩ := perform_extended _ older (stateAt limit d steps k).2 step hundo
      refine ⟨older', ?_⟩
      rw [stateAt_succ hnext, stateAt_succ hnext, hsame]
      dsimp only
      rw [hperform]

/-- A bound only forgets the oldest entries.  There are never more entries on the two stacks than
the bound allows.  Compared with a history without bound that goes through the same steps: as long
as no step has undone something there and nothing here (`KeepsUp`), the documents are the same, what
can be redone and the batch under way are the same, and what can be undone are the most recent
entries of the other. -/
theorem limit_forgets_oldest {limit : Nat} (hlimit : 0 < limit) (d : Document)
    (steps : List Step) :
    (∀ k, (stateAt limit d steps k).1.undoLevels + (stateAt limit d steps k).1.redoLevels ≤
      limit) ∧
    ∀ k, KeepsUp limit d steps k →
      let bounded := stateAt limit d steps k
      let unlimited := stateAt 0 d steps k
      bounded.2 = unlimited.2 ∧ bounded.1.redos = unlimited.1.redos ∧
        bounded.1.batching = unlimited.1.batching ∧ bounded.1.batch = unlimited.1.batch ∧
        bounded.1.pending = unlimited.1.pending ∧
        bounded.1.undos = unlimited.1.undos.take bounded.1.undoLevels := by
  refine ⟨fun k => (Within.run hlimit d (steps.take k)).levels, fun k hkeeps => ?_⟩
  obtain ⟨older, hsame⟩ := stateAt_extended k hkeeps
  dsimp only
  rw [hsame]
  exact ⟨rfl, rfl, rfl, rfl, rfl, List.take_left.symm⟩

/-- The oldest of three entries is forgotten, an edit in a batch is undone under, and a redone
entry takes the place that it had before.  The step after that would part the two. -/
theorem limit_forgets_oldest_redone :
    let d := Document.ofContents [.text "x"]
    let type (s : String) := Step.apply (.insertText ⟨"/0-text"⟩ 0 s)
    let steps := [type "a", type "b", type "c", .undo, .beginBatch, type "d", .redo, .undo, .undo,
      .undo]
    0 < 2 ∧ KeepsUp 2 d steps 9 ∧ ¬ KeepsUp 2 d steps 10 ∧
      (stateAt 2 d steps 9).1.undoLevels = 0 ∧ (stateAt 0 d steps 9).1.undoLevels = 1 ∧
      (stateAt 2 d steps 9).1.redoLevels ≤ 2 ∧
      (stateAt 2 d steps 9).2 = (stateAt 0 d steps 9).2 ∧
      (stateAt 2 d steps 9).1.redos = (stateAt 0 d steps 9).1.redos := by
  intro d type steps
  have hkeeps : KeepsUp 2 d steps 9 := by decide +kernel
  obtain ⟨hlevels, hsame⟩ := limit_forgets_oldest Nat.zero_lt_two d steps
  obtain ⟨hdocument, hredos, -⟩ := hsame 9 hkeeps
  have hnine := hlevels 9
  exact ⟨Nat.zero_lt_two, hkeeps, by decide +kernel, by decide +kernel, by decide +kernel,
    by omega, hdocument, hredos⟩

end History

end MessageTemplate
