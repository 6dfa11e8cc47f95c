/-
What fails changes nothing.

An operation of a session goes through three layers: the session hands an edit to its history, the
history to the document, and the document puts another template in place of the present one.  Each
layer gives back what it leaves, whether it has succeeded or not, and the layer above goes on with
that.  So that a failure leaves everything alone (`Atomic`) is a fact about each layer that rests on
the one below: the lowest that fails gives back what it was given, and nobody above has done
anything before it is asked.

A run in which operations fail therefore comes to the same as the run without them
(`Session.exists_accepted`).
-/
import MessageTemplate.Proofs.Session.Versions
import MessageTemplate.Session.Basic

set_option autoImplicit false

namespace MessageTemplate

/-- An operation that fails, with any `cause`, leaves the state as it was. -/
def Atomic {ε α σ : Type} (op : σ → Except ε α × σ) : Prop :=
  ∀ (s : σ) (cause : ε), (op s).1 = .error cause → (op s).2 = s

/-- The form in which a layer uses `Atomic` of the layer below: the state that comes with an error
is the one that was handed down. -/
theorem Atomic.eq_of_eq {ε α σ : Type} {op : σ → Except ε α × σ} (h : Atomic op) {s s' : σ}
    {cause : ε} (hres : op s = (.error cause, s')) : s' = s := by
  have hkept := h s cause (congrArg Prod.fst hres)
  rwa [hres] at hkept

/-! ## Documents -/

namespace Document

/-- `Document.apply` replaces the template only when the edit has given one. -/
theorem atomic_apply (e : Edit) : Atomic fun d : Document => d.apply e := by
  intro d cause h
  dsimp only at h ⊢
  cases hedit : e.apply d.template with
  | error reason => rw [apply_refused hedit]
  | ok edited =>
    rw [apply_accepted hedit] at h
    exact absurd h.symm (Outcome.error_ne_ok _ _)

/-- An edit for another version is refused before it is looked at, and one for the present version
is `atomic_apply`. -/
theorem atomic_applyAt (version : Nat) (e : Edit) :
    Atomic fun d : Document => d.applyAt version e := by
  intro d cause h
  dsimp only at h ⊢
  by_cases hversion : version = d.version
  · subst hversion
    rw [applyAt_current] at h ⊢
    exact atomic_apply e d cause h
  · rw [applyAt_stale hversion]

section

variable {W : Type} [Files (StateM W)]

/-- `save` on a machine whose files are in any state.  The flag `dirty` is taken away only after the
file has been written. -/
theorem atomic_save (w : W) :
    Atomic fun d : Document =>
      ((d.save : StateM W (Except DocumentError Unit × Document)) w).1 := by
  intro d cause h
  dsimp only at h ⊢
  rcases d.save_cases w with ⟨w', hsave⟩ | ⟨reason, w', hsave⟩
  · rw [hsave] at h
    exact absurd h.symm (Outcome.error_ne_ok _ _)
  · rw [hsave]

/-- A document without a `path`, kept in no file, cannot be saved, and no file is looked at. -/
theorem save_of_path_eq_none {d : Document} (hpath : d.path = none) (w : W) :
    (d.save : StateM W (Except DocumentError Unit × Document)) w =
      ((.error .notFileBacked, d), w) := by
  unfold save
  rw [hpath]
  rfl

end

end Document

/-! ## Histories -/

/-- `History.apply` records the edit only when the document has accepted it; on a refusal it leaves
the batch under way and what could be redone. -/
theorem History.atomic_apply (e : Edit) :
    Atomic fun s : History × Document => s.1.apply e s.2 := by
  rintro ⟨h, d⟩ cause hanswer
  dsimp only at hanswer ⊢
  rw [apply] at hanswer ⊢
  -- `record` comes only when the document has accepted the edit.
  rcases hres : d.apply e with ⟨reason | change, d'⟩
  · have hd : d' = d := (Document.atomic_apply e).eq_of_eq hres
    rw [hd]
  · rw [hres] at hanswer
    exact absurd hanswer.symm (Outcome.error_ne_ok _ _)

/-! ## Sessions -/

namespace Session

/-- `Session.apply` moves the cursor only after the edit has been accepted. -/
theorem atomic_apply (e : Edit) : Atomic fun s : Session => s.apply e := by
  intro s cause hanswer
  dsimp only at hanswer ⊢
  rw [apply] at hanswer ⊢
  rcases hres : s.history.apply e s.document with ⟨reason | change, h, d⟩
  · have hkept : (h, d) = (s.history, s.document) :=
      (History.atomic_apply e).eq_of_eq (s := (s.history, s.document)) hres
    obtain ⟨rfl, rfl⟩ := Prod.mk.inj hkept
    rfl
  · rw [hres] at hanswer
    dsimp only at hanswer
    cases hfocus : change.focus with
    | some focus =>
      rw [hfocus] at hanswer
      exact absurd hanswer.symm (Outcome.error_ne_ok _ _)
    | none =>
      rw [hfocus] at hanswer
      exact absurd hanswer.symm (Outcome.error_ne_ok _ _)

/-- The edits at the cursor are meant for where the cursor is at the time, so `edit` is a function
of the session. -/
theorem atomic_apply_at {edit : Session → Edit} : Atomic fun s : Session => s.apply (edit s) :=
  fun s => atomic_apply (edit s) s

/-- `changeText` is one edit, and placing the cursor after it cannot fail. -/
theorem atomic_changeText (a : Address) (caret : Nat) (text : String) :
    Atomic fun s : Session => s.changeText a caret text := by
  intro s cause hanswer
  dsimp only at hanswer ⊢
  unfold changeText at hanswer ⊢
  -- The cursor is placed only after the text has been exchanged.
  rcases hres : s.apply (.replaceText a text) with ⟨reason | change, s'⟩
  · exact (atomic_apply (.replaceText a text)).eq_of_eq hres
  · rw [hres] at hanswer
    exact absurd hanswer.symm (Outcome.error_ne_ok _ _)

/-- `moveCursor` only looks at the template, so the cursor is all that could change, and it changes
only if the address leads to a text. -/
theorem atomic_moveCursor (a : Address) (caret : Nat) :
    Atomic fun s : Session => s.moveCursor a caret := by
  intro s cause hanswer
  dsimp only at hanswer ⊢
  rw [moveCursor] at hanswer ⊢
  cases hlength : textLength s.document.template a with
  | error reason => rfl
  | ok length =>
    rw [hlength] at hanswer
    exact absurd hanswer.symm (Outcome.error_ne_ok _ _)

/-! ## Runs -/

theorem eq_of_answerOf {r : Except DocumentError Change} {cause : DocumentError}
    (h : answerOf r = .refused cause) : r = .error cause := by
  cases r with
  | error reason => exact congrArg Except.error (History.Answer.refused.inj h)
  | ok change => exact absurd h nofun

/-- A `Step` that is refused leaves the session as it was.  Only the operations that can fail are
ever refused. -/
theorem perform_refused {s : Session} {step : Step} {cause : DocumentError}
    (h : (s.perform step).1 = .refused cause) : (s.perform step).2 = s := by
  have hedit : ∀ op : Session → Except DocumentError Change × Session, Atomic op →
      (answered answerOf (op s)).1 = .refused cause → (answered answerOf (op s)).2 = s :=
    fun op hop hrefused => hop s cause (eq_of_answerOf hrefused)
  cases step with
  | typeText text => exact hedit (fun s => s.typeText text) atomic_apply_at h
  | insertVariable name => exact hedit (fun s => s.insertVariable name) atomic_apply_at h
  | changeText a caret text => exact hedit _ (atomic_changeText a caret text) h
  | insertConditional => exact hedit insertConditional atomic_apply_at h
  | deleteConditional a => exact hedit _ (atomic_apply (.deleteConditional a)) h
  | moveCursor a caret =>
    rw [perform] at h ⊢
    rcases hres : s.moveCursor a caret with ⟨reason | _, s'⟩
    · exact (atomic_moveCursor a caret).eq_of_eq hres
    · rw [hres] at h
      exact absurd h nofun
  | undo | redo | beginBatch | endBatch | describe _ | clear => exact absurd h nofun

/-- Every `Step` of a run is accepted in the state in which it is taken. -/
def Accepts : Session → List Step → Prop
  | _, [] => True
  | s, step :: rest =>
    (∀ cause, (s.perform step).1 ≠ .refused cause) ∧ Accepts (s.perform step).2 rest

/-- The steps of a run that are not refused make the same `run`.  The induction is on the steps, for
all states at once. -/
theorem exists_accepted (steps : List Step) : ∀ s : Session,
    ∃ accepted, accepted.Sublist steps ∧ s.Accepts accepted ∧ s.run accepted = s.run steps := by
  induction steps with
  | nil => exact fun s => ⟨[], List.Sublist.refl [], trivial, rfl⟩
  | cons step rest ih =>
    intro s
    obtain ⟨accepted, hsub, haccepts, hrun⟩ := ih (s.perform step).2
    by_cases hrefused : ∃ cause, (s.perform step).1 = .refused cause
    · obtain ⟨cause, hcause⟩ := hrefused
      have hsame : (s.perform step).2 = s := perform_refused hcause
      rw [hsame] at haccepts hrun
      refine ⟨accepted, hsub.cons step, haccepts, ?_⟩
      rw [hrun, run, run, List.foldl_cons, hsame]
    · rw [not_exists] at hrefused
      exact ⟨step :: accepted, hsub.cons_cons step, ⟨hrefused, haccepts⟩, hrun⟩

end Session

/-! ## Every layer -/

/-- Whatever the state, an operation that fails leaves all of it as it was (`Atomic`): those of a
session leave its document, its history with the batch under way and what that is to be called, and
its cursor; applying an edit through a history leaves the history and the document; and applying it
to a document, in whatever version, leaves the document, as does saving on any machine.  A document
in memory cannot be saved at all, and then the files stay as they are too.  So every run of a
session comes to what the steps in it that are accepted come to. -/
theorem operations_atomic {W : Type} [Files (StateM W)] :
    (∀ text, Atomic fun s : Session => s.typeText text) ∧
    (∀ name, Atomic fun s : Session => s.insertVariable name) ∧
    (∀ a caret text, Atomic fun s : Session => s.changeText a caret text) ∧
    (Atomic fun s : Session => s.insertConditional) ∧
    (∀ a, Atomic fun s : Session => s.deleteConditional a) ∧
    (∀ a caret, Atomic fun s : Session => s.moveCursor a caret) ∧
    (∀ e, Atomic fun s : History × Document => s.1.apply e s.2) ∧
    (∀ e, Atomic fun d : Document => d.apply e) ∧
    (∀ version e, Atomic fun d : Document => d.applyAt version e) ∧
    (∀ w : W, Atomic fun d : Document =>
      ((d.save : StateM W (Except DocumentError Unit × Document)) w).1) ∧
    (∀ (d : Document) (w : W), d.path = none →
      (d.save : StateM W (Except DocumentError Unit × Document)) w =
        ((.error .notFileBacked, d), w)) ∧
    ∀ (s : Session) (steps : List Session.Step),
      ∃ accepted, accepted.Sublist steps ∧ s.Accepts accepted ∧ s.run accepted = s.run steps :=
  ⟨fun _ => Session.atomic_apply_at, fun _ => Session.atomic_apply_at, Session.atomic_changeText,
    Session.atomic_apply_at, fun a => Session.atomic_apply (.deleteConditional a),
    Session.atomic_moveCursor, History.atomic_apply, Document.atomic_apply,
    Document.atomic_applyAt, Document.atomic_save,
    fun _ w hpath => Document.save_of_path_eq_none hpath w,
    fun s steps => Session.exists_accepted steps s⟩

/-- In a batch with a description and no edit, a text is taken for a conditional; in the same
batch with its first edit, an address leads past the last node; an edit comes for a version
that there is not yet; and a document in memory is saved. -/
theorem operations_atomic_batch :
    let d := Document.ofContents [.text "a", .conditional [] [] []]
    let s := (Session.start "s" d []).run [.beginBatch, .describe "b"]
    let s' := s.run [.typeText "x"]
    let outside : AddressError := .outOfRange ⟨"/1-if-then/3-text"⟩ 3 1
    (s.history.pending = some "b" ∧
      (s.deleteConditional ⟨"/0-text"⟩).1 = .error (.edit (.notConditional ⟨"/0-text"⟩)) ∧
      (s.deleteConditional ⟨"/0-text"⟩).2 = s) ∧
    (s'.history.batch.isSome ∧
      (s'.changeText ⟨"/1-if-then/3-text"⟩ 0 "y").1 = .error (.edit (.unresolved outside)) ∧
      (s'.changeText ⟨"/1-if-then/3-text"⟩ 0 "y").2 = s') ∧
    ((d.applyAt 1 (.replaceText ⟨"/0-text"⟩ "z")).1 = .error (.stale 1 0) ∧
      (d.applyAt 1 (.replaceText ⟨"/0-text"⟩ "z")).2 = d) ∧
    (d.path = none ∧
      (d.save : StateM Disk (Except DocumentError Unit × Document)) ⟨[]⟩ =
        ((.error .notFileBacked, d), ⟨[]⟩)) := by
  intro d s s' outside
  obtain ⟨-, -, hchange, -, hdelete, -, -, -, hat, -, hsave, -⟩ := operations_atomic (W := Disk)
  have hkind : (s.deleteConditional ⟨"/0-text"⟩).1 =
      .error (.edit (.notConditional ⟨"/0-text"⟩)) := by decide +kernel
  have hrange : (s'.changeText ⟨"/1-if-then/3-text"⟩ 0 "y").1 =
      .error (.edit (.unresolved outside)) := by decide +kernel
  have hstale : (d.applyAt 1 (.replaceText ⟨"/0-text"⟩ "z")).1 = .error (.stale 1 0) :=
    by decide +kernel
  exact ⟨⟨by decide +kernel, hkind, hdelete _ s _ hkind⟩,
    ⟨by decide +kernel, hrange, hchange _ _ _ s' _ hrange⟩,
    ⟨hstale, hat _ _ d _ hstale⟩, rfl, hsave d ⟨[]⟩ rfl⟩

end MessageTemplate
