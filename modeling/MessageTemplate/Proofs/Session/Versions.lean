/-
Versions and the dirty flag, in whatever order the requests of many clients come.

A document answers one request after the other, so what any number of clients do to it is one list
of requests (`Desk.Request`).  Each of them has one of three effects on the document: it puts
another template in place of the present one and counts one version more, it marks the document as
kept, or it leaves the document alone.  Every refusal is of the third kind, and so is undoing where
there is nothing to undo.  `Desk.took_serve` says so of every request.

All that follows is about sequences of such effects.  The version never falls, and between two
moments with the same version nothing was changed (`Document.version_later`); that is why an edit
for a version meets the template it was meant for, and why it uses the version up.  While the
document is not dirty, nothing was changed since it was last kept (`Document.exists_kept`).  What
clients may rely on is collected in `Desk.Orderly`.
-/
import Mathlib.Logic.Function.Basic
import MessageTemplate.Disk.Basic
import MessageTemplate.Proofs.Outcome
import MessageTemplate.Proofs.Session.Moves

set_option autoImplicit false

namespace MessageTemplate

/-! ## Effects -/

namespace Document

/-- What a request does to a document: it changes the template, it marks the document as kept (no
longer `dirty`), or neither. -/
inductive Effect where
  | changed
  | kept
  | untouched
  deriving DecidableEq, Repr

/-- What a `Document` becomes by an `Effect`.  A change may bring any template. -/
inductive Took (d : Document) : Effect → Document → Prop
  | changed (t : Template) : Took d .changed (d.replace t)
  | kept : Took d .kept { d with dirty := false }
  | untouched : Took d .untouched d

/-- A document as it comes into being: made of a template, or loaded from a file of a machine whose
files are `W`. -/
inductive Begun (W : Type) [Files (StateM W)] : Document → Prop
  | made (t : Template) : Begun W (.ofTemplate t)
  | loaded {p : Path} {w w' : W} {d : Document}
    (h : (Document.load p : StateM W (Except DocumentError Document)) w = (.ok d, w')) :
    Begun W d

end Document

/-! ## A shared document -/

/-- A document that many clients work on, with the `histories` that they keep, each under its name,
and the `files` of the machine. -/
structure Desk (W Name : Type) where
  document : Document
  histories : Name → History
  files : W

namespace Desk

/-- A request of some client.  `disturb` is no request of any of them: something else
changes the files, so a file that can be written now may not be later. -/
inductive Request (W Name : Type) where
  | apply (e : Edit)
  | applyAt (version : Nat) (e : Edit)
  | replace (t : Template)
  | history (name : Name) (step : History.Step)
  | commit
  | save
  | disturb (files : W)

/-- The answer to a `Request`. -/
inductive Reply where
  | changed (change : Change)
  | replaced (version : Nat)
  | stepped (answer : History.Answer)
  | committed (source : String)
  | saved
  | refused (cause : DocumentError)
  | disturbed
  deriving DecidableEq, Repr

section

variable {W Name : Type} [Files (StateM W)] [DecidableEq Name]

/-- Puts the outcome of an edit in the words of a `Reply`. -/
def edited (s : Desk W Name) :
    Except DocumentError Change × Document → Reply × Desk W Name
  | (.ok change, d) => (.changed change, { s with document := d })
  | (.error cause, d) => (.refused cause, { s with document := d })

/-- Answers one `Request`.  A client's history is found under its name and put back under it, and
the document is the same for all of them. -/
def serve (s : Desk W Name) : Request W Name → Reply × Desk W Name
  | .apply e => s.edited (s.document.apply e)
  | .applyAt version e => s.edited (s.document.applyAt version e)
  | .replace t =>
    let d := s.document.replace t
    (.replaced d.version, { s with document := d })
  | .history name step =>
    match (s.histories name).perform s.document step with
    | (answer, h, d) =>
      (.stepped answer, { s with document := d, histories := Function.update s.histories name h })
  | .commit =>
    match s.document.commit with
    | (source, d) => (.committed source, { s with document := d })
  | .save =>
    match (s.document.save : StateM W (Except DocumentError Unit × Document)) s.files with
    | ((.ok _, d), files) => (.saved, { s with document := d, files })
    | ((.error cause, d), files) => (.refused cause, { s with document := d, files })
  | .disturb files => (.disturbed, { s with files })

/-- The desk after the first `n` requests. -/
def moment (s : Desk W Name) (requests : List (Request W Name)) (n : Nat) : Desk W Name :=
  (requests.take n).foldl (fun s request => (s.serve request).2) s

/-- The document after the first `n` requests. -/
def documentAt (s : Desk W Name) (requests : List (Request W Name)) (n : Nat) : Document :=
  (s.moment requests n).document

/-- The answer to the request after the first `n`, if there is one more. -/
def replyAt (s : Desk W Name) (requests : List (Request W Name)) (n : Nat) : Option Reply :=
  requests[n]?.map fun request => ((s.moment requests n).serve request).1

end

/-- What a `Reply` says about the document.  An edit that was accepted, a template put in place and
an undo or redo that took place are changes; handing the document out and saving it with success
keep it. -/
def Reply.effect : Reply → Document.Effect
  | .changed _ => .changed
  | .replaced _ => .changed
  | .stepped (.changed _) => .changed
  | .stepped (.moved true) => .changed
  | .stepped _ => .untouched
  | .committed _ => .kept
  | .saved => .kept
  | .refused _ => .untouched
  | .disturbed => .untouched

section

variable {W Name : Type} [Files (StateM W)] [DecidableEq Name]

/-- What the request after the first `n` does to the document; after the last request
nothing is done to it any more. -/
def effectAt (s : Desk W Name) (requests : List (Request W Name)) (n : Nat) : Document.Effect :=
  ((s.replyAt requests n).map Reply.effect).getD .untouched

/-- An edit for a version is sent after the first `n` requests, and it is accepted. -/
def AcceptsAt (s : Desk W Name) (requests : List (Request W Name)) (n version : Nat) (e : Edit) :
    Prop :=
  requests[n]? = some (.applyAt version e) ∧ ∃ change, s.replyAt requests n = some (.changed change)

end

end Desk

/-! ## Sequences of effects -/

namespace Document

theorem Took.version {d d' : Document} {effect : Effect} (h : Took d effect d') :
    d'.version = d.version + if effect = .changed then 1 else 0 := by
  cases h with
  | changed t => rfl
  | kept => rfl
  | untouched => rfl

theorem Took.template {d d' : Document} {effect : Effect} (h : Took d effect d')
    (hsame : effect ≠ .changed) : d'.template = d.template := by
  cases h with
  | changed t => exact absurd rfl hsame
  | kept => rfl
  | untouched => rfl

/-- A document that was changed or left alone is not `dirty` only if it was not before and is the
same. -/
theorem Took.clean {d d' : Document} {effect : Effect} (h : Took d effect d')
    (hkept : effect ≠ .kept) (hclean : d'.dirty = false) :
    d.dirty = false ∧ d'.template = d.template := by
  cases h with
  | changed t => exact absurd hclean (by simp [Document.replace])
  | kept => exact absurd rfl hkept
  | untouched => exact ⟨hclean, rfl⟩

/-- The document is kept at a moment: it has just come into being, or the effect before was
`kept`. -/
def KeptBy (effects : Nat → Effect) : Nat → Prop
  | 0 => True
  | n + 1 => effects n = .kept

section

variable {d : Nat → Document} {effects : Nat → Effect}
  (htook : ∀ n, Took (d n) (effects n) (d (n + 1)))

include htook

/-- The `version` never falls, and where it has not grown nothing was changed.  The induction is on
the effects in between. -/
theorem version_later (i k : Nat) :
    (d i).version ≤ (d (i + k)).version ∧
      ((d (i + k)).version = (d i).version → (d (i + k)).template = (d i).template) := by
  induction k with
  | zero => exact ⟨Nat.le_refl _, fun _ => rfl⟩
  | succ k ih =>
    obtain ⟨hle, hsame⟩ := ih
    have hstep := (htook (i + k)).version
    rw [← Nat.add_assoc, hstep]
    refine ⟨by omega, fun hversion => ?_⟩
    -- The last of the effects was no change either, or the version had grown.
    have hunchanged : effects (i + k) ≠ .changed := by
      intro hchanged
      rw [if_pos hchanged] at hversion
      omega
    rw [if_neg hunchanged] at hversion
    rw [(htook (i + k)).template hunchanged, hsame hversion]

/-- The first half of `version_later`, for two moments in their order. -/
theorem version_le {i j : Nat} (h : i ≤ j) : (d i).version ≤ (d j).version := by
  obtain ⟨k, rfl⟩ := Nat.exists_eq_add_of_le h
  exact (version_later htook i k).1

/-- The second half of `version_later`: a version stands for one template, whichever of the two
moments comes first. -/
theorem template_of_version {i j : Nat} (h : (d i).version = (d j).version) :
    (d i).template = (d j).template := by
  rcases Nat.le_total i j with hle | hle
  · obtain ⟨k, rfl⟩ := Nat.exists_eq_add_of_le hle
    exact ((version_later htook i k).2 h.symm).symm
  · obtain ⟨k, rfl⟩ := Nat.exists_eq_add_of_le hle
    exact (version_later htook j k).2 h

/-- A change (`changed`) uses the version up: no later moment has it. -/
theorem version_lt {i j : Nat} (hchanged : effects i = .changed) (h : i < j) :
    (d i).version < (d j).version := by
  have hstep := (htook i).version
  have hle := version_le htook (show i + 1 ≤ j from h)
  rw [if_pos hchanged] at hstep
  omega

/-- The last moment at which the document was kept (`KeptBy`), and what it says of a clean document.
The induction is on the effects: keeping the document makes the present moment the last one, and any
other effect leaves the one found before. -/
theorem exists_kept (n : Nat) :
    ∃ k ≤ n, KeptBy effects k ∧ (∀ j, k < j → j ≤ n → ¬ KeptBy effects j) ∧
      ((d n).dirty = false → (d n).template = (d k).template) := by
  induction n with
  | zero => exact ⟨0, Nat.le_refl 0, trivial, fun j hj hle => by omega, fun _ => rfl⟩
  | succ n ih =>
    by_cases hkept : effects n = .kept
    · exact ⟨n + 1, Nat.le_refl _, hkept, fun j hj hle => by omega, fun _ => rfl⟩
    · obtain ⟨k, hk, hkeptk, hlast, hclean⟩ := ih
      refine ⟨k, by omega, hkeptk, ?_, ?_⟩
      · intro j hj hle
        by_cases hjn : j = n + 1
        · rw [hjn]
          exact hkept
        · exact hlast j hj (by omega)
      · intro hdirty
        obtain ⟨hbefore, htemplate⟩ := (htook n).clean hkept hdirty
        rw [htemplate, hclean hbefore]

end

/-! ## Every request has one effect -/

/-- `Document.apply` of an edit that does not fit. -/
theorem apply_refused {d : Document} {e : Edit} {cause : EditError}
    (h : e.apply d.template = .error cause) : d.apply e = (.error (.edit cause), d) := by
  rw [apply, h]

/-- `Document.apply` of an edit that fits: the version grows by one, and the focus is passed on. -/
theorem apply_accepted {d : Document} {e : Edit} {edited : Edited}
    (h : e.apply d.template = .ok edited) :
    d.apply e = (.ok ⟨d.version + 1, edited.focus⟩, d.replace edited.template) := by
  rw [apply, h]

/-- An edit for another version is refused as `stale`, without being looked at. -/
theorem applyAt_stale {d : Document} {version : Nat} (h : version ≠ d.version) (e : Edit) :
    d.applyAt version e = (.error (.stale version d.version), d) := by
  rw [applyAt, if_neg h]

theorem applyAt_current (d : Document) (e : Edit) : d.applyAt d.version e = d.apply e := by
  rw [applyAt, if_pos rfl]

/-- Two programs one after the other on a machine.  With this the operations that touch `Files` are
opened one call at a time. -/
theorem bind_state {W α β : Type} (x : StateM W α) (f : α → StateM W β) (w : W) :
    (x >>= f) w = f (x w).1 (x w).2 := rfl

section

variable {W : Type} [Files (StateM W)]

/-- On any machine `save` either keeps the document or is refused and leaves it alone. -/
theorem save_cases (d : Document) (w : W) :
    (∃ w', (d.save : StateM W (Except DocumentError Unit × Document)) w =
        ((.ok (), { d with dirty := false }), w')) ∨
      ∃ cause w', (d.save : StateM W (Except DocumentError Unit × Document)) w =
        ((.error cause, d), w') := by
  unfold save
  cases d.path with
  | none => exact .inr ⟨_, w, rfl⟩
  | some p =>
    dsimp only
    rw [bind_state]
    rcases (Files.writeText p d.source : StateM W (Except FileError Unit)) w with ⟨_ | _, w'⟩
    · exact .inr ⟨_, w', rfl⟩
    · exact .inl ⟨w', rfl⟩

/-- A document comes into being clean and at version zero, however it is made (`Begun`). -/
theorem Begun.fresh {d : Document} (h : Begun W d) : d.version = 0 ∧ d.dirty = false := by
  cases h with
  | made t => exact ⟨rfl, rfl⟩
  | @loaded p w w' _ h =>
    unfold load at h
    rw [bind_state] at h
    split at h
    case isTrue =>
      rw [bind_state] at h
      cases hread : ((Files.readText p : StateM W (Except FileError String)) _).1 with
      | error cause =>
        rw [hread] at h
        exact absurd (Prod.mk.inj h).1 nofun
      | ok source =>
        rw [hread] at h
        obtain ⟨t, -, rfl⟩ := Outcome.map_eq_ok.mp (Prod.mk.inj h).1
        exact ⟨rfl, rfl⟩
    case isFalse =>
      rw [← Except.ok.inj (Prod.mk.inj h).1]
      exact ⟨rfl, rfl⟩

end

end Document

namespace Desk

/-- A `Step` of a history changes the document if it is an edit that is accepted, or if it undoes or
redoes something; what its answer says is what it does. -/
theorem took_perform (h : History) (d : Document) (step : History.Step) :
    Document.Took d (Reply.stepped (h.perform d step).1).effect (h.perform d step).2.2 := by
  cases step with
  | apply e =>
    rw [History.perform, History.apply]
    cases hedit : e.apply d.template with
    | error cause =>
      rw [Document.apply_refused hedit]
      exact .untouched
    | ok edited =>
      rw [Document.apply_accepted hedit]
      exact .changed _
  | undo =>
    rw [History.perform, History.undo]
    cases h.undos with
    | nil => exact .untouched
    | cons entry rest => exact .changed _
  | redo =>
    rw [History.perform, History.redo]
    cases h.redos with
    | nil => exact .untouched
    | cons entry rest => exact .changed _
  | beginBatch => exact .untouched
  | endBatch => exact .untouched
  | describe description => exact .untouched
  | clear => exact .untouched

/-- The same for an edit of the document itself, by the `Reply` that `edited` makes of its
outcome. -/
theorem took_edited {W Name : Type} (s : Desk W Name) (d : Document) (e : Edit) :
    Document.Took d (s.edited (d.apply e)).1.effect (s.edited (d.apply e)).2.document := by
  cases hedit : e.apply d.template with
  | error cause =>
    rw [Document.apply_refused hedit]
    exact .untouched
  | ok edited =>
    rw [Document.apply_accepted hedit]
    exact .changed _

section

variable {W Name : Type} [Files (StateM W)] [DecidableEq Name]

/-- The step lemma of this module: every `Request` has the effect on the document that its `Reply`
speaks of. -/
theorem took_serve (s : Desk W Name) (request : Request W Name) :
    Document.Took s.document (s.serve request).1.effect (s.serve request).2.document := by
  cases request with
  | apply e => exact took_edited s s.document e
  | applyAt version e =>
    rw [serve]
    by_cases hversion : version = s.document.version
    · subst hversion
      rw [Document.applyAt_current]
      exact took_edited s s.document e
    · rw [Document.applyAt_stale hversion]
      exact .untouched
  | replace t => exact .changed t
  | history name step => exact took_perform (s.histories name) s.document step
  | commit => exact .kept
  | save =>
    rw [serve]
    rcases s.document.save_cases s.files with ⟨files, hsave⟩ | ⟨cause, files, hsave⟩
    · rw [hsave]
      exact .kept
    · rw [hsave]
      exact .untouched
  | disturb files => exact .untouched

theorem moment_succ (s : Desk W Name) (requests : List (Request W Name)) (n : Nat) :
    s.moment requests (n + 1) =
      requests[n]?.elim (s.moment requests n) fun request =>
        ((s.moment requests n).serve request).2 := by
  rw [moment, moment, List.take_add_one, List.foldl_append]
  cases requests[n]? with
  | none => rfl
  | some request => rfl

/-- From one moment to the next the document takes the effect (`Took`) of the request between. -/
theorem took_documentAt (s : Desk W Name) (requests : List (Request W Name)) (n : Nat) :
    Document.Took (s.documentAt requests n) (s.effectAt requests n)
      (s.documentAt requests (n + 1)) := by
  rw [documentAt, documentAt, effectAt, replyAt, moment_succ]
  cases requests[n]? with
  | none => exact .untouched
  | some request => exact took_serve _ request

/-- An edit for a version is accepted (`AcceptsAt`) if and only if it is for the present version and
can be applied. -/
theorem acceptsAt_iff {s : Desk W Name} {requests : List (Request W Name)} {n version : Nat}
    {e : Edit} (hsent : requests[n]? = some (.applyAt version e)) :
    s.AcceptsAt requests n version e ↔
      (s.documentAt requests n).version = version ∧
        ∃ edited, e.apply (s.documentAt requests n).template = .ok edited := by
  rw [AcceptsAt, replyAt, hsent, documentAt, Option.map_some, serve]
  generalize s.moment requests n = present
  by_cases hversion : version = present.document.version
  · subst hversion
    rw [Document.applyAt_current]
    cases hedit : e.apply present.document.template with
    | error cause =>
      rw [Document.apply_refused hedit, edited]
      simp
    | ok edited =>
      rw [Document.apply_accepted hedit, Desk.edited]
      simp
  · rw [Document.applyAt_stale hversion, edited]
    simp [Ne.symm hversion]

theorem AcceptsAt.changed {s : Desk W Name} {requests : List (Request W Name)} {n version : Nat}
    {e : Edit} (h : s.AcceptsAt requests n version e) : s.effectAt requests n = .changed := by
  obtain ⟨-, change, hreply⟩ := h
  rw [effectAt, hreply]
  rfl

/-! ## Runs -/

/-- What a run of `Request`s keeps to, each moment being named by the number of requests answered
before it. -/
structure Orderly (s : Desk W Name) (requests : List (Request W Name)) : Prop where
  /-- The document starts clean at version zero. -/
  start : (s.documentAt requests 0).version = 0 ∧ (s.documentAt requests 0).dirty = false
  /-- The version counts the changes: it grows by one with each and with nothing else. -/
  counts : ∀ n, (s.documentAt requests (n + 1)).version =
    (s.documentAt requests n).version + if s.effectAt requests n = .changed then 1 else 0
  /-- A version stands for one template. -/
  names : ∀ i j, (s.documentAt requests i).version = (s.documentAt requests j).version →
    (s.documentAt requests i).template = (s.documentAt requests j).template
  /-- An edit for a version is accepted exactly when that is the present version and the
  edit can be applied, -/
  accepts : ∀ n version e, requests[n]? = some (.applyAt version e) →
    (s.AcceptsAt requests n version e ↔
      (s.documentAt requests n).version = version ∧
        ∃ edited, e.apply (s.documentAt requests n).template = .ok edited)
  /-- it then meets the template that the document has whenever it has that version, -/
  meets : ∀ n version e, s.AcceptsAt requests n version e →
    ∀ i, (s.documentAt requests i).version = version →
      (s.documentAt requests n).template = (s.documentAt requests i).template
  /-- and no other edit for the same version is accepted. -/
  once : ∀ i j version e e', s.AcceptsAt requests i version e →
    s.AcceptsAt requests j version e' → i = j
  /-- While the document is clean it has the template that it had when it was last kept. -/
  clean : ∀ n, (s.documentAt requests n).dirty = false →
    ∃ k ≤ n, Document.KeptBy (s.effectAt requests) k ∧
      (∀ j, k < j → j ≤ n → ¬ Document.KeptBy (s.effectAt requests) j) ∧
      (s.documentAt requests n).template = (s.documentAt requests k).template

/-- Whatever requests come, and in whatever order, from a document that has just come into being
(`Begun`).  A version is a natural number here; below 2 ^ 64 changes one of 64 bits counts the
same. -/
theorem orderly {s : Desk W Name} (hbegun : Document.Begun W s.document)
    (requests : List (Request W Name)) : s.Orderly requests := by
  have htook := s.took_documentAt requests
  have hversion : ∀ {n version : Nat} {e : Edit}, s.AcceptsAt requests n version e →
      (s.documentAt requests n).version = version :=
    fun h => ((acceptsAt_iff h.1).mp h).1
  -- Of two edits for one version the later would find the version used up by the earlier.
  have hused : ∀ {i j version : Nat} {e e' : Edit}, s.AcceptsAt requests i version e →
      s.AcceptsAt requests j version e' → ¬ i < j := by
    intro i j version e e' hi hj hlt
    have hgrown := Document.version_lt htook hi.changed hlt
    rw [hversion hi, hversion hj] at hgrown
    omega
  constructor
  case start => exact hbegun.fresh
  case counts => exact fun n => (htook n).version
  case names => exact fun i j => Document.template_of_version htook
  case accepts => exact fun n version e => acceptsAt_iff
  case meets =>
    intro n version e h i hi
    exact Document.template_of_version htook ((hversion h).trans hi.symm)
  case once =>
    intro i j version e e' hi hj
    have hij := hused hi hj
    have hji := hused hj hi
    omega
  case clean =>
    intro n hclean
    obtain ⟨k, hk, hkept, hlast, htemplate⟩ := Document.exists_kept htook n
    exact ⟨k, hk, hkept, hlast, htemplate hclean⟩

end

/-- Two clients meet over a document loaded from a file whose directory does not exist:
one is too late with an edit for version zero, and one with a history undoes a split.
Saving is refused until something else makes the directory. -/
theorem orderly_clients :
    let type (s : String) := Edit.insertText ⟨"/0-text"⟩ 0 s
    let s : Desk Disk String :=
      ⟨⟨.blank, 0, false, some ⟨"d/t.json"⟩⟩, fun _ => .fresh History.usualLimit, ⟨[]⟩⟩
    let requests : List (Request Disk String) :=
      [.applyAt 0 (type "a"), .applyAt 0 (type "b"), .save,
        .history "ann" (.apply (.insertConditional ⟨"/0-text"⟩ 1)), .history "ann" .undo,
        .applyAt 3 (.deleteConditional ⟨"/0-text"⟩), .applyAt 3 (type "c"),
        .disturb ⟨[("d", .directory [])]⟩, .save, .history "bob" .undo]
    Document.Begun Disk s.document ∧
      (List.range requests.length).map (s.effectAt requests) =
        [.changed, .untouched, .untouched, .changed, .changed, .untouched, .changed,
          .untouched, .kept, .untouched] ∧
      (s.documentAt requests 10).version = 4 ∧ (s.documentAt requests 10).dirty = false ∧
      s.Orderly requests := by
  intro type s requests
  have hbegun : Document.Begun Disk s.document :=
    @Document.Begun.loaded Disk _ ⟨"d/t.json"⟩ ⟨[]⟩ ⟨[]⟩ _ rfl
  exact ⟨hbegun, by decide +kernel, by decide +kernel, by decide +kernel, orderly hbegun requests⟩

end Desk

end MessageTemplate
