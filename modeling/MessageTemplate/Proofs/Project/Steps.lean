/-
What the steps of a command come to on a disk.

A command is written for any files.  On a disk its steps are a function of what was printed so far
and of the disk (`Running.on`), and a step that fails takes the rest of the command with it
(`on_bind_of_ok`, `on_bind_of_error`).  The steps that commands begin with only read: what they come
to is settled by what reading one path gives (`Disk.read?`), so it is the same on every disk on
which that path reads the same (`on_config`, `on_document`).
-/
import MessageTemplate.Project.Run
import MessageTemplate.Proofs.Disk.Paths
import MessageTemplate.Proofs.Session.Reachable

set_option autoImplicit false

namespace MessageTemplate

/-! ## Steps on a disk -/

namespace Disk

theorem bind_eq {α β : Type} (action : StateM Disk α) (next : α → StateM Disk β) (d : Disk) :
    (action >>= next) d = next (action d).1 (action d).2 := rfl

/-- `keep` changes the disk, unless the change is refused. -/
theorem keep_eq (change : Disk → Except FileError Disk) (d : Disk) :
    keep change d =
      match change d with
      | .ok d' => (.ok (), d')
      | .error cause => (.error cause, d) := by
  have hget : (get : StateM Disk Disk) d = (d, d) := rfl
  rw [keep, bind_eq, hget]
  dsimp only
  cases change d with
  | ok d' => rfl
  | error cause => rfl

end Disk

namespace Running

/-- What some steps come to on a `Disk` when a text was printed before: what they give or why they
fail, the text that is printed then, and the disk that they leave. -/
def on {α : Type} (steps : Running (StateM Disk) α) (printed : String) (d : Disk) :
    (Except CommandError α × String) × Disk :=
  steps.run printed d

section

variable {α β : Type} {steps : Running (StateM Disk) α} {next : α → Running (StateM Disk) β}
  {printed printed' : String} {d d' : Disk}

theorem on_bind : (steps >>= next).on printed d =
    ExceptT.bindCont next (steps.on printed d).1.1 (steps.on printed d).1.2
      (steps.on printed d).2 := rfl

/-- A step that succeeds hands its answer on to `next`. -/
theorem on_bind_of_ok {a : α} (h : steps.on printed d = ((.ok a, printed'), d')) :
    (steps >>= next).on printed d = (next a).on printed' d' := by
  rw [on_bind, h]
  rfl

/-- A step that fails ends all of it, with what was `printed` so far. -/
theorem on_bind_of_error {e : CommandError}
    (h : steps.on printed d = ((.error e, printed'), d')) :
    (steps >>= next).on printed d = ((.error e, printed'), d') := by
  rw [on_bind, h]
  rfl

theorem on_ask (action : StateM Disk α) (printed : String) (d : Disk) :
    (ask action).on printed d = ((.ok (action d).1, printed), (action d).2) := rfl

theorem on_say (line printed : String) (d : Disk) :
    (say line).on printed d = ((.ok (), printed ++ line ++ "\n"), d) := rfl

theorem on_isPresent (p : Path) (printed : String) (d : Disk) :
    (ask (Files.isPresent p)).on printed d = ((.ok (d.isPresent p), printed), d) := rfl

/-- An attempt at something fails if that is refused, with the `reason` as its cause. -/
theorem on_attempt {ε : Type} (reason : ε → CommandError) (action : StateM Disk (Except ε α))
    (printed : String) (d : Disk) :
    (attempt reason action).on printed d =
      (((action d).1.mapError reason, printed), (action d).2) := by
  rw [attempt, on_bind_of_ok (on_ask action printed d)]
  cases (action d).1 with
  | error e => rfl
  | ok a => rfl

end

end Running

namespace Command

variable {directory : Path} {c : Command} {printed : String} {d d' : Disk}

/-- The `Outcome` of a command whose `steps` succeed is what they have printed. -/
theorem run_of_ok (h : (c.steps directory).on "" d = ((.ok (), printed), d')) :
    (c.run directory : StateM Disk Outcome) d = (⟨printed, none⟩, d') := by
  have hsteps : ((c.steps directory).run "" : StateM Disk _) d = ((.ok (), printed), d') := h
  rw [run, Disk.bind_eq, hsteps]
  rfl

/-- The `Outcome` of a command whose `steps` fail has what they have printed so far and the
failure. -/
theorem run_of_error {e : CommandError}
    (h : (c.steps directory).on "" d = ((.error e, printed), d')) :
    (c.run directory : StateM Disk Outcome) d = (⟨printed, some e⟩, d') := by
  have hsteps : ((c.steps directory).run "" : StateM Disk _) d = ((.error e, printed), d') := h
  rw [run, Disk.bind_eq, hsteps]
  rfl

end Command

/-! ## Reading -/

/-- The configuration of a project, from what reading its path gives; without a file it is
`Config.usual`. -/
def Config.ofRead : Option (Except FileError String) → Except CommandError Config
  | none => .ok .usual
  | some (.error cause) => .error (.file cause)
  | some (.ok source) => (Config.parse source).mapError .badConfig

/-- The template in a file, from what reading its path gives; without a file it is
`Template.blank`. -/
def Template.ofRead : Option (Except FileError String) → Except DocumentError Template
  | none => .ok .blank
  | some (.error cause) => .error (.file cause)
  | some (.ok source) => Document.templateOfSource source

/-- `load` looks at what reading its path gives (`Disk.read?`), and at nothing else of the disk. -/
theorem Document.load_eq_ofRead (p : Path) (d : Disk) :
    (load p : StateM Disk (Except DocumentError Document)) d =
      ((Template.ofRead (d.read? p)).map fun t => ⟨t, 0, false, some p⟩, d) := by
  rw [load_eq, Disk.read?]
  cases d.isPresent p with
  | false => rfl
  | true =>
    rw [if_pos rfl, if_pos rfl]
    cases d.readText p with
    | error cause => rfl
    | ok source => rfl

namespace Running

variable (directory : Path) (printed : String) (d : Disk)

/-- So does `config`, which reads the configuration of a project. -/
theorem on_config :
    (config directory : Running (StateM Disk) Config).on printed d =
      ((Config.ofRead (d.read? (directory.join ⟨Config.fileName⟩)), printed), d) := by
  rw [config, on_bind_of_ok (on_isPresent _ printed d), Disk.read?]
  cases d.isPresent (directory.join ⟨Config.fileName⟩) with
  | false => rfl
  | true =>
    rw [if_pos rfl, if_pos rfl]
    have hread := on_attempt CommandError.file
      (Files.readText (directory.join ⟨Config.fileName⟩) : StateM Disk _) printed d
    change _ = (((d.readText _).mapError _, printed), d) at hread
    cases htext : d.readText (directory.join ⟨Config.fileName⟩) with
    | error cause =>
      rw [htext] at hread
      exact on_bind_of_error hread
    | ok source =>
      rw [htext] at hread
      rw [on_bind_of_ok hread, Config.ofRead]
      cases Config.parse source with
      | error fault => rfl
      | ok c => rfl

/-- `document`, the step of a command that loads the template. -/
theorem on_document (p : Path) :
    (document p : Running (StateM Disk) Document).on printed d =
      ((((Template.ofRead (d.read? p)).map fun t => ⟨t, 0, false, some p⟩).mapError .document,
        printed), d) := by
  rw [document, on_attempt, Document.load_eq_ofRead]

end Running

end MessageTemplate
