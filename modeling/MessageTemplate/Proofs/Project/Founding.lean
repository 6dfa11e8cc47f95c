/-
Making a project.

Two files are written one after the other, the sample and then the configuration, each unless it is
there already or is to be replaced.  All that the command does to the disk is a list of changes
(`Command.foundation`), of which the first that is refused is the last (`Disk.tryAll`).  So what
holds after the command is shown change by change, and a command that succeeds has made every one of
them.

Two things can go wrong.  The argument may name the file of the configuration, and then the sample
is written and at once written over.  And whether a file is there is asked before the directory
above it is made: a path through a missing directory and out of it again leads nowhere when it is
asked for, and to a file that has been there all along when it is written.
-/
import MessageTemplate.Proofs.Disk.Making
import MessageTemplate.Proofs.Project.Messages
import MessageTemplate.Proofs.Project.Steps
import MessageTemplate.Proofs.Session.Reload

set_option autoImplicit false

namespace MessageTemplate

open Json

/-! ## Changes one after the other -/

namespace Disk

/-- Makes some changes of a `Disk`, up to the first that is refused. -/
def tryAll (d : Disk) : List (Disk → Except FileError Disk) → Except FileError Unit × Disk
  | [] => (.ok (), d)
  | change :: rest =>
    match change d with
    | .ok d' => d'.tryAll rest
    | .error cause => (.error cause, d)

section

variable {d d' : Disk} {change : Disk → Except FileError Disk}
  {changes : List (Disk → Except FileError Disk)}

/-- What every change keeps, `tryAll` keeps, however far it comes.  The changes are known one by
one, so it is enough to look at the members of the list. -/
theorem tryAll_keeps {P : Disk → Prop}
    (hstep : ∀ change ∈ changes, ∀ {d d' : Disk}, P d → change d = .ok d' → P d') :
    ∀ {d : Disk}, P d → P (d.tryAll changes).2 := by
  induction changes with
  | nil => exact fun h => h
  | cons change rest ih =>
    intro d h
    obtain ⟨hchange, hrest⟩ := List.forall_mem_cons.mp hstep
    rw [tryAll]
    cases hd : change d with
    | error cause => exact h
    | ok d' => exact ih hrest (hchange h hd)

/-- `tryAll` succeeds if the first change does, and the others do after it.  What is read at the end
is then read off the last changes, one by one. -/
theorem tryAll_cons_eq_ok :
    d.tryAll (change :: changes) = (.ok (), d') ↔
      ∃ next, change d = .ok next ∧ next.tryAll changes = (.ok (), d') := by
  rw [tryAll]
  cases change d with
  | error cause =>
    refine ⟨fun h => ?_, fun ⟨_, h, _⟩ => absurd h (Outcome.error_ne_ok _ _)⟩
    exact absurd (Prod.mk.inj h).1 (Outcome.error_ne_ok _ _)
  | ok next => exact ⟨fun h => ⟨next, rfl, h⟩, fun ⟨_, h, hrest⟩ => Except.ok.inj h ▸ hrest⟩

theorem tryAll_nil_eq_ok : d.tryAll [] = (.ok (), d') ↔ d = d' := by
  rw [tryAll, Prod.mk.injEq]
  exact and_iff_right rfl

end

end Disk

/-! ## Steps that make changes -/

namespace Running

/-- Steps that change the disk as `tryAll` of some changes does, and print besides.  What they print
depends on nothing that the theorems below are about, so it is left open. -/
def Makes (steps : Running (StateM Disk) Unit) (changes : List (Disk → Except FileError Disk)) :
    Prop :=
  ∀ printed d, ∃ printed', steps.on printed d =
    (((d.tryAll changes).1.mapError .file, printed'), (d.tryAll changes).2)

/-- A line that is printed changes nothing, so it `Makes` no changes. -/
theorem makes_say (line : String) : (say line : Running (StateM Disk) Unit).Makes [] :=
  fun printed d => ⟨_, on_say line printed d⟩

section

variable {steps : Running (StateM Disk) Unit} {changes : List (Disk → Except FileError Disk)}

/-- Printing a line first does not alter what steps make. -/
theorem Makes.say_bind (h : steps.Makes changes) (line : String) :
    (say line >>= fun _ => steps).Makes changes :=
  fun printed d => h (printed ++ line ++ "\n") d

/-- A change is attempted (`attempt`) before other steps: if it is refused, they are not taken, and
`tryAll` stops at the same place with the same error. -/
theorem Makes.attempt_bind (h : steps.Makes changes) (change : Disk → Except FileError Disk) :
    (attempt .file (Disk.keep change) >>= fun _ => steps).Makes (change :: changes) := by
  intro printed d
  have hattempt := on_attempt CommandError.file (Disk.keep change) printed d
  rw [Disk.keep_eq] at hattempt
  rw [Disk.tryAll]
  cases hd : change d with
  | error cause =>
    rw [hd] at hattempt
    exact ⟨printed, on_bind_of_error hattempt⟩
  | ok d' =>
    rw [hd] at hattempt
    rw [on_bind_of_ok hattempt]
    exact h printed d'

end

end Running

/-! ## The sample -/

namespace Running

/-- The `sample` in writing, as a user would lay it out. -/
def sampleSource : String := "[
  \x7b\"type\": \"TEXT\", \"text\": \"Hello, \x7bfirstname\x7d.\"\x7d,
  \x7b\"type\": \"IF\",
   \"condition\": [\x7b\"type\": \"TEXT\", \"text\": \"\x7bcompany\x7d\"\x7d],
   \"then\": [
     \x7b\"type\": \"TEXT\", \"text\": \" I know you work at \x7bcompany\x7d\"\x7d,
     \x7b\"type\": \"IF\",
      \"condition\": [\x7b\"type\": \"TEXT\", \"text\": \"\x7bposition\x7d\"\x7d],
      \"then\": [\x7b\"type\": \"TEXT\", \"text\": \" as \x7bposition\x7d\"\x7d],
      \"else\": [\x7b\"type\": \"TEXT\", \"text\": \", but what is your role?\"\x7d]\x7d,
     \x7b\"type\": \"TEXT\", \"text\": \" ;)\"\x7d
   ],
   \"else\": [\x7b\"type\": \"TEXT\", \"text\": \" Where do you work at the moment?\"\x7d]\x7d,
  \x7b\"type\": \"TEXT\", \"text\": \" Kindest regards, John.\"\x7d
]"

set_option maxRecDepth 4000 in
/-- `sampleSource` is read as the `sample`, and nothing of it is left.  It is laid out with blanks
and new lines, so this is more than what is known of printed text. -/
theorem readForest_sampleSource : ∃ text, sampleSource = String.ofList text ∧
    (Content.readForest text).toOption = some (sample, []) := by
  -- The kernel reads the characters of a long text at once, but takes long to find them.
  refine ⟨_, rfl, ?_⟩
  decide +kernel

/-- So the template that stands in `sampleSource` is that of the `sample`, with `readForest` inside
of `Template.parse`. -/
theorem parse_sampleSource : Template.parse sampleSource = .ok (.ofContents sample) := by
  obtain ⟨text, hsource, hread⟩ := readForest_sampleSource
  rw [Template.parse, Content.parse, decode, hsource, String.toList_ofList,
    Outcome.toOption_eq_some.mp hread]
  rfl

end Running

/-! ## What the command does -/

namespace Command

/-- Whether a file is written: `force` says that it is to be replaced, or its path leads nowhere
yet. -/
def writes (force : Bool) (d : Disk) (p : Path) : Bool :=
  force || !d.isPresent p

/-- A file is written if the command is told to replace files or none is found under the path when
it asks. -/
theorem writes_iff {force : Bool} {d : Disk} {p : Path} :
    writes force d p = true ↔ force = true ∨ d.isPresent p = false := by
  rw [writes, Bool.or_eq_true, Bool.not_eq_true']

/-- What `Command.init` does to a disk: nothing if the configuration is kept, and a template that is
kept is not written either. -/
def foundation (directory : Path) (template : String) (force : Bool) (d : Disk) :
    List (Disk → Except FileError Disk) :=
  let path := directory.join ⟨template⟩
  let configPath := directory.join ⟨Config.fileName⟩
  let config : Config := ⟨template, Config.usualNames⟩
  if writes force d configPath then
    (if writes force d path then
      [fun d => d.makeParent path,
       fun d => d.writeText path (Template.ofContents Running.sample).indentedSource]
    else []) ++ [fun d => d.writeText configPath config.toJson.indented]
  else []

/-- The `failure` of a run by which the changes of a disk have come to this. -/
def failure : Except FileError Unit → Option CommandError
  | .ok _ => none
  | .error cause => some (.file cause)

/-- A run without a `failure` has made all its changes. -/
theorem failure_eq_none {result : Except FileError Unit} :
    failure result = none ↔ result = .ok () := by
  cases result with
  | error cause => exact ⟨nofun, nofun⟩
  | ok _ => exact ⟨fun _ => rfl, fun _ => rfl⟩

section

variable (directory : Path) (template : String) (force : Bool) (d : Disk)

/-- The steps of the command make the changes of its `foundation`.  They ask two questions of the
disk before anything is changed, and `writes` has the answers. -/
theorem init_on :
    ∃ printed, (Running.init directory template force : Running (StateM Disk) Unit).on "" d =
      (((d.tryAll (foundation directory template force d)).1.mapError .file, printed),
        (d.tryAll (foundation directory template force d)).2) := by
  let path := directory.join ⟨template⟩
  let configPath := directory.join ⟨Config.fileName⟩
  let config : Config := ⟨template, Config.usualNames⟩
  -- The configuration is written last, and what is printed after it matters to no disk.
  have hconfig : ∀ {line₁ line₂ line₃ line₄ line₅ line₆ line₇ : String}, Running.Makes (do
      Running.attempt .file (Files.writeText configPath config.toJson.indented)
      Running.say line₁; Running.say line₂; Running.say line₃; Running.say line₄
      Running.say line₅; Running.say line₆; Running.say line₇)
      [fun d => d.writeText configPath config.toJson.indented] :=
    .attempt_bind (.say_bind (.say_bind (.say_bind (.say_bind (.say_bind (.say_bind
      (Running.makes_say _) _) _) _) _) _) _) _
  have hkept : (d.isPresent configPath && !force) = !writes force d configPath := by
    rw [writes, Bool.not_or, Bool.not_not, Bool.and_comm]
  rw [Running.init, Running.on_bind_of_ok (Running.on_isPresent _ "" d), hkept, foundation]
  cases writes force d configPath with
  | false => exact ((Running.makes_say _).say_bind _) "" d
  | true =>
    rw [if_neg (by decide), if_pos rfl, Running.on_bind_of_ok (Running.on_say _ "" d),
      Running.on_bind_of_ok (Running.on_isPresent _ _ d)]
    change ∃ printed, (if writes force d path = true then _ else _ :
      Running (StateM Disk) Unit).on _ d = _
    cases writes force d path with
    | false => exact hconfig _ d
    | true =>
      exact ((hconfig.say_bind s!"  ✓ Created {template}").attempt_bind _).attempt_bind _ _ d

/-- The same for the command as a whole, with its `Outcome`: it fails if one of the changes is
refused, for the reason of that change, and what was changed before stays changed. -/
theorem run_init :
    ∃ printed, ((Command.init template force).run directory : StateM Disk Outcome) d =
      (⟨printed, failure (d.tryAll (foundation directory template force d)).1⟩,
        (d.tryAll (foundation directory template force d)).2) := by
  obtain ⟨printed, hon⟩ := init_on directory template force d
  cases hresult : (d.tryAll (foundation directory template force d)).1 with
  | error cause =>
    rw [hresult] at hon
    exact ⟨printed, run_of_error hon⟩
  | ok _ =>
    rw [hresult] at hon
    exact ⟨printed, run_of_ok hon⟩

end

/-! ## What can be read then -/

/-- A configuration that `writeText` has written is found, with what was written: its indented text
is one that holds it (`holds_indented`). -/
theorem config_of_writeText {configPath : Path} {c : Config} {before after : Disk}
    (hwrite : before.writeText configPath c.toJson.indented = .ok after) :
    Config.ofRead (after.read? configPath) = .ok c := by
  obtain ⟨_, hnames, hwrote⟩ := Disk.wrote_of_writeText hwrite
  rw [hwrote.read? hnames, Config.ofRead, Config.parse_holds (holds_indented c.toJson_integral)]
  rfl

/-- A configuration is no template: `templateOfSource` finds an object where an array has to be. -/
theorem templateOfSource_config (c : Config) : Document.templateOfSource c.toJson.indented =
    .error (.badSource (.mismatch (.wrongType .map .sequence))) := by
  have hblank := Document.not_allBlank (Value.indented_spelled c.toJson_integral)
    (Nat.succ_ne_zero _)
  have hparse : Content.parse c.toJson.indented = _ :=
    Content.parse_object (holds_indented c.toJson_integral)
  rw [Document.templateOfSource, if_neg hblank, Template.parse, hparse]
  rfl

/-- A template that `writeText` has written before the configuration is found, unless the
configuration was written over it.  Which of the two it is can be told by the disk at the end, since
writing a file does not change which paths name the same file (`Wrote.sameFile_iff`). -/
theorem template_of_writeText {path configPath : Path} {t : Template} {c : Config}
    (ht : t.WellFormed) (hstorable : t.Storable) {before between after : Disk}
    (hwrite : before.writeText path t.indentedSource = .ok between)
    (hconfig : between.writeText configPath c.toJson.indented = .ok after) :
    (¬ after.SameFile path configPath → Template.ofRead (after.read? path) = .ok t) ∧
      (after.SameFile path configPath → Template.ofRead (after.read? path) =
        .error (.badSource (.mismatch (.wrongType .map .sequence)))) := by
  obtain ⟨place, hnames, hwrote⟩ := Disk.wrote_of_writeText hwrite
  obtain ⟨place', hnames', hwrote'⟩ := Disk.wrote_of_writeText hconfig
  constructor
  · intro hapart
    -- Otherwise the configuration would have been written to the place of the template.
    have hother : ¬ between.Names path place' := fun hpath =>
      hapart ((hwrote'.sameFile_iff path configPath).mpr (.inr ⟨place', hpath, hnames'⟩))
    rw [hwrote'.read?_eq hother, hwrote.read? hnames]
    exact Document.templateOfSource_indentedSource ht hstorable
  · intro hsame
    rw [← hsame.read?_eq, hwrote'.read? hnames']
    exact templateOfSource_config c

/-- The `sample` is not too deep to be read again; its conditionals are two deep. -/
theorem sample_storable : (Template.ofContents Running.sample).Storable := by
  decide +kernel

section

variable (directory : Path) (template : String) (force : Bool) (d : Disk)

/-- However far the command comes, every file is `Spared` but those named by a path that was to be
written (`writes`). -/
theorem spared_foundation :
    Disk.Spared ([directory.join ⟨template⟩, directory.join ⟨Config.fileName⟩].filter
      (writes force d)) d (d.tryAll (foundation directory template force d)).2 := by
  refine Disk.tryAll_keeps (fun change hchange before after hspared hafter => ?_) (.refl _ d)
  rw [foundation] at hchange
  split at hchange
  case isFalse => exact absurd hchange List.not_mem_nil
  case isTrue hconfig =>
    rcases List.mem_append.mp hchange with hsample | hlast
    · split at hsample
      case isFalse => exact absurd hsample List.not_mem_nil
      case isTrue hpath =>
        rcases List.mem_cons.mp hsample with rfl | hsample
        · exact hspared.makeParent hafter
        · obtain rfl := List.mem_singleton.mp hsample
          exact hspared.writeText (List.mem_filter.mpr ⟨.head _, hpath⟩) hafter
    · obtain rfl := List.mem_singleton.mp hlast
      exact hspared.writeText (List.mem_filter.mpr ⟨.tail _ (.head _), hconfig⟩) hafter

/-- A command that succeeds after it has written the configuration has made every change of its
`foundation`. -/
theorem init_reads :
    let path := directory.join ⟨template⟩
    let configPath := directory.join ⟨Config.fileName⟩
    let ran := ((Command.init template force).run directory : StateM Disk Outcome) d
    ran.1.failure = none → writes force d configPath = true →
      Config.ofRead (ran.2.read? configPath) = .ok ⟨template, Config.usualNames⟩ ∧
        (writes force d path = true →
          (¬ ran.2.SameFile path configPath →
            Template.ofRead (ran.2.read? path) = .ok (.ofContents Running.sample)) ∧
          (ran.2.SameFile path configPath →
            Template.ofRead (ran.2.read? path) =
              .error (.badSource (.mismatch (.wrongType .map .sequence))))) := by
  intro path configPath ran hnone hconfig
  obtain ⟨printed, hrun⟩ := run_init directory template force d
  obtain ⟨⟨result, after⟩, hok⟩ : ∃ made, d.tryAll (foundation directory template force d) = made :=
    ⟨_, rfl⟩
  rw [hok] at hrun
  have hran : ran = (⟨printed, failure result⟩, after) := hrun
  rw [hran] at hnone ⊢
  obtain rfl := failure_eq_none.mp hnone
  rw [foundation, if_pos hconfig] at hok
  cases hpath : writes force d path with
  | false =>
    rw [show writes force d (directory.join ⟨template⟩) = false from hpath,
      if_neg Bool.false_ne_true, List.nil_append] at hok
    -- The template is kept, and writing the configuration is the only change.
    obtain ⟨last, hwrite, hok⟩ := Disk.tryAll_cons_eq_ok.mp hok
    obtain rfl := Disk.tryAll_nil_eq_ok.mp hok
    exact ⟨config_of_writeText hwrite, nofun⟩
  | true =>
    rw [show writes force d (directory.join ⟨template⟩) = true from hpath, if_pos rfl] at hok
    -- What was written is found whatever directories were made for it.
    obtain ⟨made, -, hok⟩ := Disk.tryAll_cons_eq_ok.mp hok
    obtain ⟨between, hsample, hok⟩ := Disk.tryAll_cons_eq_ok.mp hok
    obtain ⟨last, hwrite, hok⟩ := Disk.tryAll_cons_eq_ok.mp hok
    obtain rfl := Disk.tryAll_nil_eq_ok.mp hok
    exact ⟨config_of_writeText hwrite, fun _ => template_of_writeText
      (Template.ofContents_wellFormed _) sample_storable hsample hwrite⟩

/-- A file that is another than before is one that was written (`spared_foundation`).  If that was
because its path led nowhere, the path has two dots in it. -/
theorem init_spares :
    let path := directory.join ⟨template⟩
    let configPath := directory.join ⟨Config.fileName⟩
    let ran := ((Command.init template force).run directory : StateM Disk Outcome) d
    ∀ place bytes, d.view place = .file bytes → ran.2.view place = .file bytes ∨
      ∃ p ∈ [path, configPath], ran.2.Names p place ∧
        (force = true ∨ d.isPresent p = false ∧ ".." ∈ p.names) := by
  intro path configPath ran place bytes hview
  obtain ⟨printed, hrun⟩ := run_init directory template force d
  have hran : ran = _ := hrun
  rw [hran]
  rcases spared_foundation directory template force d place bytes hview with
    hkept | ⟨p, hp, hnames⟩
  · exact .inl hkept
  · obtain ⟨hmem, hwrites⟩ := List.mem_filter.mp hp
    refine .inr ⟨p, hmem, hnames, (writes_iff.mp hwrites).imp_right fun habsent => ?_⟩
    refine ⟨habsent, Classical.byContradiction fun hplain => ?_⟩
    have hpresent := hnames.isPresent hplain (hview.trans_ne (View.file_ne_nothing bytes))
    rw [habsent] at hpresent
    exact Bool.false_ne_true hpresent

end

/-- If `init` succeeds and the configuration was written, the configuration is found in the
directory, with the template that was asked for and the usual names.  If the template was written
too, it is found as the sample, unless the configuration was written over it.

However the command ends, a file is another than before only if it is the template or the
configuration and was to be replaced, or if the path of one of them leads through two dots, led
nowhere before the command and names the file after it. -/
theorem init_project (directory : Path) (template : String) (force : Bool) (d : Disk) :
    let path := directory.join ⟨template⟩
    let configPath := directory.join ⟨Config.fileName⟩
    let config : Config := ⟨template, Config.usualNames⟩
    let ran := ((Command.init template force).run directory : StateM Disk Outcome) d
    (ran.1.failure = none → force = true ∨ d.isPresent configPath = false →
      (Running.config directory : Running (StateM Disk) Config).on "" ran.2 =
        ((.ok config, ""), ran.2) ∧
      (force = true ∨ d.isPresent path = false →
        ∃ t, Template.parse Running.sampleSource = .ok t ∧
          let loaded := (Document.load (config.templatePath directory none) :
            StateM Disk (Except DocumentError Document)) ran.2
          (¬ ran.2.SameFile path configPath → loaded = (.ok ⟨t, 0, false, some path⟩, ran.2)) ∧
          (ran.2.SameFile path configPath → loaded =
            (.error (.badSource (.mismatch (.wrongType .map .sequence))), ran.2)))) ∧
    ∀ place bytes, d.view place = .file bytes → ran.2.view place = .file bytes ∨
      ∃ p ∈ [path, configPath], ran.2.Names p place ∧
        (force = true ∨ d.isPresent p = false ∧ ".." ∈ p.names) := by
  intro path configPath config ran
  refine ⟨fun hnone hconfig => ?_, init_spares directory template force d⟩
  obtain ⟨hread, hsample⟩ := init_reads directory template force d hnone
    (writes_iff.mpr hconfig)
  refine ⟨?_, fun hpath => ⟨_, Running.parse_sampleSource, ?_⟩⟩
  · rw [Running.on_config, hread]
  · obtain ⟨hapart, hsame⟩ := hsample (writes_iff.mpr hpath)
    intro loaded
    have hloaded : loaded = _ := Document.load_eq_ofRead path ran.2
    constructor
    · intro h
      rw [hloaded, hapart h]
      rfl
    · intro h
      rw [hloaded, hsame h]
      rfl

/-- A project whose template is in a directory of its own, made beside a file of notes. -/
theorem init_project_drafts :
    let d : Disk := ⟨[("notes.json", .file "[]".toUTF8)]⟩
    let path : Path := ⟨"/drafts/hello.json"⟩
    let config : Config := ⟨"drafts/hello.json", Config.usualNames⟩
    let ran := ((Command.init "drafts/hello.json" false).run ⟨"/"⟩ : StateM Disk Outcome) d
    ran.1.failure = none ∧
      (Running.config ⟨"/"⟩ : Running (StateM Disk) Config).on "" ran.2 =
        ((.ok config, ""), ran.2) ∧
      (∃ t, Template.parse Running.sampleSource = .ok t ∧
        (Document.load path : StateM Disk (Except DocumentError Document)) ran.2 =
          (.ok ⟨t, 0, false, some path⟩, ran.2)) ∧
      ran.2.view ["notes.json"] = .file "[]".toUTF8 := by
  intro d path config ran
  have hnone : ran.1.failure = none := by decide +kernel
  obtain ⟨hmade, hkept⟩ := init_project ⟨"/"⟩ "drafts/hello.json" false d
  obtain ⟨hconfig, hsample⟩ := hmade hnone (.inr (by decide +kernel))
  obtain ⟨t, ht, hapart, -⟩ := hsample (.inr (by decide +kernel))
  have hpath : ran.2.reach path = .ok ["drafts", "hello.json"] :=
    Outcome.toOption_eq_some.mp (by decide +kernel)
  have hother : ran.2.reach ⟨"/missive.config.json"⟩ = .ok ["missive.config.json"] :=
    Outcome.toOption_eq_some.mp (by decide +kernel)
  have hsame : ¬ ran.2.SameFile path ⟨"/missive.config.json"⟩ :=
    (Disk.names_of_reach hpath (by decide +kernel)).not_sameFile
      (Disk.names_of_reach hother (by decide +kernel)) (by decide)
  refine ⟨hnone, hconfig, ⟨t, ht, hapart hsame⟩, ?_⟩
  rcases hkept ["notes.json"] _ rfl with hview | ⟨p, hp, -, hforce | ⟨-, hdots⟩⟩
  · exact hview
  · exact absurd hforce Bool.false_ne_true
  · have hplain : ∀ p ∈ [path, ⟨"/missive.config.json"⟩], ".." ∉ p.names := by decide +kernel
    exact absurd hdots (hplain p hp)

/-- Notes that are written over without being asked for: their path leads through a directory that
is missing when it is looked at.  And a template that is written over by the configuration. -/
theorem init_writes_over :
    let d : Disk := ⟨[("notes.json", .file "[]".toUTF8)]⟩
    let ran := ((Command.init "new/../notes.json" false).run ⟨"/"⟩ : StateM Disk Outcome) d
    let own := ((Command.init "missive.config.json" false).run ⟨"/"⟩ : StateM Disk Outcome) ⟨[]⟩
    (ran.1.failure = none ∧ d.view ["notes.json"] = .file "[]".toUTF8 ∧
      ran.2.view ["notes.json"] ≠ .file "[]".toUTF8) ∧
    own.1.failure = none ∧
      (Document.load ⟨"/missive.config.json"⟩ : StateM Disk (Except DocumentError Document)) own.2 =
        (.error (.badSource (.mismatch (.wrongType .map .sequence))), own.2) := by
  intro d ran own
  have hnone : ran.1.failure = none := by decide +kernel
  have hreach : ran.2.reach ⟨"/new/../notes.json"⟩ = .ok ["notes.json"] :=
    Outcome.toOption_eq_some.mp (by decide +kernel)
  have hother : ran.2.reach ⟨"/missive.config.json"⟩ = .ok ["missive.config.json"] :=
    Outcome.toOption_eq_some.mp (by decide +kernel)
  have hapart : ¬ ran.2.SameFile ⟨"/new/../notes.json"⟩ ⟨"/missive.config.json"⟩ :=
    (Disk.names_of_reach hreach (by decide +kernel)).not_sameFile
      (Disk.names_of_reach hother (by decide +kernel)) (by decide)
  obtain ⟨-, hwritten⟩ := init_reads ⟨"/"⟩ _ false d hnone (by decide +kernel)
  have hsample := (hwritten (by decide +kernel)).1 hapart
  refine ⟨⟨hnone, rfl, fun hview => ?_⟩, ?_⟩
  · -- Then the notes would be read as the sample.
    have hread := Disk.read?_of_reach hreach
    rw [hview, View.text_toUTF8] at hread
    rw [show ran.2.read? (Path.join ⟨"/"⟩ ⟨"new/../notes.json"⟩) = _ from hread] at hsample
    have hnotes : (Document.templateOfSource "[]").toOption ≠
        some (.ofContents Running.sample) := by
      decide +kernel
    exact hnotes (Outcome.toOption_eq_some.mpr hsample)
  · have hnone' : own.1.failure = none := by decide +kernel
    obtain ⟨-, hwritten'⟩ := init_reads ⟨"/"⟩ _ false ⟨[]⟩ hnone' (by decide +kernel)
    have hconfig := (hwritten' (by decide +kernel)).2 (.inl rfl)
    refine ⟨hnone', (Document.load_eq_ofRead _ _).trans ?_⟩
    rw [show Template.ofRead (own.2.read? ⟨"/missive.config.json"⟩) = _ from hconfig]
    rfl

end Command

end MessageTemplate
