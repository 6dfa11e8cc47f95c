/-
Edits one after the other, each as a command of its own.

Every command that edits starts from nothing: it reads the configuration and the template, edits,
and writes the template back (`Command.run_edit`).  All that one command leaves to the next is the
file.  That is enough, since what was saved gives the same template again as long as no text stands
too deep (`Document.ofSource_source`), and since writing the template does not touch the
configuration.  So after any commands the file is as if one document had been loaded at the start
and edited all along, and each command says of its edit what the document would have said.

The induction is on the number of commands.  What it carries is `Disk.Keeps`: that the configuration
reads as at the start and that the file of the template reads as the template of the document.
-/
import MessageTemplate.Proofs.Disk.Writing
import MessageTemplate.Proofs.Project.Steps
import MessageTemplate.Proofs.Session.Reload

set_option autoImplicit false

namespace MessageTemplate

/-! ## One edit -/

/-- What is printed of the `Focus`, where editing goes on. -/
def Focus.report : Option Focus → String
  | some focus => s!"  Focus: {focus.address.text} @ {focus.caret}"
  | none => "  Focus: unchanged"

/-- What is printed of an `Edit` that was saved: its name and address, where editing goes on, and
what the template says now. -/
def Edit.report (e : Edit) (focus : Option Focus) (preview : String) : String :=
  s!"  ✓ {e.name} {e.address.text}" ++ "\n" ++ Focus.report focus ++ "\n" ++
    ("  Preview: " ++ preview) ++ "\n"

namespace Document

variable {doc : Document} {p : Path} {d : Disk}

/-- `save` is `writeText` of the source to the file that the document was loaded from. -/
theorem save_eq (hp : doc.path = some p) :
    (doc.save : StateM Disk (Except DocumentError Unit × Document)) d =
      match d.writeText p doc.source with
      | .ok d' => ((.ok (), { doc with dirty := false }), d')
      | .error cause => ((.error (.file cause), doc), d) := by
  have hwrite := Disk.keep_eq (fun d => d.writeText p doc.source) d
  change (Files.writeText p doc.source : StateM Disk _) d = _ at hwrite
  rw [save, hp]
  dsimp only
  rw [Disk.bind_eq, hwrite]
  cases d.writeText p doc.source with
  | ok d' => rfl
  | error cause => rfl

end Document

section

variable {directory : Path} {asked : Option Path} {e : Edit} {config : Config} {t : Template}
  {d : Disk}

/-- What the command for an edit comes to where the configuration and the template are read. -/
theorem Command.run_edit
    (hconfig : Config.ofRead (d.read? (directory.join ⟨Config.fileName⟩)) = .ok config)
    (htemplate : Template.ofRead (d.read? (config.templatePath directory asked)) = .ok t) :
    ((Command.edit asked e).run directory : StateM Disk Outcome) d =
      match e.apply t with
      | .error cause => (⟨"", some (.document (.edit cause))⟩, d)
      | .ok edited =>
        match d.writeText (config.templatePath directory asked) edited.template.source with
        | .error cause => (⟨"", some (.document (.file cause))⟩, d)
        | .ok d' =>
          (⟨e.report edited.focus (edited.template.render (some (.blank config.names))), none⟩,
            d') := by
  have hreads := Running.on_config directory "" d
  rw [hconfig] at hreads
  have hloads := Running.on_document "" d (config.templatePath directory asked)
  rw [htemplate] at hloads
  have hsteps : ((Command.edit asked e).steps directory : Running (StateM Disk) Unit).on "" d = _ :=
    (Running.on_bind_of_ok hreads).trans (Running.on_bind_of_ok hloads)
  rw [Document.apply] at hsteps
  cases he : e.apply t with
  | error cause =>
    rw [he] at hsteps
    exact Command.run_of_error hsteps
  | ok edited =>
    rw [he] at hsteps
    let doc : Document := ⟨edited.template, 1, true, some (config.templatePath directory asked)⟩
    have hpath : doc.path = some (config.templatePath directory asked) := rfl
    have hsaves := Running.on_ask (doc.save : StateM Disk _) "" d
    rw [Document.save_eq hpath] at hsaves
    dsimp only
    cases hwrite : d.writeText (config.templatePath directory asked) edited.template.source with
    | error cause =>
      rw [show d.writeText _ doc.source = _ from hwrite] at hsaves
      exact Command.run_of_error (hsteps.trans (Running.on_bind_of_ok hsaves))
    | ok d' =>
      rw [show d.writeText _ doc.source = _ from hwrite] at hsaves
      refine Command.run_of_ok (hsteps.trans ((Running.on_bind_of_ok hsaves).trans ?_))
      cases edited.focus with
      | none => rfl
      | some focus => rfl

end

/-! ## Edits one after the other -/

/-- A disk after some edits, each run as a `Command.edit` of its own. -/
def Disk.afterEdits (directory : Path) (d : Disk) (commands : List (Option Path × Edit)) : Disk :=
  commands.foldl
    (fun d c => (((Command.edit c.1 c.2).run directory : StateM Disk Outcome) d).2) d

/-- A document after some edits, each by `Document.apply`; those that do not apply leave it as it
was. -/
def Document.afterEdits (doc : Document) (edits : List Edit) : Document :=
  edits.foldl (fun doc e => (doc.apply e).2) doc

/-- What every command finds: the configuration of the start, which is kept in another file
than the template, and in the file of the template the template of a document. -/
structure Disk.Keeps (directory p : Path) (config : Config) (d : Disk) (t : Template) : Prop where
  configured : Config.ofRead (d.read? (directory.join ⟨Config.fileName⟩)) = .ok config
  kept : Template.ofRead (d.read? p) = .ok t
  apart : ¬ d.SameFile p (directory.join ⟨Config.fileName⟩)

namespace Disk.Keeps

variable {directory p : Path} {config : Config} {d d' : Disk} {t : Template}

/-- The step in which the file changes.  A template that `writeText` put over the present one is
kept from then on, and every path of the file is still one. -/
theorem write (h : d.Keeps directory p config t) {t' : Template} (ht : t'.WellFormed)
    (hstorable : t'.Storable) {q : Path} (hq : d.SameFile p q)
    (hwrite : d.writeText q t'.source = .ok d') :
    d'.Keeps directory p config t' ∧ d'.bytes? p = some t'.source.toUTF8 ∧
      ∀ r, d.SameFile p r → d'.SameFile p r := by
  obtain ⟨place, hnames, hwrote⟩ := Disk.wrote_of_writeText hwrite
  have hp : d.Names p place := hq.symm.names hnames
  have hother : ¬ d.Names (directory.join ⟨Config.fileName⟩) place :=
    fun hconfig => h.apart (.inr ⟨place, hp, hconfig⟩)
  refine ⟨⟨?_, ?_, ?_⟩, hwrote.bytes? hp, fun r hr => (hwrote.sameFile_iff p r).mpr hr⟩
  · rw [hwrote.read?_eq hother, h.configured]
  · rw [hwrote.read? hp, Template.ofRead]
    obtain ⟨t'', ht'', hdoc⟩ :=
      Document.ofSource_eq_ok.mp ((Document.ofSource_source ht).1 hstorable)
    rw [ht'', ← (Document.mk.inj hdoc).1]
  · rw [hwrote.sameFile_iff]
    exact h.apart

/-- The step lemma: one command does to the file what `Document.apply` does to the document, and
says of it what the document says. -/
theorem run {doc : Document} (h : d.Keeps directory p config doc.template)
    (hwell : doc.template.WellFormed) {asked : Option Path} {e : Edit}
    (hfile : d.SameFile p (config.templatePath directory asked))
    (hstorable : (doc.apply e).2.template.Storable)
    (hwrite : ∀ change edited, doc.apply e = (.ok change, edited) →
      ∃ d', d.writeText (config.templatePath directory asked) edited.source = .ok d') :
    let ran := ((Command.edit asked e).run directory : StateM Disk Outcome) d
    (ran.2.Keeps directory p config (doc.apply e).2.template ∧
      ∀ r, d.SameFile p r → ran.2.SameFile p r) ∧
    (ran.1.failure = none ↔ ∃ change edited, doc.apply e = (.ok change, edited)) ∧
    (∀ change edited, doc.apply e = (.ok change, edited) →
      ran.1.printed = e.report change.focus (edited.render (some (.blank config.names))) ∧
        ran.2.bytes? p = some edited.source.toUTF8) ∧
    ∀ cause same, doc.apply e = (.error cause, same) →
      ran = (⟨"", some (.document cause)⟩, d) := by
  have hread : Template.ofRead (d.read? (config.templatePath directory asked)) =
      .ok doc.template := by
    rw [hfile.read?_eq, h.kept]
  have hrun := @Command.run_edit directory asked e _ _ _ h.configured hread
  intro ran
  cases he : e.apply doc.template with
  | error cause =>
    have happly : doc.apply e = (.error (.edit cause), doc) := by
      rw [Document.apply, he]
    rw [he] at hrun
    have hran : ran = (⟨"", some (.document (.edit cause))⟩, d) := hrun
    rw [happly, hran]
    refine ⟨⟨h, fun _ hr => hr⟩, ⟨?_, ?_⟩, ?_, ?_⟩
    · exact fun hnone => absurd hnone (Option.some_ne_none _)
    · rintro ⟨_, _, hok⟩
      exact absurd (Prod.mk.inj hok).1 (Outcome.error_ne_ok _ _)
    · exact fun _ _ hok => absurd (Prod.mk.inj hok).1 (Outcome.error_ne_ok _ _)
    · intro _ _ herror
      rw [Except.error.inj (Prod.mk.inj herror).1]
  | ok edited =>
    have happly : doc.apply e =
        (.ok ⟨doc.version + 1, edited.focus⟩, doc.replace edited.template) := by
      rw [Document.apply, he]
    obtain ⟨d', hd'⟩ := hwrite _ _ happly
    rw [happly] at hstorable
    obtain ⟨hkeeps, hbytes, hsame⟩ :=
      h.write (Edit.apply_wellFormed hwell he) hstorable hfile hd'
    rw [he] at hrun
    dsimp only at hrun
    rw [show d.writeText _ edited.template.source = .ok d' from hd'] at hrun
    have hran : ran = (⟨e.report edited.focus (edited.template.render (some
      (.blank config.names))), none⟩, d') := hrun
    rw [happly, hran]
    refine ⟨⟨hkeeps, hsame⟩, ⟨fun _ => ⟨_, _, rfl⟩, fun _ => rfl⟩, ?_, ?_⟩
    · intro _ _ hok
      obtain ⟨hchange, rfl⟩ := Prod.mk.inj hok
      obtain rfl := Except.ok.inj hchange
      exact ⟨rfl, hbytes⟩
    · exact fun _ _ herror => absurd (Prod.mk.inj herror).1.symm (Outcome.error_ne_ok _ _)

end Disk.Keeps

/-! ## Whether writing succeeds -/

/-- The command for an edit changes one file at most (`Disk.Wrote`). -/
theorem Command.edit_leaves (directory : Path) (asked : Option Path) (e : Edit) (d : Disk) :
    let d' := (((Command.edit asked e).run directory : StateM Disk Outcome) d).2
    d' = d ∨ ∃ place bytes, Disk.Wrote d place bytes d' := by
  intro d'
  have hreads := Running.on_config directory "" d
  cases hconfig : Config.ofRead (d.read? (directory.join ⟨Config.fileName⟩)) with
  | error cause =>
    rw [hconfig] at hreads
    have hsteps : ((Command.edit asked e).steps directory : Running (StateM Disk) Unit).on "" d =
        ((.error cause, ""), d) := Running.on_bind_of_error hreads
    exact .inl (congrArg Prod.snd (Command.run_of_error hsteps))
  | ok config =>
    rw [hconfig] at hreads
    have hloads := Running.on_document "" d (config.templatePath directory asked)
    cases ht : Template.ofRead (d.read? (config.templatePath directory asked)) with
    | error cause =>
      rw [ht] at hloads
      have hsteps : ((Command.edit asked e).steps directory : Running (StateM Disk) Unit).on
          "" d = ((.error (.document cause), ""), d) :=
        (Running.on_bind_of_ok hreads).trans (Running.on_bind_of_error hloads)
      exact .inl (congrArg Prod.snd (Command.run_of_error hsteps))
    | ok t =>
      have hrun := @Command.run_edit directory asked e _ _ _ hconfig ht
      cases he : e.apply t with
      | error cause =>
        rw [he] at hrun
        exact .inl (congrArg Prod.snd hrun)
      | ok edited =>
        rw [he] at hrun
        dsimp only at hrun
        cases hwrite : d.writeText (config.templatePath directory asked)
          edited.template.source with
        | error cause =>
          rw [hwrite] at hrun
          exact .inl (congrArg Prod.snd hrun)
        | ok d'' =>
          rw [hwrite] at hrun
          have hd : d' = d'' := congrArg Prod.snd hrun
          obtain ⟨place, -, hwrote⟩ := Disk.wrote_of_writeText hwrite
          exact .inr ⟨place, _, hd ▸ hwrote⟩

/-- A file that could be written at the start can be written after any edits: `writeText` asks only
for directories, and the commands make and remove none. -/
theorem Disk.writeText_afterEdits (directory : Path) {p : Path} {place : Place} (s : String)
    (commands : List (Option Path × Edit)) : ∀ {d : Disk},
      d.Names p place → d.view place ≠ .directory →
        ∃ d', (d.afterEdits directory commands).writeText p s = .ok d' := by
  induction commands with
  | nil => exact fun hp hplace => ⟨_, writeText_eq_ok.mpr ⟨place, hp, hplace, rfl⟩⟩
  | cons c rest ih =>
    intro d hp hplace
    show ∃ d', (Disk.afterEdits directory
      (((Command.edit c.1 c.2).run directory : StateM Disk Outcome) d).2 rest).writeText p s =
        .ok d'
    rcases Command.edit_leaves directory c.1 c.2 d with hsame | ⟨other, bytes, hwrote⟩
    · rw [hsame]
      exact ih hp hplace
    · exact ih ((hwrote.names_iff p place).mpr hp)
        fun hview => hplace ((hwrote.directory_iff place).mp hview)

/-! ## Any number of edits -/

theorem Document.afterEdits_wellFormed (edits : List Edit) : ∀ {doc : Document},
    doc.template.WellFormed → (doc.afterEdits edits).template.WellFormed := by
  induction edits with
  | nil => exact fun h => h
  | cons e rest ih => exact fun h => ih (apply_wellFormed h e)

section

variable {directory p : Path} {config : Config} {d : Disk} {doc : Document}
  {commands : List (Option Path × Edit)} {n : Nat} {asked : Option Path} {e : Edit}

theorem Disk.afterEdits_take_succ (h : commands[n]? = some (asked, e)) :
    d.afterEdits directory (commands.take (n + 1)) =
      (((Command.edit asked e).run directory : StateM Disk Outcome)
        (d.afterEdits directory (commands.take n))).2 := by
  rw [afterEdits, List.take_add_one, h, List.foldl_append]
  rfl

theorem Document.afterEdits_take_succ (h : commands[n]? = some (asked, e)) :
    doc.afterEdits ((commands.take (n + 1)).map Prod.snd) =
      ((doc.afterEdits ((commands.take n).map Prod.snd)).apply e).2 := by
  rw [afterEdits, List.take_add_one, h, List.map_append, List.foldl_append]
  rfl

/-- The run lemma: after any number of commands the file keeps (`Disk.Keeps`) the template of the
document after as many edits, and every path that led to the file leads there still. -/
theorem Disk.Keeps.afterEdits (h : d.Keeps directory p config doc.template)
    (hwell : doc.template.WellFormed)
    (hfile : ∀ c ∈ commands, d.SameFile p (config.templatePath directory c.1))
    (hstorable : ∀ n, (doc.afterEdits ((commands.take n).map Prod.snd)).template.Storable)
    (hwrites : ∀ n asked e change edited, commands[n]? = some (asked, e) →
      (doc.afterEdits ((commands.take n).map Prod.snd)).apply e = (.ok change, edited) →
        ∃ d', (d.afterEdits directory (commands.take n)).writeText
          (config.templatePath directory asked) edited.source = .ok d') (n : Nat) :
    (d.afterEdits directory (commands.take n)).Keeps directory p config
        (doc.afterEdits ((commands.take n).map Prod.snd)).template ∧
      ∀ r, d.SameFile p r → (d.afterEdits directory (commands.take n)).SameFile p r := by
  induction n with
  | zero => exact ⟨h, fun _ hr => hr⟩
  | succ n ih =>
    obtain ⟨hkeeps, hsame⟩ := ih
    cases hc : commands[n]? with
    | none =>
      -- There are no more commands.
      rw [List.take_add_one, hc, Option.toList_none, List.append_nil]
      exact ⟨hkeeps, hsame⟩
    | some c =>
      obtain ⟨asked, e⟩ := c
      have hnext := hstorable (n + 1)
      rw [Document.afterEdits_take_succ hc] at hnext ⊢
      rw [Disk.afterEdits_take_succ hc]
      obtain ⟨⟨hkeeps', hsame'⟩, -⟩ := hkeeps.run (Document.afterEdits_wellFormed _ hwell)
        (hsame _ (hfile (asked, e) (List.mem_of_getElem? hc))) hnext
        fun change edited => hwrites n asked e change edited hc
      exact ⟨hkeeps', fun r hr => hsame' r (hsame r hr)⟩

/-- A document is loaded from the file of a template, and then any edits are made to it.  Made
by commands instead, each of which reads the configuration, loads the file, edits and writes,
the same edits leave the same behind, provided that the file is not that of the configuration,
that no text comes to stand inside more than sixty-two conditionals and that writing succeeds.
After every command the file gives the template of the document.  A command succeeds exactly
when its edit applies to the document; then it prints the focus that the document gives, and
the bytes of the file are the source of the document; otherwise it fails with the document's
refusal and changes nothing. -/
theorem Disk.afterEdits_document
    (hconfig : (Running.config directory).on "" d = ((.ok config, ""), d))
    (hload : (Document.load p : StateM Disk (Except DocumentError Document)) d = (.ok doc, d))
    (hapart : ¬ d.SameFile p (directory.join ⟨Config.fileName⟩))
    (hfile : ∀ c ∈ commands, d.SameFile p (config.templatePath directory c.1))
    (hdepth : ∀ n, ∀ v ∈ (doc.afterEdits ((commands.take n).map Prod.snd)).template.walk,
      v.2.kind = .text → v.1 ≤ 62)
    (hwrites : ∀ n asked e change edited, commands[n]? = some (asked, e) →
      (doc.afterEdits ((commands.take n).map Prod.snd)).apply e = (.ok change, edited) →
        ∃ d', (d.afterEdits directory (commands.take n)).writeText
          (config.templatePath directory asked) edited.source = .ok d') :
    (∀ n, ∃ loaded, (Document.load p : StateM Disk (Except DocumentError Document))
        (d.afterEdits directory (commands.take n)) =
          (.ok loaded, d.afterEdits directory (commands.take n)) ∧
        loaded.template = (doc.afterEdits ((commands.take n).map Prod.snd)).template) ∧
    ∀ n asked e, commands[n]? = some (asked, e) →
      let now := doc.afterEdits ((commands.take n).map Prod.snd)
      let ran := ((Command.edit asked e).run directory : StateM Disk Outcome)
        (d.afterEdits directory (commands.take n))
      (ran.1.failure = none ↔ ∃ change edited, now.apply e = (.ok change, edited)) ∧
      (∀ change edited, now.apply e = (.ok change, edited) →
        ran.1.printed = e.report change.focus (edited.render (some (.blank config.names))) ∧
          ran.2.bytes? p = some edited.source.toUTF8) ∧
      ∀ cause same, now.apply e = (.error cause, same) →
        ran = (⟨"", some (.document cause)⟩, d.afterEdits directory (commands.take n)) := by
  have hwell : doc.template.WellFormed := (Document.Opened.load hload).wellFormed
  have hkeeps : d.Keeps directory p config doc.template := by
    rw [Running.on_config, Prod.mk.injEq, Prod.mk.injEq] at hconfig
    rw [Document.load_eq_ofRead, Prod.mk.injEq, Outcome.map_eq_ok] at hload
    obtain ⟨⟨t, ht, rfl⟩, -⟩ := hload
    exact ⟨hconfig.1.1, ht, hapart⟩
  have hafter := hkeeps.afterEdits hwell hfile hdepth hwrites
  refine ⟨fun n => ?_, fun n asked e hc => ?_⟩
  · rw [Document.load_eq_ofRead, (hafter n).1.kept]
    exact ⟨_, rfl, rfl⟩
  · intro now ran
    have hnext := hdepth (n + 1)
    rw [Document.afterEdits_take_succ hc] at hnext
    have hsame := (hafter n).2 _ (hfile (asked, e) (List.mem_of_getElem? hc))
    exact ((hafter n).1.run (Document.afterEdits_wellFormed _ hwell) hsame hnext
      fun change edited => hwrites n asked e change edited hc).2

end

/-- On an empty disk a text comes to be, is split under another spelling of the path, and a
conditional that does not exist is not deleted. -/
theorem Disk.afterEdits_document_spelled :
    let commands : List (Option Path × Edit) :=
      [(none, .insertText ⟨"/0-text"⟩ 0 "ab"),
        (some ⟨"./template.json"⟩, .insertConditional ⟨"/0-text"⟩ 1),
        (none, .deleteConditional ⟨"/7-if"⟩)]
    let d := Disk.afterEdits ⟨"/"⟩ ⟨[]⟩ (commands.take 2)
    (∃ loaded, (Document.load ⟨"/template.json"⟩ : StateM Disk (Except DocumentError Document)) d =
        (.ok loaded, d) ∧ loaded.template.nodes.length = 3) ∧
      (((Command.edit none (.deleteConditional ⟨"/7-if"⟩)).run ⟨"/"⟩ :
        StateM Disk Outcome) d).1.failure ≠ none := by
  intro commands d
  let start : Disk := ⟨[]⟩
  let p : Path := ⟨"/template.json"⟩
  let doc : Document := ⟨.blank, 0, false, some p⟩
  have hnothing : ∀ q : Path, start.isPresent q = false → start.read? q = none :=
    fun q hq => if_neg (by rw [hq]; exact Bool.false_ne_true)
  have hconfig : (Running.config ⟨"/"⟩).on "" start = ((.ok .usual, ""), start) := by
    rw [Running.on_config, hnothing _ (by decide +kernel)]
    rfl
  have hload : (Document.load p : StateM Disk _) start = (.ok doc, start) := by
    rw [Document.load_eq_ofRead, hnothing _ (by decide +kernel)]
    rfl
  have htemplate : start.Names p ["template.json"] := Disk.names_top (by decide +kernel)
  have hspelled : start.Names ⟨"/./template.json"⟩ ["template.json"] :=
    Disk.names_top (by decide +kernel)
  have hconfigured : start.Names (Path.join ⟨"/"⟩ ⟨Config.fileName⟩) [Config.fileName] :=
    Disk.names_top (by decide +kernel)
  have hapart : ¬ start.SameFile p (Path.join ⟨"/"⟩ ⟨Config.fileName⟩) :=
    fun hsame => absurd ((hsame.names htemplate).inj hconfigured) (by decide)
  have hfile : ∀ c ∈ commands, start.SameFile p (Config.usual.templatePath ⟨"/"⟩ c.1) := by
    have hpaths : ∀ c ∈ commands, Config.usual.templatePath ⟨"/"⟩ c.1 = p ∨
        Config.usual.templatePath ⟨"/"⟩ c.1 = ⟨"/./template.json"⟩ := by
      decide +kernel
    intro c hc
    rcases hpaths c hc with hpath | hpath
    · exact .inl hpath.symm
    · exact .inr ⟨_, htemplate, hpath ▸ hspelled⟩
  have hdepth : ∀ n, ∀ v ∈ (doc.afterEdits ((commands.take n).map Prod.snd)).template.walk,
      v.2.kind = .text → v.1 ≤ 62 := by
    intro n
    rcases n with _ | _ | _ | n
    · decide +kernel
    · decide +kernel
    · decide +kernel
    · rw [List.take_of_length_le (Nat.le_add_left 3 n)]
      decide +kernel
  obtain ⟨hloads, hruns⟩ := Disk.afterEdits_document hconfig hload hapart hfile hdepth
    fun n asked e _ edited hc _ => Disk.writeText_afterEdits ⟨"/"⟩ edited.source _
      ((hfile (asked, e) (List.mem_of_getElem? hc)).names htemplate) nofun
  constructor
  · obtain ⟨loaded, hloaded, ht⟩ := hloads 2
    refine ⟨loaded, hloaded, ?_⟩
    rw [ht]
    decide +kernel
  · obtain ⟨hsucceeds, -⟩ := hruns 2 none (.deleteConditional ⟨"/7-if"⟩) rfl
    rw [Ne, hsucceeds]
    rintro ⟨change, edited, happly⟩
    have hrefused : ((doc.afterEdits ((commands.take 2).map Prod.snd)).apply
        (.deleteConditional ⟨"/7-if"⟩)).1.toOption = none := by
      decide +kernel
    rw [happly] at hrefused
    exact absurd hrefused (Option.some_ne_none change)

end MessageTemplate
