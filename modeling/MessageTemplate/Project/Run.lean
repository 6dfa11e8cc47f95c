/-
Running the commands of a project.

A command works in a directory: it reads the configuration there, finds the template, and prints
what it has to say.  What it prints before it fails stays printed.

A command under way is a `Running` action, which can print, fail, and ask the class `Files` for its
files.  Where these come from is left open, so a command can be run on the files of a machine and
reasoned about on a disk that is a value.  `Command.run` turns the whole into an `Outcome`.
-/
import MessageTemplate.Project.Command
import MessageTemplate.Session.Document
import MessageTemplate.Tree.Outline

set_option autoImplicit false

namespace MessageTemplate

/-! ## Failures -/

/-- Why a `Command` fails.  Refusals of documents and of files keep their own words; a file of
values has words of its own, with its path. -/
inductive CommandError where
  | badConfig (fault : Json.Fault)
  | file (cause : FileError)
  | document (cause : DocumentError)
  | noValuesFile (path : Path)
  | badValuesFile (path : Path) (fault : Json.Fault)
  deriving DecidableEq, Repr

namespace CommandError

/-- The message of a failure, without the `Fault` of some JSON in detail. -/
def headline : CommandError → String
  | .badConfig _ => "JSON"
  | .file cause => cause.text
  | .document cause => cause.headline
  | .noValuesFile path => s!"Cannot read values file {path.text}"
  | .badValuesFile path _ => s!"{path.text} is not a JSON object of strings"

/-- The message of a failure.  For a configuration this is the fault alone, as its `headline` would
say nothing more. -/
def text : CommandError → String
  | .badConfig fault => fault.text
  | .document cause => cause.text
  | .badValuesFile path fault => headline (.badValuesFile path fault) ++ ": " ++ fault.text
  | e => e.headline

end CommandError

/-- What is shown of a failure with the `text` of its message, apart from all other output. -/
def failureNotice (message : String) : String := "\nError: " ++ message ++ "\n"

/-! ## Steps of a command -/

/-- A command under way: it may fail with a `CommandError`, and it has printed a text, which a
failure does not take back. -/
abbrev Running (m : Type → Type) := ExceptT CommandError (StateT String m)

namespace Running

variable {m : Type → Type} [Monad m] [Files m]

/-- Prints a line, which is all output of a `Running` command so far and this line. -/
def say (line : String) : Running m Unit :=
  modify fun printed => printed ++ line ++ "\n"

/-- Asks something of the `Files`, which cannot fail. -/
def ask {α : Type} (action : m α) : Running m α :=
  liftM (m := StateT String m) (liftM action)

/-- Does something with the files, which may fail; `reason` says what its failure means for the
command. -/
def attempt {ε α : Type} (reason : ε → CommandError) (action : m (Except ε α)) : Running m α := do
  match ← ask action with
  | .ok a => pure a
  | .error e => throw (reason e)

/-! ## Parts of commands -/

/-- The configuration in a directory; without a file for it, `Config.usual`. -/
def config (directory : Path) : Running m Config := do
  let path := directory.join ⟨Config.fileName⟩
  if ← ask (Files.isPresent path) then
    let source ← attempt .file (Files.readText path)
    match Config.parse source with
    | .ok config => pure config
    | .error fault => throw (.badConfig fault)
  else pure .usual

/-- The `Document` at a path, which is the blank one if there is no file. -/
def document (path : Path) : Running m Document :=
  attempt .document (Document.load path)

/-- The bindings in a file of values, in the order of the file, read by `readMap`. -/
def bindings (path : Path) : Running m (List (String × String)) := do
  let source ← attempt (fun _ => .noValuesFile path) (Files.readText path)
  match Json.decode (Json.readMap (Json.readString .string)) source with
  | .ok bindings => pure bindings
  | .error fault => throw (.badValuesFile path fault)

/-! ## The commands -/

/-- The template of a new project, written by `init`.  It shows a placeholder, a conditional, and
one inside another. -/
def sample : List Content :=
  [.text "Hello, \x7bfirstname\x7d.",
   .conditional [.text "\x7bcompany\x7d"]
     [.text " I know you work at \x7bcompany\x7d",
      .conditional [.text "\x7bposition\x7d"] [.text " as \x7bposition\x7d"]
        [.text ", but what is your role?"],
      .text " ;)"]
     [.text " Where do you work at the moment?"],
   .text " Kindest regards, John."]

/-- Makes a project.  What exists is kept unless `force` says that it is to be replaced: with a
configuration in place nothing is done at all, and a template in place is kept by itself. -/
def init (directory : Path) (template : String) (force : Bool) : Running m Unit := do
  let configPath := directory.join ⟨Config.fileName⟩
  if (← ask (Files.isPresent configPath)) && !force then
    say s!"⚠️ {Config.fileName} already exists"
    say "Use --force to overwrite"
  else
    say "📝 Initializing Missive project..."
    let path := directory.join ⟨template⟩
    if force || !(← ask (Files.isPresent path)) then
      attempt .file (Files.makeParent path)
      attempt .file (Files.writeText path (Template.ofContents sample).indentedSource)
      say s!"  ✓ Created {template}"
    let config : Config := ⟨template, Config.usualNames⟩
    attempt .file (Files.writeText configPath config.toJson.indented)
    say s!"  ✓ Created {Config.fileName}"
    say ""
    say "✅ Project initialized!"
    say ""
    say "Next steps:"
    say "  1. Run: missive show"
    say "  2. Run: missive render --var firstname=Peter --var company=\"Web Studio\""

/-- Prints what the template says by `Template.render`.  The configured names are blank, unless only
the values given are wanted; a file of values comes over that, and single values over both. -/
def render (directory : Path) (template values : Option Path) (vars : List (String × String))
    (rawValues : Bool) : Running m Unit := do
  let config ← config directory
  let document ← document (config.templatePath directory template)
  let known := if rawValues then Values.empty else Values.blank config.names
  let filed ← match values with
    | some path => bindings (directory.join path)
    | none => pure []
  say (document.render (some ((known.extend filed).extend vars)))

/-- Prints the `Template.outline`, and the placeholders that the configuration does not know. -/
def outline (directory : Path) (template : Option Path) : Running m Unit := do
  let config ← config directory
  let path := config.templatePath directory template
  let document ← document path
  say path.text
  for line in document.template.outline do
    say ("  " ++ line)
  let unknown := document.template.unknownPlaceholders config.names
  if !unknown.isEmpty then
    say ""
    say ("⚠️ placeholders not in varNames: " ++ ", ".intercalate unknown)

/-- Applies an `Edit` to the template and saves it.  Nothing is printed before the file is written,
so who sees a line knows that the edit is kept. -/
def edit (directory : Path) (template : Option Path) (e : Edit) : Running m Unit := do
  let config ← config directory
  let document ← document (config.templatePath directory template)
  match document.apply e with
  | (.error cause, _) => throw (.document cause)
  | (.ok change, edited) =>
    let (saved, kept) ← ask edited.save
    match saved with
    | .error cause => throw (.document cause)
    | .ok _ =>
      say s!"  ✓ {e.name} {e.address.text}"
      match change.focus with
      | some focus => say s!"  Focus: {focus.address.text} @ {focus.caret}"
      | none => say "  Focus: unchanged"
      say ("  Preview: " ++ kept.render (some (.blank config.names)))

end Running

/-! ## Whole runs -/

/-- What a run comes to: what it `printed`, and the `failure`, if it failed. -/
structure Outcome where
  printed : String
  failure : Option CommandError
  deriving DecidableEq, Repr

namespace Command

variable {m : Type → Type} [Monad m] [Files m]

/-- The steps of a `Command` in a directory, before anything is printed. -/
def steps (directory : Path) : Command → Running m Unit
  | .init template force => Running.init directory template force
  | .render template values vars rawValues =>
    Running.render directory template values vars rawValues
  | .outline template => Running.outline directory template
  | .edit template e => Running.edit directory template e

/-- Runs the `steps` of a command in a directory, with nothing printed yet. -/
def run (directory : Path) (c : Command) : m Outcome := do
  match ← (c.steps directory).run "" with
  | (.ok _, printed) => return ⟨printed, none⟩
  | (.error e, printed) => return ⟨printed, some e⟩

end Command

namespace Outcome

/-- A run with a `failure` ends with exit code one, whatever the failure. -/
def exitCode (o : Outcome) : Nat :=
  if o.failure.isSome then 1 else 0

end Outcome

end MessageTemplate
