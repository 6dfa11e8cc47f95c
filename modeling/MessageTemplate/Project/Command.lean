/-
The configuration of a project, and the commands that can be given to it.

A `Config` says which file holds the template and which names are offered for insertion.  It is
kept as JSON next to the template.  Either field may be left out and then has its usual value
(`Config.ofFields`).

There are four commands: make a project, render its template, show its outline, and apply one edit
to it.  `Command.grammar` says how they are written on a command line, and `Request.read` gives the
`Command` that the words of one ask for.
-/
import MessageTemplate.Json.Union
import MessageTemplate.Json.Printer
import MessageTemplate.Disk.Files
import MessageTemplate.CommandLine.Grammar
import MessageTemplate.Edit.Basic

set_option autoImplicit false

namespace MessageTemplate

open Json CommandLine

/-! ## The configuration -/

/-- The configuration of a project: the file that holds the `template`, and the `names` offered for
insertion. -/
structure Config where
  template : String
  names : List String
  deriving DecidableEq, Repr, Inhabited

namespace Config

/-- The file that holds a `Config`, in the directory of the project. -/
def fileName : String := "missive.config.json"

/-- The `template` file of a project that names none. -/
def usualTemplate : String := "template.json"

/-- The `names` offered by a project that names none. -/
def usualNames : List String := ["firstname", "lastname", "company", "position"]

/-- The `Config` of a project that has none. -/
def usual : Config := ⟨usualTemplate, usualNames⟩

/-- A `Config` as JSON, with both fields written out. -/
def toJson (c : Config) : Value :=
  .object [("template", .string c.template), ("varNames", .array (c.names.map .string))]

/-- A `Config` as a `Record` of two fields.  Fields it does not know are ignored. -/
def record : Record (Option String × Option (List String)) where
  name := "Config"
  start := (none, none)
  fields :=
    [{ name := "template"
       given := fun s => s.1.isSome
       read := fun s => do return (some (← readString .string), s.2) },
     { name := "varNames"
       given := fun s => s.2.isSome
       read := fun s => do return (s.1, some (← readSequence (readString .string))) }]

/-- The `Config` of the fields given, each field that is missing having its `usual` value. -/
def ofFields (s : Option String × Option (List String)) : Config :=
  ⟨s.1.getD usualTemplate, s.2.getD usualNames⟩

/-- The `Config` that a source holds.  An array of fewer than two elements leaves fields out as
well. -/
def parse (source : String) : Except Fault Config :=
  decode (record.read (fun s => .ok (ofFields s)) (fun s => .ok (ofFields s))) source

/-- The `Path` of the template: the one asked for, or else the configured one, as seen from the
project's directory. -/
def templatePath (c : Config) (directory : Path) (asked : Option Path) : Path :=
  directory.join (asked.getD ⟨c.template⟩)

end Config

/-! ## Commands -/

/-- What is asked of a project.  A path that is not given is the configured one; only `init` always
has one, since it makes the configuration. -/
inductive Command where
  | init (template : String) (force : Bool)
  | render (template values : Option Path) (vars : List (String × String)) (rawValues : Bool)
  | outline (template : Option Path)
  | edit (template : Option Path) (edit : Edit)
  deriving DecidableEq, Repr

/-- A command line: the `command`, and whether to tell what is being done. -/
structure Request where
  command : Command
  verbose : Bool
  deriving DecidableEq, Repr

/-! ## Values of options -/

/-- A binding, a name and a value with `=` between them; the value may hold more of these.  A word
without one binds nothing. -/
def splitBinding (word : String) : Option (String × String) :=
  match word.toList.dropWhile (· ≠ '=') with
  | [] => none
  | _ :: value => some (String.ofList (word.toList.takeWhile (· ≠ '=')), String.ofList value)

/-- A caret: decimal digits, after a plus sign or not, for a number below `UInt64.size`. -/
def readCaret (word : String) : Option Nat :=
  let digits := match word.toList with
    | '+' :: rest => rest
    | all => all
  if digits = [] ∨ !digits.all Char.isDigit then none
  else
    let n := Nat.ofDigitChars 10 digits 0
    if n < UInt64.size then some n else none

/-- The `Judge` of a value by whether it can be read. -/
def meaningful {α : Type} (read : String → Option α) : Judge := fun word =>
  if (read word).isSome then .ok () else .error .badValue

/-- The `Judge` of a path, which must not be empty. -/
def somePath : Judge := fun word =>
  if word.isEmpty then .error .missingValue else .ok ()

/-! ## Grammar -/

namespace Command

/-- The options that every `Command` has. -/
def everywhere : List OptionRule :=
  [{ id := "verbose", long := "verbose", short := some 'v', role := .flag },
   { id := "help", long := "help", short := some 'h', role := .help }]

/-- The option for the `Path` of the template, of every command that reads one. -/
def templateOption : OptionRule :=
  { id := "template", long := "template", short := some 't', role := .value, judge := somePath }

/-- The argument that names a node by its `Address`.  It is not judged; an address that leads
nowhere is refused by the edit. -/
def addressArgument : PositionRule := { id := "address" }

/-- The argument that gives a caret, which must be a number that `readCaret` reads. -/
def caretArgument : PositionRule := { id := "caret", judge := meaningful readCaret }

/-- The argument that gives a text, which may be empty. -/
def textArgument : PositionRule := { id := "text" }

/-- The edits, each as a command of the `Grammar` with its arguments in order. -/
def editGrammar : List (String × Grammar) :=
  let options := everywhere ++ [templateOption]
  [("insert-text", .mk options [addressArgument, caretArgument, textArgument] []),
   ("replace-text", .mk options [addressArgument, textArgument] []),
   ("insert-if", .mk options [addressArgument, caretArgument] []),
   ("delete-if", .mk options [addressArgument] [])]

/-- The whole grammar.  The template of `init` is a text and is not judged, unlike the path that
`templateOption` asks for. -/
def grammar : Grammar :=
  .mk (everywhere ++ [{ id := "version", long := "version", short := some 'V', role := .version }])
    []
    [("init",
      .mk (everywhere ++
        [{ id := "template", long := "template", short := some 't', role := .value },
         { id := "force", long := "force", short := some 'f', role := .flag }]) [] []),
     ("render",
      .mk (everywhere ++
        [templateOption,
         { id := "values", long := "values", short := none, role := .value, judge := somePath },
         { id := "var", long := "var", short := none, role := .values,
           judge := meaningful splitBinding },
         { id := "raw-values", long := "raw-values", short := none, role := .flag }]) [] []),
     ("show", .mk (everywhere ++ [templateOption]) [] []),
     ("edit", .mk (everywhere ++ [templateOption]) [] editGrammar)]

/-! ## Meaning of what was read -/

/-- The value kept under a name at the innermost `Level` that has one. -/
def valueOf (levels : List Level) (id : String) : Option String :=
  levels.reverse.findSome? fun level => level.values.lookup id

/-- Whether a flag is given at any `Level`, that of the command or one above it. -/
def isGiven (levels : List Level) (id : String) : Bool :=
  (valueOf levels id).isSome

/-- All values kept under a name, in the order in which they were given. -/
def valuesOf (levels : List Level) (id : String) : List String :=
  levels.flatMap fun level => (level.values.filter fun v => v.1 = id).map Prod.snd

/-- The `Path` kept under a name, if one is given. -/
def pathOf (levels : List Level) (id : String) : Option Path :=
  (valueOf levels id).map Path.mk

/-- The `Edit` that is asked for by name, with the arguments that the grammar has seen to. -/
def editOf (levels : List Level) (name : String) : Option Edit := do
  let address : Address ← (valueOf levels "address").map Address.mk
  match name with
  | "insert-text" =>
    return .insertText address (← (valueOf levels "caret").bind readCaret)
      (← valueOf levels "text")
  | "replace-text" => return .replaceText address (← valueOf levels "text")
  | "insert-if" =>
    return .insertConditional address (← (valueOf levels "caret").bind readCaret)
  | "delete-if" => return .deleteConditional address
  | _ => none

/-- The command that the levels of a command line ask for, each level named by its
`Level.command`. -/
def ofLevels (levels : List Level) : Option Command :=
  let template := pathOf levels "template"
  match levels.map Level.command with
  | [_, "init"] => some (.init ((valueOf levels "template").getD "template.json")
      (isGiven levels "force"))
  | [_, "render"] => some (.render template (pathOf levels "values")
      ((valuesOf levels "var").filterMap splitBinding) (isGiven levels "raw-values"))
  | [_, "show"] => some (.outline template)
  | [_, "edit", name] => (editOf levels name).map (.edit template)
  | _ => none

end Command

/-- The `Request` that a command line makes, or the `UsageError`. -/
def Request.read (words : List String) : Except UsageError Request := do
  let levels ← CommandLine.read Command.grammar words
  match Command.ofLevels levels with
  | some command => .ok ⟨command, Command.isGiven levels "verbose"⟩
  | none => .error .missingCommand

end MessageTemplate
