/-
The grammar of a command line.

A command has options, arguments known by their position, and commands below it.  Words are read
from left to right.  A word after an option that needs a value is that value; a word that names a
command hands the rest over to it; after a bare double dash every word is an argument.

A value is judged when the next word shows that it is complete (`Reading.settle`), and a command
below is judged before the one above it (`conclude`), so which of two errors is reported follows
from where they stand.
-/

set_option autoImplicit false

namespace MessageTemplate.CommandLine

/-! ## Usage errors -/

/-- What is wrong with a command line, or what it asks for instead of being run. -/
inductive UsageError where
  | unknownArgument
  | missingValue
  | badValue
  | missingArgument
  | unknownCommand
  | missingCommand
  | repeatedArgument
  | tooManyValues
  | helpAsked
  | versionAsked
  | nothingGiven
  deriving DecidableEq, Repr

namespace UsageError

/-- The name of a kind of `UsageError`, by which it is told apart in what is reported. -/
def name : UsageError → String
  | .unknownArgument => "UnknownArgument"
  | .missingValue => "InvalidValue"
  | .badValue => "ValueValidation"
  | .missingArgument => "MissingRequiredArgument"
  | .unknownCommand => "InvalidSubcommand"
  | .missingCommand => "MissingSubcommand"
  | .repeatedArgument => "ArgumentConflict"
  | .tooManyValues => "TooManyValues"
  | .helpAsked => "DisplayHelp"
  | .versionAsked => "DisplayVersion"
  | .nothingGiven => "DisplayHelpOnMissingArgumentOrSubcommand"

/-- The exit code of a command line that is not run, by its `UsageError`.  Asking for help or for
the version is no failure. -/
def exitCode : UsageError → Nat
  | .helpAsked => 0
  | .versionAsked => 0
  | _ => 2

end UsageError

/-! ## Rules -/

/-- What an option is for.  A `flag` has no value, a `value` has one, and `values` may be given more
than once. -/
inductive Role where
  | flag
  | value
  | values
  | help
  | version
  deriving DecidableEq, Repr

/-- How the value of an option or argument is judged: any `UsageError` but `ok` says what is wrong
with it. -/
abbrev Judge := String → Except UsageError Unit

/-- The `Judge` for whom every value is good. -/
def anyValue : Judge := fun _ => .ok ()

/-- An option: the `id` under which it is kept, how it is written, and what it is for. -/
structure OptionRule where
  id : String
  long : String
  short : Option Char
  role : Role
  judge : Judge := anyValue

/-- An argument known by its position, and the `Judge` of its value. -/
structure PositionRule where
  id : String
  judge : Judge := anyValue

/-- A command as it may be called.  One with `commands` below it needs one of them. -/
inductive Grammar where
  | mk (options : List OptionRule) (positions : List PositionRule)
      (commands : List (String × Grammar))

namespace Grammar

/-- The options of a `Grammar`.  They hold for this command alone; a command below has to list its
own. -/
def options : Grammar → List OptionRule
  | .mk options _ _ => options

/-- The arguments of a `Grammar`, in order. -/
def positions : Grammar → List PositionRule
  | .mk _ positions _ => positions

/-- The commands below a `Grammar`, by their names. -/
def commands : Grammar → List (String × Grammar)
  | .mk _ _ commands => commands

end Grammar

/-! ## State of a command being read -/

/-- A value whose turn has not come: whose it is, whether there may be more of them, and the word,
if it has been read. -/
structure Pending where
  id : String
  repeatable : Bool
  judge : Judge
  word : Option String

/-- A command being read: the values kept so far in order, the value whose turn has not come, how
many arguments have been read, and whether every further word is an argument. -/
structure Reading where
  kept : List (String × String)
  pending : Option Pending
  arguments : Nat
  verbatim : Bool

namespace Reading

/-- The `Reading` of a command of which nothing has been read. -/
def start : Reading := ⟨[], none, 0, false⟩

/-- Whether a value has been kept under a name: then `keep` takes another one only from an option
that may be repeated. -/
def has (r : Reading) (id : String) : Bool :=
  r.kept.any fun k => k.1 = id

/-- Keeps a value, unless there is one and may be no other.  That is looked at first, so a bad value
given twice is reported as repeated. -/
def keep (r : Reading) (p : Pending) (word : String) : Except UsageError Reading := do
  if !p.repeatable && r.has p.id then throw .repeatedArgument
  p.judge word
  return { r with kept := r.kept ++ [(p.id, word)], pending := none }

/-- Judges the `pending` value, whose turn it is now; a value of which no word has been read is
missing. -/
def settle (r : Reading) : Except UsageError Reading :=
  match r.pending with
  | none => .ok r
  | some p =>
    match p.word with
    | none => .error .missingValue
    | some word => r.keep p word

/-- Whether the next word is the value of an option, as the `pending` value has no word yet. -/
def awaitsValue (r : Reading) : Bool :=
  match r.pending with
  | some p => p.word.isNone
  | none => false

/-- An option that has been met, with the value attached to it, if any.  The value before it is
complete now, so this has to `settle` first; without an attached value the next word is awaited. -/
def option (r : Reading) (rule : OptionRule) (attached : Option String) :
    Except UsageError Reading := do
  let pending : Pending := ⟨rule.id, rule.role = .values, rule.judge, none⟩
  let r ← r.settle
  match rule.role with
  | .help => throw .helpAsked
  | .version => throw .versionAsked
  | .flag => r.keep pending ""
  | .value | .values =>
    match attached with
    | some word => r.keep pending word
    | none => return { r with pending := some pending }

end Reading

/-- Whether an option of this `Role` is followed by a value. -/
def Role.takesValue : Role → Bool
  | .value => true
  | .values => true
  | _ => false

/-! ## Words -/

/-- Reads a long option: its name, and the value after a `=`, if there is one. -/
def longOption (g : Grammar) (r : Reading) (word : List Char) : Except UsageError Reading :=
  let name := String.ofList (word.takeWhile (· ≠ '='))
  let attached := match word.dropWhile (· ≠ '=') with
    | [] => none
    | _ :: value => some (String.ofList value)
  match g.options.find? (fun o => o.long = name) with
  | none => .error .unknownArgument
  | some rule =>
    if attached.isSome && !rule.role.takesValue then .error .tooManyValues
    else r.option rule attached

/-- Reads a run of short options.  The first that needs a value takes the rest of the word for it,
without a `=` in front. -/
def shortOptions (g : Grammar) (r : Reading) : List Char → Except UsageError Reading
  | [] => .ok r
  | c :: rest =>
    match g.options.find? (fun o => o.short = some c) with
    | none => .error .unknownArgument
    | some rule =>
      if rule.role.takesValue then
        let attached := match rest with
          | [] => none
          | '=' :: value => some (String.ofList value)
          | value => some (String.ofList value)
        r.option rule attached
      else
        match r.option rule none with
        | .error e => .error e
        | .ok r => shortOptions g r rest

/-- Reads a word that is no option: the value that is waited for, or an argument.  What is wrong
with a word that has no place depends on whether a command was still expected. -/
def plainWord (g : Grammar) (r : Reading) (word : String) : Except UsageError Reading :=
  match r.pending, r.awaitsValue && !r.verbatim with
  | some p, true => .ok { r with pending := some { p with word := some word } }
  | _, _ =>
    match g.positions[r.arguments]? with
    | some rule =>
      match r.settle with
      | .error e => .error e
      | .ok r =>
        .ok { r with
          pending := some ⟨rule.id, false, rule.judge, some word⟩
          arguments := r.arguments + 1 }
    | none =>
      if g.commands.isEmpty then .error .unknownArgument
      else if r.verbatim && (word = "help" || (g.commands.lookup word).isSome) then
        .error .unknownArgument
      else .error .unknownCommand

/-- Reads a word that is not the name of a command, by the dashes it starts with: `longOption`,
`shortOptions` or `plainWord`. -/
def nextWord (g : Grammar) (r : Reading) (word : String) : Except UsageError Reading :=
  if r.verbatim then plainWord g r word
  else
    match word.toList with
    | ['-', '-'] => .ok { r with verbatim := true }
    | '-' :: '-' :: rest => longOption g r rest
    | '-' :: c :: rest => shortOptions g r (c :: rest)
    | _ => plainWord g r word

/-! ## Whole command lines -/

/-- The `values` of one command, with the name by which it was called. -/
structure Level where
  command : String
  values : List (String × String)
  deriving DecidableEq, Repr

/-- Judges the `Reading` of a command whose words have all been read.  A missing command is reported
before a missing argument. -/
def conclude (g : Grammar) (r : Reading) (command : String) (hasCommand : Bool) :
    Except UsageError Level := do
  let r ← r.settle
  if !hasCommand && !g.commands.isEmpty then
    if r.kept.isEmpty then throw .nothingGiven else throw .missingCommand
  if g.positions.any fun p => !r.has p.id then throw .missingArgument
  return ⟨command, r.kept⟩

/-- The `UsageError` that answers a question for help, which may name a command and those below
it. -/
def helpFor : Grammar → List String → UsageError
  | _, [] => .helpAsked
  | g, word :: rest =>
    if word = "help" && !g.commands.isEmpty then
      if rest.isEmpty then .helpAsked else .unknownCommand
    else
      match g.commands.lookup word with
      | some below => helpFor below rest
      | none => .unknownCommand

/-- Reads the words of a command, each by `nextWord`: its own values and those of the commands below
it that are given. -/
def readFrom (g : Grammar) (command : String) (r : Reading) :
    List String → Except UsageError (List Level)
  | [] => (conclude g r command false).map fun level => [level]
  | word :: rest =>
    let mayBeCommand := !r.verbatim && !r.awaitsValue
    if mayBeCommand && word = "help" && !g.commands.isEmpty then .error (helpFor g rest)
    else
      match mayBeCommand, g.commands.lookup word with
      | true, some below =>
        match readFrom below word .start rest with
        | .error e => .error e
        | .ok levels => (conclude g r command true).map fun level => level :: levels
      | _, _ =>
        match nextWord g r word with
        | .error e => .error e
        | .ok r => readFrom g command r rest

/-- Reads a whole command line by `readFrom`; the outermost command has no name. -/
def read (g : Grammar) (words : List String) : Except UsageError (List Level) :=
  readFrom g "" .start words

end MessageTemplate.CommandLine
