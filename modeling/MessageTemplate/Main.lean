/-
The program: reads its command line, runs the command on the files of the machine in the directory
it is started in, and prints what the command says.

Only this module touches a machine.  It makes `IO` an instance of `Files` and has no rules of its
own: what a command does is `Command.run`, and what a command line means is `Request.read`.
-/
import MessageTemplate.Project.Run

set_option autoImplicit false

namespace MessageTemplate

/-! ## Files of the machine -/

/-- Which `FileError` a refusal of the machine means, by the number that the system gives with
it. -/
def FileError.ofMachine : IO.Error → FileError
  | .noFileOrDirectory _ _ _ => .notFound
  | .alreadyExists _ _ _ => .alreadyExists
  | .inappropriateType _ 20 _ => .notDirectory
  | .inappropriateType _ 21 _ => .isDirectory
  | .invalidArgument _ 36 _ => .nameTooLong
  | e => .other (toString e)

/-- Does something with the file of the machine at a path.  A path that no system call takes is
refused here (`Path.vet`), in the same words as on a disk that is a value. -/
def onMachine {α : Type} (p : Path) (action : IO α) : IO (Except FileError α) := do
  match p.vet with
  | .error e => return .error e
  | .ok _ =>
    match ← action.toBaseIO with
    | .ok a => return .ok a
    | .error e => return .error (.ofMachine e)

/-- The text of a file of the machine, whose bytes must be UTF-8 and else are refused as
`notText`. -/
def readMachineText (p : Path) : IO (Except FileError String) := do
  match ← onMachine p (IO.FS.readBinFile p.text) with
  | .error e => return .error e
  | .ok bytes =>
    match String.fromUTF8? bytes with
    | some s => return .ok s
    | none => return .error .notText

/-- Whether a `FileError` leaves it open that there is a file: one that may not be read is still
there. -/
def FileError.mayExist : FileError → Bool
  | .isDirectory => true
  | .other _ => true
  | _ => false

instance : Files IO where
  isPresent p := do
    match ← onMachine p (IO.FS.Handle.mk p.text .read) with
    | .ok _ => return true
    | .error e => return e.mayExist
  readText := readMachineText
  writeText p s := onMachine p (IO.FS.writeFile p.text s)
  makeParent p := onMachine p.parent (IO.FS.createDirAll p.parent.text)

end MessageTemplate

/-! ## The program -/

open MessageTemplate

def main (words : List String) : IO UInt32 := do
  match Request.read words with
  | .error e =>
    (← IO.getStderr).putStrLn e.name
    return UInt32.ofNat e.exitCode
  | .ok request =>
    let directory ← IO.currentDir
    let outcome : Outcome ← request.command.run ⟨directory.toString⟩
    (← IO.getStdout).putStr outcome.printed
    match outcome.failure with
    | some e => (← IO.getStderr).putStrLn (failureNotice e.text)
    | none => pure ()
    return UInt32.ofNat outcome.exitCode
