import Reckoner.CommandLine

/-!
# The program

Runs the command line and the prompt on a terminal.  Everything is decided by `CommandLine` and
`Prompt`; this module supplies files, lines and environment variables, and prints.

The interpreter works on files that it is given.  When a step asks for a file that exists but has
not been supplied, the step is taken again with the file, so nothing is printed before all files of
the step are there.  Watched files are compared with what was supplied before every line.
-/

namespace Reckoner.Terminal

/-- The mark before a line: one for a new input, one for the rest of an input. -/
def mark (kept : String) : String :=
  if kept = "" then "\x1b[32m>\x1b[0m " else "\x1b[32m.\x1b[0m "

/-- The content of a file, if it can be read. -/
def fetch (name : String) : IO (Option String) := do
  try
    return some (← IO.FS.readFile name)
  catch _ => return none

/-- Whether a name is a folder. -/
def isFolder (name : String) : IO Bool := do
  ((← IO.currentDir) / name).isDir

/-- Add a file or a folder under a name, if there is one that the files do not have yet. -/
def supply (files : FileTree) (name : String) : IO (Option FileTree) := do
  match files.status name with
  | .fault .absent =>
    if ← isFolder name then
      return some { files with folders := files.folders ++ [files.key name] }
    return (← fetch name).map (files.put (files.key name))
  | _ => return none

/-- Write the files that a step created or changed. -/
def writeFiles (before after : Interpreter) : IO Unit := do
  for folder in after.files.folders do
    unless before.files.folders.contains folder do IO.FS.createDirAll folder
  for (name, content) in after.createdFiles do
    unless before.createdFiles.contains (name, content) do IO.FS.writeFile name content

/-- Take a step, with all files that it asks for, and print what it prints. -/
partial def perform {α : Type} (action : Action α) (i : Interpreter) :
    IO (Except Failure α × Interpreter) := do
  let (outcome, after) := action.runFrom { i with requested := [] }
  for name in after.requested do
    if let some files ← supply i.files name then
      return ← perform action { i with files }
  IO.print after.output
  (← IO.getStdout).flush
  writeFiles i after
  return (outcome, { after with output := "" })

/-- Load watched files again that have changed. -/
def refresh (i : Interpreter) : IO Interpreter := do
  let mut current := i
  for watch in i.watches do
    if let some content ← fetch watch.file then
      if current.files.content? (current.files.key watch.file) != some content then
        current := (← perform (Session.overwrite watch.file content) current).2
  return current

/-- The next line of the input. -/
def nextEvent : IO PromptEvent := do
  let line ← (← IO.getStdin).getLine
  return if line = "" then .endOfInput
    else .line (String.ofList (line.toList.reverse.dropWhile (· == '\n')).reverse)

/-- Take lines until the prompt ends. -/
partial def converse (kept : String) (i : Interpreter) : IO Interpreter := do
  IO.print (mark kept)
  (← IO.getStdout).flush
  let event ← nextEvent
  let i ← refresh i
  match ← perform (Prompt.step shellScope kept event) i with
  | (.ok (some kept), i) => converse kept i
  | (_, i) => return i

/-- Split a variable of the environment at its first equals sign. -/
def splitVariable (entry : String) : String × String :=
  let chars := entry.toList
  (String.ofList (chars.takeWhile (· != '=')), String.ofList ((chars.dropWhile (· != '=')).drop 1))

/-- The variables of the environment, where the system shows them as a file. -/
def environment : IO (List (String × String)) := do
  let entries := ((← fetch "/proc/self/environ").getD "").splitOn "\x00"
  return entries.map splitVariable

end Reckoner.Terminal

open Reckoner Reckoner.Terminal in
/-- Run the command line, then the prompt if it asks for one. -/
def main (arguments : List String) : IO UInt32 := do
  let folder := (← IO.currentDir).toString
  let number := Nat.repr (← IO.monoMsNow)
  let start : Interpreter :=
    { Interpreter.initial with
      files := .inFolder folder
      environment := ← environment
      traceName := "trace_" ++ number ++ ".json" }
  match ← perform (CommandLine.start arguments) start with
  | (.error failure, _) =>
    IO.eprintln failure.message
    return 2
  | (.ok false, _) => return 0
  | (.ok true, i) =>
    let i ← converse "" i
    let _ ← perform CommandLine.shutDown i
    return 0
