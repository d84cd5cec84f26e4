import PatternMachines.Console.Command
import PatternMachines.Table.Plain

/-!
# The program

The outer layer of the program: it loads the files that the arguments name, calls the library, and
prints and writes what the call leaves behind. An interactive session is answered line by line.
-/

namespace PatternMachines.Main

open PatternMachines.Console

/-- Adds to a directory what is found on the way of steps, a folder or a file at the end. -/
def loadSteps (fromRoot : Bool) (d : Directory) (steps : List String) : List String → IO Directory
  | [] => return d
  | step :: rest => do
    let steps := Directory.follow fromRoot steps step
    let name := Directory.placeOf fromRoot steps
    let place := System.mkFilePath [name]
    if ← place.isDir then
      loadSteps fromRoot { d with folders := d.folders.insert name } steps rest
    else if ← place.pathExists then
      return d.put name (← IO.FS.readBinFile place).toList
    else
      return d

/-- Adds to a directory what a path leads to, and the folders on the way. -/
def load (d : Directory) (path : String) : IO Directory :=
  loadSteps (Directory.root path != "") d [] (Text.splitAt '/' path)

/-- The paths that the arguments name. -/
def pathsOf (o : Options) : List String :=
  o.batch.toList ++ [o.csv.getD defaultTable] ++ o.jff.toList

/-- Writes the files of a directory that are new or have changed. -/
def store (before after : Directory) : IO Unit := do
  for (path, bytes) in after.files.toList do
    if before.files[path]? != some bytes then
      IO.FS.writeBinFile path (ByteArray.mk bytes.toArray)

/-- A duration in milliseconds with one decimal place. -/
def milliseconds (nanoseconds : Nat) : String :=
  let tenths := Decimal.roundHalfEven nanoseconds 100000
  toString (tenths / 10) ++ "." ++ toString (tenths % 10)

/-- How long the conversion of a pattern takes, in milliseconds. -/
def conversionTime (pattern : String) : IO String := do
  let begun ← IO.monoNanosNow
  discard <| IO.lazyPure fun _ => (Conversion.of pattern).isOk
  return milliseconds ((← IO.monoNanosNow) - begun)

/-- Reports an error. -/
def fail (message : String) : IO UInt32 := do
  IO.eprintln message
  return 1

/-- Answers the lines of an interactive session. -/
partial def converse (state : State) : IO UInt32 := do
  IO.print state.prompt
  (← IO.getStdout).flush
  let line ← (← IO.getStdin).getLine
  if line.isEmpty then
    return 0
  let elapsed ← if state.isNone then conversionTime (Text.trim line) else pure ""
  match reply elapsed state line with
  | .error e => fail e.message
  | .ok r =>
    IO.print r.printed
    match r.next with
    | none => return 0
    | some next => converse next

/-- Runs a call that is not a session. -/
def call (args : List String) (o : Options) : IO UInt32 := do
  let before ← (pathsOf o).foldlM load {}
  let elapsed ← conversionTime (o.positional.headD "")
  let (result, after) := Directory.perform (command Table.plain elapsed args "") before
  store before after
  match result with
  | .error e => fail e.message
  | .ok outcome =>
    IO.print outcome.printed
    return outcome.exitCode.toUInt32

end PatternMachines.Main

/-- The program. -/
def main (args : List String) : IO UInt32 := do
  let o := PatternMachines.Console.Options.ofArgs args
  if o.batch.isNone && o.positional.isEmpty then
    IO.print PatternMachines.Console.banner
    PatternMachines.Main.converse none
  else
    PatternMachines.Main.call args o
