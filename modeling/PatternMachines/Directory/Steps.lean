import PatternMachines.Directory

/-!
# Steps on directories

A program that reads and writes files does so step by step, each step in the directory that the
steps before it have left. A step may fail. Then no further step is made, and what was done before
stays done. A change of the directory does not fail itself; where bytes may fail to be added to an
open file, a step before the change says so.

## Main definitions

* `Directory.Steps`: steps on a directory.
* `Directory.attempt`, `Directory.openFile`: single steps.
* `Directory.finishing`: steps with a change that is made even if they fail.
* `Directory.perform`: what steps come to.
-/

namespace PatternMachines.Directory

/-- Steps on a directory, which may fail. -/
abbrev Steps (ε α : Type) := ExceptT ε (StateM Directory) α

variable {ε α : Type}

/-- A step that may fail and that changes nothing. -/
def attempt (x : Except ε α) : Steps ε α := ExceptT.mk (pure x)

/-- Opens a file to write it, which leaves nothing in it. The result is the place of the file. -/
def openFile (path : String) : Steps FileError String := do
  let place ← attempt ((← get).placeFor path)
  modify (put · place [])
  return place

/-- Steps and a change after them, which is made even if the steps fail. -/
def finishing (change : Directory → Directory) (x : Steps ε α) : Steps ε α :=
  ExceptT.mk fun d => let (result, d) := x.run d; (result, change d)

/-- What steps come to in a directory, and the directory that they leave. -/
def perform (x : Steps ε α) (d : Directory) : Except ε α × Directory := x.run d

end PatternMachines.Directory
