import PatternMachines.Text.Part
import PatternMachines.Text.Quoted
import PatternMachines.Text.Utf8
import Std.Data.ExtTreeMap
import Std.Data.ExtTreeSet

/-!
# Directories

A directory holds files, and folders that may hold further files. A path is followed step by step.
Every step but the last leads to a folder; `..` leads to the folder above, and a step to nothing or
to `.` stays where it is. Different paths may lead to the same place. The place of a file or a
folder is named by its shortest path from the directory, or from the root. The directory and the
folders above it have no names here, so that no path leads out of the directory and back into it.

## Main definitions

* `Directory`: files and folders.
* `Directory.shortest`: a path without the steps that stay where they are.
* `Directory.walk`, `Directory.find`: what steps, and what a path, lead to.
* `Directory.read`: the bytes of a file that must exist.
* `Directory.contents`, `Directory.placeFor`: what opening a file gives, to read it or to write it.
* `Directory.suffix`: the ending of a file name.
-/

namespace PatternMachines

open Std

/-- The files and folders of a directory. -/
@[ext]
structure Directory where
  /-- The bytes of the files, by their places. -/
  files : ExtTreeMap String (List UInt8) := ∅
  /-- The places of the folders, without the directory itself and those above it. -/
  folders : ExtTreeSet String := ∅

namespace Directory

/-- Why a file cannot be read or written. -/
inductive FileError where
  /-- There is no file to be read at the path. -/
  | noInput (path : String)
  /-- Nothing is at the path, or a folder on the way is missing. -/
  | noSuchFile (path : String)
  /-- The path leads to a directory. -/
  | isDirectory (path : String)
  /-- The path leads through a file as if it were a directory. -/
  | notDirectory (path : String)
  /-- A step of the path, or the path as a whole, is too long. -/
  | tooLong (path : String)
  /-- The path holds the null character. -/
  | nullCharacter
  deriving DecidableEq, Repr

namespace FileError

/-- The text of the error. -/
def message : FileError → String
  | noInput path => "No existe el archivo: " ++ path
  | noSuchFile path => "[Errno 2] No such file or directory: " ++ Text.quoted path
  | isDirectory path => "[Errno 21] Is a directory: " ++ Text.quoted path
  | notDirectory path => "[Errno 20] Not a directory: " ++ Text.quoted path
  | tooLong path => "[Errno 36] File name too long: " ++ Text.quoted path
  | nullCharacter => "embedded null byte"

/-- The class of the error. -/
def category : FileError → String
  | noInput _ | noSuchFile _ => "FileNotFoundError"
  | isDirectory _ => "IsADirectoryError"
  | notDirectory _ => "NotADirectoryError"
  | tooLong _ => "OSError"
  | nullCharacter => "ValueError"

end FileError

/-! ### Paths -/

/-- Whether a step stays where it is. -/
def staysThere (step : String) : Bool := step == "" || step == "."

/-- The steps of a path, without those that stay where they are. -/
def steps (path : String) : List String := (Text.splitAt '/' path).filter fun s => !staysThere s

/-- The last step of a path. -/
def fileName (path : String) : String := (steps path).getLast?.getD ""

/-- The slashes at the front of a path, as they are kept: two of them differ from one. -/
def root (path : String) : String :=
  match path.toList.takeWhile (· == '/') with
  | [] => ""
  | ['/', '/'] => "//"
  | _ => "/"

/-- Steps as a path. No step at all is the directory itself, or the root. -/
def pathOf (root : String) (steps : List String) : String :=
  if steps.isEmpty && root.isEmpty then "." else root ++ Text.join "/" steps

/-- A path without the steps that stay where they are. -/
def shortest (path : String) : String := pathOf (root path) (steps path)

/-- Whether a path holds the null character. -/
def holdsNull (path : String) : Bool := path.toList.contains '\x00'

/-- The greatest length of a step in bytes. -/
def maxStepLength : Nat := 255

/-- The greatest length of a path in bytes. -/
def maxPathLength : Nat := 4095

/-! ### Following paths -/

/-- Where the directory, `fromRoot = false`, or the root is left by steps: a place. -/
def placeOf (fromRoot : Bool) (steps : List String) : String :=
  pathOf (if fromRoot then "/" else "") steps

/-- The steps to the folder above the one that steps lead to. Nothing is above the root. -/
def above (fromRoot : Bool) (steps : List String) : List String :=
  if steps.getLast?.all (· == "..") then if fromRoot then [] else steps.concat ".."
  else steps.dropLast

/-- The steps that lead to where a further step leads from the end of given ones. -/
def follow (fromRoot : Bool) (steps : List String) (step : String) : List String :=
  if staysThere step then steps
  else if step = ".." then above fromRoot steps
  else steps.concat step

/-- What is found at the end of a path. -/
inductive Found where
  /-- A folder, with the steps to it. -/
  | folder (steps : List String)
  /-- A file. -/
  | file (place : String) (bytes : List UInt8)
  /-- Nothing, in a folder. -/
  | free (place : String)
  /-- Nothing, where a folder was to be. -/
  | noFolder
  deriving DecidableEq

/-- The place of a file or for one. -/
def Found.place? : Found → Option String
  | .file place _ | .free place => some place
  | .folder _ | .noFolder => none

/-- What is found at the end of steps each of which leads down or up. The directory itself and those
above it are folders. -/
def atSteps (d : Directory) (fromRoot : Bool) (steps : List String) : Found :=
  let place := placeOf fromRoot steps
  if steps.all (· == "..") || d.folders.contains place then .folder steps
  else
    match d.files[place]? with
    | some bytes => .file place bytes
    | none => .free place

/-- Follows the steps of a path, which `path` is in errors, from what has been found. -/
def walk (d : Directory) (path : String) (fromRoot : Bool) :
    Found → List String → Except FileError Found
  | found, [] => .ok found
  | .folder steps, step :: rest =>
    if maxStepLength < Text.byteLength step then .error (.tooLong path)
    else walk d path fromRoot (d.atSteps fromRoot (follow fromRoot steps step)) rest
  | .file _ _, _ :: _ => .error (.notDirectory path)
  | .free _, step :: rest =>
    if step = "" then walk d path fromRoot .noFolder rest else .error (.noSuchFile path)
  | .noFolder, step :: rest =>
    if step = "" then walk d path fromRoot .noFolder rest else .error (.noSuchFile path)

/-- What is found at the end of a path. -/
def find (d : Directory) (path : String) : Except FileError Found :=
  if holdsNull path then .error .nullCharacter
  else if path = "" then .error (.noSuchFile path)
  else if maxPathLength < Text.byteLength path then .error (.tooLong path)
  else walk d path (root path != "") (.folder []) (Text.splitAt '/' path)

/-! ### Files -/

/-- The bytes of a file that is opened to be read. -/
def contents (d : Directory) (path : String) : Except FileError (List UInt8) :=
  match d.find path with
  | .error e => .error e
  | .ok (.folder _) => .error (.isDirectory path)
  | .ok (.file _ bytes) => .ok bytes
  | .ok (.free _) | .ok .noFolder => .error (.noSuchFile path)

/-- The bytes of a file that is opened to be read once it is known to exist. -/
def read (d : Directory) (path : String) : Except FileError (List UInt8) :=
  match d.contents (shortest path) with
  | .error (.noSuchFile _) | .error (.notDirectory _) | .error .nullCharacter =>
    .error (.noInput path)
  | found => found

/-- The place of a file that is opened to be written. -/
def placeFor (d : Directory) (path : String) : Except FileError String :=
  match d.find path with
  | .error e => .error e
  | .ok found => found.place?.elim (.error (.isDirectory path)) .ok

/-- The directory with a file of given bytes at a place. -/
def put (d : Directory) (place : String) (bytes : List UInt8) : Directory :=
  { d with files := d.files.insert place bytes }

/-- The directory with bytes added at the end of the file at a place. -/
def append (d : Directory) (place : String) (bytes : List UInt8) : Directory :=
  d.put place (d.files[place]?.getD [] ++ bytes)

/-- The directory without the file at a place. -/
def remove (d : Directory) (place : String) : Directory := { d with files := d.files.erase place }

/-- The ending of a file name from its last point on. A point at either end of the name begins no
ending. -/
def suffix (name : String) : String :=
  let cs := name.toList
  let stem := (cs.reverse.dropWhile (· != '.')).reverse
  if stem.length ≤ 1 ∨ stem.length = cs.length then ""
  else String.ofList (cs.drop (stem.length - 1))

end Directory

end PatternMachines
