import PatternMachines.Arena

/-!
# Workbenches

A workbench holds an arena and the fragments made in it so far, which are named by handles. Two
handles may name the same fragment; a fragment that is merged with others changes under all its
handles.

## Main definitions

* `Workbench`: an arena with its fragments.
* `Workbench.Command`, `Workbench.run`: the ways to make a fragment or to change one.
* `Workbench.fragment`: the fragment that a handle names.
-/

namespace PatternMachines

/-- An arena with the fragments made in it. -/
structure Workbench where
  /-- The states made so far. -/
  arena : Arena := {}
  /-- The fragments made so far. -/
  fragments : List Fragment := []
  /-- For each handle the place of its fragment. -/
  handles : List Nat := []

namespace Workbench

/-- The error of a handle that names no fragment. -/
structure NoSuchFragment where
  /-- The handle. -/
  handle : Int
  deriving DecidableEq, Repr

/-- The text of the error. -/
def NoSuchFragment.message (_ : NoSuchFragment) : String := "list index out of range"

/-- A way to make a fragment or to change one. -/
inductive Command where
  /-- Makes a fragment that reads one symbol. -/
  | literal (x : Symbol)
  /-- Makes a fragment that reads any symbol of the wildcard. -/
  | wildcard
  /-- Makes a fragment that reads nothing. -/
  | epsilon
  /-- Puts two fragments one after the other. -/
  | concat (i j : Int)
  /-- Makes a choice of two fragments. -/
  | union (i j : Int)
  /-- Repeats a fragment any number of times. -/
  | star (i : Int)
  /-- Repeats a fragment once or more. -/
  | plus (i : Int)
  /-- Makes a fragment optional. -/
  | option (i : Int)
  /-- Puts fragments one after another. A single fragment stays as it is, under a new handle. -/
  | concatAll (is : List Int)
  /-- Adds the states and symbols of fragments to another one. -/
  | merge (i : Int) (js : List Int)

/-- The place of the fragment that a handle names. Negative handles count from the last one, which
is `-1`. -/
def place (w : Workbench) (i : Int) : Except NoSuchFragment Nat :=
  let k := if i < 0 then i + w.handles.length else i
  if k < 0 then .error ⟨i⟩
  else
    match w.handles[k.toNat]? with
    | some n => .ok n
    | none => .error ⟨i⟩

/-- The fragment that a handle names. -/
def fragment (w : Workbench) (i : Int) : Except NoSuchFragment Fragment := do
  match w.fragments[← w.place i]? with
  | some f => return f
  | none => throw ⟨i⟩

/-- The workbench with one more fragment under a new handle. -/
def keep (w : Workbench) (made : Fragment × Arena) : Fragment × Workbench :=
  (made.1, ⟨made.2, w.fragments ++ [made.1], w.handles ++ [w.fragments.length]⟩)

/-- Carries out a command: the fragment made or changed, and the workbench after that. -/
def run (w : Workbench) : Command → Except NoSuchFragment (Fragment × Workbench)
  | .literal x => return w.keep (w.arena.literal x)
  | .wildcard => return w.keep w.arena.wildcard
  | .epsilon => return w.keep w.arena.epsilon
  | .concat i j => do return w.keep (w.arena.concat (← w.fragment i) (← w.fragment j))
  | .union i j => do return w.keep (w.arena.union (← w.fragment i) (← w.fragment j))
  | .star i => do return w.keep (w.arena.star (← w.fragment i))
  | .plus i => do return w.keep (w.arena.plus (← w.fragment i))
  | .option i => do return w.keep (w.arena.option (← w.fragment i))
  | .concatAll [i] => do
    return (← w.fragment i, { w with handles := w.handles ++ [← w.place i] })
  | .concatAll is => do return w.keep (w.arena.concatAll (← is.mapM w.fragment))
  | .merge i js => do
    let f ← w.fragment i
    let merged := (← js.mapM w.fragment).foldl Fragment.merge f
    return (merged, { w with fragments := w.fragments.set (← w.place i) merged })

end Workbench

end PatternMachines
