import PatternMachines.Directory.Steps

/-!
# Performing steps

What steps come to is told step by step: a step that fails ends the steps, and the directory is as
it has left it; otherwise the next step is made in the directory that it has left.

## Main results

* `Directory.perform_bind`: one step after another.
* `Directory.perform_attempt`, `Directory.perform_openFile`, `Directory.perform_finishing`: single
  steps, and steps with a change after them.
-/

namespace PatternMachines.Directory

variable {ε ε' α β : Type} {d : Directory}

/-- What follows on a result, in the directory that was left with it. -/
def continueWith (f : α → Steps ε β) : Except ε α × Directory → Except ε β × Directory
  | (.ok a, d) => perform (f a) d
  | (.error e, d) => (.error e, d)

/-- One step after another. -/
theorem perform_bind (x : Steps ε α) (f : α → Steps ε β) (d : Directory) :
    perform (x >>= f) d = continueWith f (perform x d) := by
  change ExceptT.bindCont f (perform x d).1 (perform x d).2 = continueWith f (perform x d)
  rcases perform x d with ⟨_ | _, d'⟩ <;> rfl

@[simp]
theorem continueWith_ok (f : α → Steps ε β) (a : α) (d : Directory) :
    continueWith f (.ok a, d) = perform (f a) d := rfl

@[simp]
theorem continueWith_error (f : α → Steps ε β) (e : ε) (d : Directory) :
    continueWith f (.error e, d) = (.error e, d) := rfl

@[simp]
theorem perform_pure (a : α) (d : Directory) : perform (pure a : Steps ε α) d = (.ok a, d) := rfl

@[simp]
theorem perform_get (d : Directory) : perform (get : Steps ε Directory) d = (.ok d, d) := rfl

@[simp]
theorem perform_modify (change : Directory → Directory) (d : Directory) :
    perform (modify change : Steps ε PUnit) d = (.ok ⟨⟩, change d) := rfl

@[simp]
theorem perform_attempt (x : Except ε α) (d : Directory) : perform (attempt x) d = (x, d) := rfl

/-- Steps that are watched: their result, whatever it is, is a result. -/
@[simp]
theorem perform_liftM_run (x : Steps ε α) (d : Directory) :
    perform (liftM x.run : Steps ε' (Except ε α)) d =
      (.ok (perform x d).1, (perform x d).2) := rfl

@[simp]
theorem perform_adapt (cause : ε → ε') (x : Steps ε α) (d : Directory) :
    perform (x.adapt cause) d = ((perform x d).1.mapError cause, (perform x d).2) := rfl

@[simp]
theorem perform_finishing (change : Directory → Directory) (x : Steps ε α) (d : Directory) :
    perform (finishing change x) d = ((perform x d).1, change (perform x d).2) := rfl

/-- A file is opened at its place, or nothing is changed. -/
theorem perform_openFile (path : String) (d : Directory) : perform (openFile path) d =
    match d.placeFor path with
    | .ok place => (.ok place, d.put place [])
    | .error e => (.error e, d) := by
  rw [openFile, perform_bind, perform_get, continueWith_ok, perform_bind, perform_attempt]
  cases d.placeFor path <;> rfl

end PatternMachines.Directory
