import PatternMachines.Dfa
import PatternMachines.Text.Part

/-!
# Sample texts

Texts are tried on a deterministic automaton in shortlex order, and the first accepted and rejected
ones are collected. The search ends when enough of both have been found or when a given number of
candidates has been tried.

## Main definitions

* `Dfa.SampleLimits`: how long the search may take.
* `Dfa.samples`: the texts found, accepted ones first.
* `Dfa.probes`: the texts on which an automaton of a batch is tried.
-/

namespace PatternMachines.Dfa

open Std

/-- The bounds of a search. -/
structure SampleLimits where
  /-- The greatest number of symbols of a candidate. -/
  maxLength : Int := 4
  /-- How many texts of either kind are collected. -/
  limit : Int := 20
  /-- How many candidates are tried. -/
  maxCandidates : Int := 20000

/-- Why no samples can be given. -/
inductive SampleError where
  /-- The number of candidates is negative or too large. -/
  | badCandidateCount
  /-- The automaton came to an id that names no state. -/
  | missingState (e : MissingState)
  deriving DecidableEq, Repr

/-- The text of the error. -/
def SampleError.message : SampleError → String
  | .badCandidateCount =>
    "Stop argument for islice() must be None or an integer: 0 <= x <= sys.maxsize."
  | .missingState e => e.message

/-- The greatest number of candidates that can be asked for. -/
def maxCandidateCount : Int := 0x7fffffffffffffff

/-- Different texts in the order in which they were found. -/
structure Found where
  /-- The texts, the last one first. -/
  newestFirst : List String := []
  /-- The same texts as a set. -/
  known : ExtTreeSet String := ∅

namespace Found

/-- The texts with one more, unless it is known or there are enough. -/
def add (limit : Int) (f : Found) (s : String) : Found :=
  if f.known.contains s || limit ≤ f.known.size then f else ⟨s :: f.newestFirst, f.known.insert s⟩

/-- The texts in the order in which they were found. -/
def toList (f : Found) : List String := f.newestFirst.reverse

end Found

/-- The state of a search. -/
structure Search where
  /-- How many more candidates may be tried. -/
  budget : Nat
  /-- The accepted texts. -/
  accepted : Found := {}
  /-- The rejected texts. -/
  rejected : Found := {}
  /-- The error that ended the search. -/
  error : Option MissingState := none
  /-- Whether enough texts of both kinds have been found. -/
  complete : Bool := false

namespace Search

/-- Whether the search has ended. -/
def ended (s : Search) : Bool := s.budget == 0 || s.error.isSome || s.complete

/-- The search after one more candidate. -/
def offer (d : Dfa) (limit : Int) (s : Search) (candidate : List Symbol) : Search :=
  let text := Text.join "" candidate
  match d.accepts (Symbol.ofText text) with
  | .error e => { s with error := some e }
  | .ok verdict =>
    let accepted := if verdict then s.accepted.add limit text else s.accepted
    let rejected := if verdict then s.rejected else s.rejected.add limit text
    { s with
      budget := s.budget - 1
      accepted := accepted
      rejected := rejected
      complete := limit ≤ accepted.known.size && limit ≤ rejected.known.size }

/-- The search after all candidates that consist of `ending`, held in reverse, and `count` more
symbols, in ascending order. A search that has ended tries no more. -/
def sweep (d : Dfa) (limit : Int) (alphabet : List Symbol) :
    (count : Nat) → (beginning : List Symbol) → Search → Search
  | 0, beginning, s => if s.ended then s else s.offer d limit beginning.reverse
  | count + 1, beginning, s =>
    alphabet.foldl
      (fun s x => if s.ended then s else sweep d limit alphabet count (x :: beginning) s) s

/-- The search after all candidates of the `count` lengths from `length` on. -/
def sweepLengths (d : Dfa) (limit : Int) (alphabet : List Symbol) :
    (count length : Nat) → Search → Search
  | 0, _, s => s
  | count + 1, length, s =>
    if s.ended then s
    else sweepLengths d limit alphabet count (length + 1) (sweep d limit alphabet length [] s)

end Search

/-- The texts found on an automaton, each with its verdict: the accepted ones in the order in which
they were found, then the rejected ones. -/
def samples (d : Dfa) (limits : SampleLimits) : Except SampleError (List (String × Bool)) :=
  if limits.maxCandidates < 0 ∨ maxCandidateCount < limits.maxCandidates then
    .error .badCandidateCount
  else
    let s := Search.sweepLengths d limits.limit d.alphabet.toList (limits.maxLength + 1).toNat 0
      { budget := limits.maxCandidates.toNat }
    match s.error with
    | some e => .error (.missingState e)
    | none => .ok (s.accepted.toList.map (·, true) ++ s.rejected.toList.map (·, false))

/-- The bounds of the search for the texts of a batch. -/
def probeLimits : SampleLimits := { maxLength := 3, limit := 10 }

/-- The texts on which an automaton of a batch is tried: samples, and a symbol of the wildcard that
the automaton does not read, if there is one. -/
def probes (d : Dfa) : Except SampleError (List String) := do
  let found ← d.samples probeLimits
  let outsider := Symbol.wildcard.find? fun x => !d.alphabet.contains x
  return found.map (·.1) ++ outsider.toList

end PatternMachines.Dfa
