import PatternMachines.Pattern.Cursor
import PatternMachines.Proofs.Pattern.Parts

/-!
# Reading by calls

The readers of the grammar are taken apart into the steps of calls that share a position, the number
of open groups and an arena. Alternatives call for one term after another and, when there is no bar,
put them together from the right. A term calls for one factor after another and puts them together
when there are no more. A factor that opens a group calls for alternatives, and closes the group
when they have ended. A call that has made another call waits until that has ended.

Steps may fail: a symbol is wanted where there is none, or a fragment is put together with others
whose last state is not in the arena.

## Main definitions

* `Pattern.Waiting`, `Pattern.Task`, `Pattern.Calls`: calls that wait, what is done next, and both
  together.
* `Pattern.Calls.active`: the calls that have begun and not ended.
* `Pattern.Calls.step`, `Pattern.Calls.after`: one step and several steps.
* `Pattern.Calls.Leads`: steps that keep to a condition.
* `Pattern.Calls.Within`, `Pattern.Calls.Room`: bounds on the calls that are active at once.

## Main results

* `Pattern.Calls.Leads.exists_after`: a condition on all steps of calls that end.
* `Pattern.Calls.Room.term`, `Pattern.Calls.Room.factor`, `Pattern.Calls.Room.group`: the room that
  calls leave for the calls that they make.
-/

namespace PatternMachines.Pattern

open Std

/-- A call that waits for another one to end. -/
inductive Waiting where
  /-- Alternatives wait for a term. They keep the terms before it, the last one first. -/
  | alternatives (before : List Fragment)
  /-- A term waits for a factor. It keeps the factors before it. -/
  | term (before : List Fragment)
  /-- A factor waits for the alternatives of its group. -/
  | factor

/-- What a call that waits has been called for. -/
def Waiting.extent : Waiting → Extent
  | .alternatives _ => .alternatives
  | .term _ => .term
  | .factor => .factor

/-- What is done next. -/
inductive Task where
  /-- A call begins. -/
  | call (u : Extent)
  /-- A term that has some factors looks whether there is another one. -/
  | collect (parts : List Fragment)
  /-- A call has ended with a fragment. -/
  | ended (f : Fragment)

/-- Calls on the way through a pattern. -/
structure Calls where
  /-- The position of the next symbol. -/
  position : Nat := 0
  /-- How many groups are open. -/
  depth : Int := 0
  /-- The arena in which fragments are built. -/
  arena : Arena := {}
  /-- What is done next. -/
  task : Task := .call .alternatives
  /-- The calls that wait, the last one first. -/
  waiting : List Waiting := []

namespace Quantifier

/-- The step of composition that a quantifier stands for. -/
def composition {α : Type} : Quantifier → α → Composition α
  | .star => .star
  | .plus => .plus
  | .option => .option

theorem parts_composition {α : Type} (q : Quantifier) (f : α) : (q.composition f).parts = [f] := by
  cases q with
  | star | plus | option => rfl

theorem make_composition (q : Quantifier) (p : Pattern) (a : Arena) :
    (q.composition (p.build a).1).make (p.build a).2 = (q.apply p).build a := by
  cases q with
  | star | plus | option => rfl

end Quantifier

namespace Calls

/-- Why a step cannot be taken. -/
inductive Fault where
  /-- There is no symbol at a position where one is wanted. -/
  | outside (position : Nat)
  /-- The last state of a part is not in the arena. -/
  | missing (id : StateId)
  deriving DecidableEq, Repr

/-- The calls that have begun and not ended, the last one first. -/
def active (c : Calls) : List Extent :=
  let current := match c.task with
    | .call u => [u]
    | .collect _ => [.term]
    | .ended _ => []
  current ++ c.waiting.map Waiting.extent

/-- Puts parts together whose last states are in the arena. -/
def compose (a : Arena) (c : Composition Fragment) : Except Fault (Fragment × Arena) :=
  match c.parts.find? fun f => !a.states.contains f.accept with
  | some f => .error (.missing f.accept)
  | none => .ok (c.make a)

/-- Puts alternatives together from the right. The last one has been made already, and the others
are given from the right. -/
def uniteAll : List Fragment → Fragment × Arena → Except Fault (Fragment × Arena)
  | [], made => .ok made
  | f :: before, made => do uniteAll before (← compose made.2 (.union f made.1))

/-- A factor ends with its atom and the quantifier that may follow. -/
def endFactor (symbols : List Symbol) (c : Calls) (atom : Fragment × Arena) : Except Fault Calls :=
  match symbols[c.position]?.bind Quantifier.ofSymbol? with
  | some q => do
    let made ← compose atom.2 (q.composition atom.1)
    return { c with position := c.position + 1, arena := made.2, task := .ended made.1 }
  | none => return { c with arena := atom.2, task := .ended atom.1 }

/-- The symbol after the position, unless it is reserved. -/
def escaped? (symbols : List Symbol) (c : Calls) : Option Symbol :=
  symbols[c.position + 1]?.filter (!·.isReserved)

/-- A factor begins at the symbol `x`. -/
def beginFactor (symbols : List Symbol) (c : Calls) (x : Symbol) : Except Fault Calls :=
  if x = "(" ∧ c.depth < maxGroupDepth then
    .ok { c with position := c.position + 1, depth := c.depth + 1, task := .call .alternatives,
                 waiting := .factor :: c.waiting }
  else
    match if x = "\\" then c.escaped? symbols else none with
    | some y => { c with position := c.position + 2 }.endFactor symbols (c.arena.literal y)
    | none =>
      let next := { c with position := c.position + 1 }
      if x = "." then next.endFactor symbols c.arena.wildcard
      else if Symbol.isRegular x then next.endFactor symbols (c.arena.literal x)
      else .ok { next with arena := c.arena.epsilon.2, task := .ended c.arena.epsilon.1 }

/-- Whether a term ends at the position. -/
def endsTerm (symbols : List Symbol) (c : Calls) : Bool :=
  match symbols[c.position]? with
  | none => true
  | some x => x = "|" || (x = ")" && 0 < c.depth)

/-- The next step. When the first call has ended there is nothing left to do. -/
def step (symbols : List Symbol) (c : Calls) : Except Fault Calls :=
  match c.task, c.waiting with
  | .call .alternatives, waiting =>
    .ok { c with task := .call .term, waiting := .alternatives [] :: waiting }
  | .call .term, _ => .ok { c with task := .collect [] }
  | .call .factor, _ =>
    match symbols[c.position]? with
    | some x => c.beginFactor symbols x
    | none => .error (.outside c.position)
  | .collect parts, waiting =>
    if c.endsTerm symbols then do
      let made ← compose c.arena (.concatAll parts)
      return { c with arena := made.2, task := .ended made.1 }
    else .ok { c with task := .call .factor, waiting := .term parts :: waiting }
  | .ended f, .alternatives before :: waiting =>
    if symbols[c.position]? = some "|" then
      .ok { c with position := c.position + 1, task := .call .term,
                   waiting := .alternatives (f :: before) :: waiting }
    else do
      let made ← uniteAll before (f, c.arena)
      return { c with arena := made.2, task := .ended made.1, waiting := waiting }
  | .ended f, .term before :: waiting =>
    .ok { c with task := .collect (before ++ [f]), waiting := waiting }
  | .ended f, .factor :: waiting =>
    let position := if symbols[c.position]? = some ")" then c.position + 1 else c.position
    { c with position := position, depth := c.depth - 1, waiting := waiting }.endFactor symbols
      (f, c.arena)
  | .ended _, [] => .ok c

/-- The calls after a number of steps. -/
def after (symbols : List Symbol) : Nat → Calls → Except Fault Calls
  | 0, c => .ok c
  | n + 1, c => do after symbols n (← c.step symbols)

/-! ### Several steps -/

variable {symbols : List Symbol} {P : Calls → Prop} {c c' c'' : Calls} {N d : Int} {u : Extent}
  {a : Arena} {f : Fragment} {waiting : List Waiting} {parts : List Fragment}
  {position : Nat}

/-- Whether steps can be taken from the calls `c` to the calls `c'`, and the condition `P` holds all
the time. -/
inductive Leads (symbols : List Symbol) (P : Calls → Prop) : Calls → Calls → Prop
  | here {c : Calls} (h : P c) : Leads symbols P c c
  | step {c c' c'' : Calls} (h : P c) (hstep : c.step symbols = .ok c')
      (hrest : Leads symbols P c' c'') : Leads symbols P c c''

namespace Leads

theorem trans (h : Leads symbols P c c') (h' : Leads symbols P c' c'') :
    Leads symbols P c c'' := by
  induction h with
  | here => exact h'
  | step h hstep _ ih => exact .step h hstep (ih h')

theorem after_eq (h : Leads symbols P c c') : ∃ n, after symbols n c = .ok c' := by
  induction h with
  | here => exact ⟨0, rfl⟩
  | step _ hstep _ ih =>
    obtain ⟨n, hn⟩ := ih
    refine ⟨n + 1, ?_⟩
    rw [after, hstep]
    exact hn

/-- Where calls lead to an end, no step fails and the condition holds all the time. -/
theorem exists_after (h : Leads symbols P c c') (hend : c'.step symbols = .ok c') (n : Nat) :
    ∃ c'', after symbols n c = .ok c'' ∧ P c'' := by
  induction n generalizing c with
  | zero =>
    cases h with
    | here h => exact ⟨c', rfl, h⟩
    | step h => exact ⟨c, rfl, h⟩
  | succ n ih =>
    rw [after]
    cases h with
    | here h =>
      rw [hend]
      exact ih (.here h)
    | step _ hstep hrest =>
      rw [hstep]
      exact ih hrest

end Leads

/-! ### Bounds -/

/-- How many of some calls are alternatives. -/
def nested (calls : List Extent) : Nat := calls.count .alternatives

/-- Whether the number of open groups is within its bound, at most `N` alternatives are active, and
at most three times as many calls. -/
structure Within (N : Int) (c : Calls) : Prop where
  /-- The open groups. -/
  depth_le : c.depth ≤ maxGroupDepth
  /-- The alternatives. -/
  nested_le : nested c.active ≤ N
  /-- All calls. -/
  length_le : c.active.length ≤ 3 * N

/-- How many calls are active at once while something is read that opens no group. -/
def height : Extent → Nat
  | .factor => 1
  | .term => 2
  | .alternatives => 3

/-- Whether there is room for a call inside `d` groups and for all calls that it may lead to. Each
group that can still be opened has room for alternatives, a term and a factor. -/
structure Room (N d : Int) (u : Extent) (waiting : List Waiting) : Prop where
  /-- The open groups. -/
  depth_le : d ≤ maxGroupDepth
  /-- Room for alternatives. -/
  nested_le : nested (u :: waiting.map Waiting.extent) + (maxGroupDepth - d) ≤ N
  /-- Room for all calls. -/
  length_le : (waiting.length + height u : Nat) + 3 * (maxGroupDepth - d) ≤ 3 * N

namespace Room

theorem call (h : Room N d u waiting) : Within N ⟨position, d, a, .call u, waiting⟩ := by
  have hdepth := h.depth_le
  have hnested := h.nested_le
  have hlength := h.length_le
  have hheight : 1 ≤ height u := by
    cases u with
    | factor | term | alternatives => decide
  refine ⟨hdepth, ?_, ?_⟩
  · simp only [active, List.singleton_append]
    omega
  · simp only [active, List.singleton_append, List.length_cons, List.length_map]
    omega

theorem collect (h : Room N d .term waiting) :
    Within N ⟨position, d, a, .collect parts, waiting⟩ := by
  have hcall : Within N ⟨position, d, a, .call .term, waiting⟩ := h.call
  exact ⟨hcall.depth_le, hcall.nested_le, hcall.length_le⟩

theorem ended (h : Room N d u waiting) : Within N ⟨position, d, a, .ended f, waiting⟩ := by
  have hcall : Within N ⟨position, d, a, .call u, waiting⟩ := h.call
  have hnested := hcall.nested_le
  have hlength := hcall.length_le
  simp only [active, List.singleton_append, nested, List.count_cons] at hnested
  simp only [active, List.singleton_append, List.length_cons] at hlength
  refine ⟨hcall.depth_le, ?_, ?_⟩
  · simp only [active, List.nil_append, nested]
    omega
  · simp only [active, List.nil_append]
    omega

/-- Alternatives leave room for a term. -/
theorem term (h : Room N d .alternatives waiting) (before : List Fragment) :
    Room N d .term (.alternatives before :: waiting) := by
  have hlength := h.length_le
  refine ⟨h.depth_le, h.nested_le, ?_⟩
  simp only [height, List.length_cons] at hlength ⊢
  omega

/-- A term leaves room for a factor. -/
theorem factor (h : Room N d .term waiting) (before : List Fragment) :
    Room N d .factor (.term before :: waiting) := by
  have hlength := h.length_le
  refine ⟨h.depth_le, h.nested_le, ?_⟩
  simp only [height, List.length_cons] at hlength ⊢
  omega

/-- A factor that opens a group leaves room for alternatives. -/
theorem group (h : Room N d .factor waiting) (hd : d < maxGroupDepth) :
    Room N (d + 1) .alternatives (.factor :: waiting) := by
  have hnested := h.nested_le
  have hlength := h.length_le
  have hmore : nested (.alternatives :: .factor :: waiting.map Waiting.extent) =
      nested (.factor :: waiting.map Waiting.extent) + 1 := List.count_cons_self
  refine ⟨hd, ?_, ?_⟩
  · rw [List.map_cons, Waiting.extent, hmore]
    omega
  · simp only [height, List.length_cons] at hlength ⊢
    omega

end Room

end Calls

end PatternMachines.Pattern
