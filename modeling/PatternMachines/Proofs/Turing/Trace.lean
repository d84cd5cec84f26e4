import PatternMachines.Proofs.Turing.Endless

/-!
# The trace of a run

Whoever watches a run is told of every transition right after it was taken. At that time the head
may stand next to the tape, as the cell that it needs is added at the beginning of the next round
only. So one configuration of the trace leads to the next one by a round: a blank cell is added
where the head has left the tape, and then the first transition that fits is taken. Watching a run
does not change it.

## Main definitions

* `Turing.Configuration.Grown`: a configuration with the cell that its head needs.
* `Turing.Machine.Follows`: the configurations before and after a transition.
* `Turing.Run.Traced`: what the trace of a run tells.
* `Turing.Ending`, `Turing.Machine.watch`: runs that somebody watches.

## Main results

* `Turing.Machine.follows_of_takes`: a round that takes a transition.
* `Turing.Machine.length_reachHead_after`: how far the tape may have grown after some transitions.
* `Turing.Machine.watchFrom_some`, `Turing.Machine.watchFrom_none`: what is told along a run.
* `Turing.Machine.traced_run`: the trace of the run on an input.
-/

namespace PatternMachines.Turing

/-! ### Configurations before and after a transition -/

/-- The configuration `c` with a blank cell added on the side on which its head has left the tape,
if it has. -/
inductive Configuration.Grown (blank : Symbol) (c : Configuration) : Configuration → Prop where
  /-- The head is on the tape. -/
  | inside (hleft : 0 ≤ c.head) (hright : c.head < c.tape.length) : Grown blank c c
  /-- The head is before the first cell. -/
  | left (hhead : c.head = -1) : Grown blank c { c with tape := blank :: c.tape, head := 0 }
  /-- The head is behind the last cell. -/
  | right (hhead : c.head = c.tape.length) : Grown blank c { c with tape := c.tape ++ [blank] }

/-- Whether a machine takes a transition in the configuration `c` and comes to `c'` by it: the cell
under the head is there, after it was added if need be, the transition is the first one that fits
the state and that cell, and it is applied. -/
inductive Machine.Follows (m : Machine) (c : Configuration) (t : Transition) :
    Configuration → Prop where
  | intro {d : Configuration} {x : Symbol} (hgrown : c.Grown m.blank d) (hhead : 0 ≤ d.head)
      (hcell : d.tape[d.head.toNat]? = some x) (hfind : m.transitionAt d.state x = some t) :
      Follows m c t (apply d t)

/-- What the trace of a run tells that begins in the configuration `first`. -/
structure Run.Traced (r : Run) (m : Machine) (first : Configuration) : Prop where
  /-- The transitions are numbered one after another, up to the number of all of them. -/
  numbers_eq : r.trace.map Step.number = List.range' 1 r.steps
  /-- Each configuration of the trace follows on the one before. -/
  follows : ∀ (k : Nat) (step : Step) (c : Configuration), r.trace[k]? = some step →
    (r.configurations first)[k]? = some c → m.Follows c step.transition step.after
  /-- The run ends in the last configuration. -/
  ends : ∃ last, (r.configurations first).getLast? = some last ∧ r.final.state = last.state ∧
    (r.reason ≠ .noTransition → r.final = last) ∧
    (r.reason = .noTransition → last.Grown m.blank r.final ∧ 0 ≤ r.final.head ∧
      ∃ x, r.final.tape[r.final.head.toNat]? = some x ∧ m.transitionAt r.final.state x = none)
  /-- The head is never further from the tape than the next cell. -/
  near : ∀ c, c ∈ r.configurations first ∨ c = r.final → c.Near
  /-- Each transition lets the tape grow by one cell at most. -/
  length_le : ∀ (k : Nat) (c : Configuration), (r.configurations first)[k]? = some c →
    c.tape.length ≤ first.tape.length + k
  /-- At the end the tape has grown by as many cells as there were transitions at most. -/
  length_final_le : r.final.tape.length ≤ first.tape.length + r.steps

/-- Growing adds one cell at most. -/
theorem Configuration.Grown.length_le {blank : Symbol} {c d : Configuration} (h : c.Grown blank d) :
    c.tape.length ≤ d.tape.length ∧ d.tape.length ≤ c.tape.length + 1 := by
  cases h with
  | inside => exact ⟨Nat.le_refl _, Nat.le_succ _⟩
  | left => exact ⟨Nat.le_succ _, Nat.le_refl _⟩
  | right => simp

theorem Configuration.Grown.state_eq {blank : Symbol} {c d : Configuration} (h : c.Grown blank d) :
    d.state = c.state := by
  cases h with
  | inside => rfl
  | left => rfl
  | right => rfl

/-- What a run comes to. -/
structure Ending where
  /-- Why the run ended. -/
  reason : HaltReason
  /-- How many transitions were taken. -/
  steps : Nat
  /-- The configuration in which the run ended. -/
  final : Configuration
  deriving DecidableEq

/-- What a run comes to, without its trace. -/
def Run.ending (r : Run) : Ending := ⟨r.reason, r.steps, r.final⟩

namespace Machine

variable {m : Machine} {c c' final : Configuration} {t : Transition} {reason : HaltReason}
  {taken left k n : Nat} {step : Step} {input : String}

/-! ### One round -/

/-- The cell that the head needs is added. -/
theorem grown_reachHead (m : Machine) (hc : c.Near) : c.Grown m.blank (m.reachHead c) := by
  obtain ⟨hleft, hright⟩ := hc
  rw [reachHead]
  split
  · next hhead => exact .left (by omega)
  · next hhead =>
    split
    · next x hx =>
      have hlength : c.head.toNat < c.tape.length := (List.getElem?_eq_some_iff.1 hx).1
      exact .inside (Int.not_lt.1 hhead) (by omega)
    · next hnone =>
      have hlength : c.tape.length ≤ c.head.toNat := List.getElem?_eq_none_iff.1 hnone
      have hlast : c.head = c.tape.length := by omega
      rw [← hlast]
      exact .right hlast

theorem near_reachHead (m : Machine) (hc : c.Near) : (m.reachHead c).Near := by
  obtain ⟨hhead, x, hx⟩ := exists_getElem?_reachHead (m := m) hc
  have hlength := (List.getElem?_eq_some_iff.1 hx).1
  exact ⟨by omega, by omega⟩

theorem reachHead_initial (m : Machine) (input : String) :
    m.reachHead (m.initial input) = m.initial input := by
  rw [reachHead, initial, if_neg (Int.lt_irrefl 0), initialTape]
  cases Symbol.ofText input ++ m.endMarker.toList with
  | nil => rfl
  | cons x cells => rfl

/-- What a transition needs is there. -/
theorem follows_of_takes (hc : c.Near) (h : m.round c = .takes t c') : m.Follows c t c' := by
  rw [round] at h
  split at h
  · cases h
  · split at h
    · cases h
    · next happlicable =>
      cases h
      obtain ⟨hhead, x, hx⟩ := exists_getElem?_reachHead (m := m) hc
      rw [applicable, hx, Option.bind_some] at happlicable
      exact .intro (grown_reachHead m hc) hhead hx happlicable

/-- A round that ends the run has added a cell only if it has looked for a transition. -/
theorem round_eq_ends (h : m.round c = .ends reason final) :
    (reason ≠ .noTransition ∧ final = c) ∨
      (reason = .noTransition ∧ final = m.reachHead c ∧ m.applicable final = none) := by
  rw [round] at h
  split at h
  · next hverdict =>
    cases h
    refine .inl ⟨?_, rfl⟩
    rintro rfl
    rw [verdict] at hverdict
    split at hverdict
    · cases hverdict
    · split at hverdict
      · cases hverdict
      · cases hverdict
  · split at h
    · next happlicable =>
      cases h
      exact .inr ⟨rfl, rfl, happlicable⟩
    · cases h

theorem length_takes (h : m.round c = .takes t c') :
    c'.tape.length = (m.reachHead c).tape.length := by
  rw [round] at h
  split at h
  · cases h
  · split at h
    · cases h
    · cases h
      exact List.length_set

/-! ### The configurations of a run -/

theorem near_after (hc : c.Near) (h : m.after n c = some c') : c'.Near :=
  invariant_of_after (fun _ _ _ hnear hround => (next_extended_of_takes hnear hround 0).1) hc h

/-- The tape has grown by one cell at most for each transition, also after the cell has been added
that the head needs. -/
theorem length_reachHead_after (hc : c.Near) (h : m.after n c = some c') :
    (m.reachHead c').tape.length ≤ (m.reachHead c).tape.length + n := by
  induction n generalizing c with
  | zero =>
    cases h
    exact Nat.le_refl _
  | succ n ih =>
    cases hround : m.round c with
    | ends reason final =>
      rw [after_succ_of_ends hround] at h
      cases h
    | takes t c'' =>
      rw [after_succ_of_takes hround] at h
      have hc'' : c''.Near := (next_extended_of_takes hc hround 0).1
      have hrest := ih hc'' h
      have hstep := (grown_reachHead m hc'').length_le.2
      rw [length_takes hround] at hstep
      omega

/-- The transitions of a run are numbered one after another. -/
theorem numbers_runFrom (m : Machine) (taken left : Nat) (c : Configuration) :
    (m.runFrom taken left c).trace.map Step.number =
        List.range' (taken + 1) (m.runFrom taken left c).trace.length ∧
      (m.runFrom taken left c).steps = taken + (m.runFrom taken left c).trace.length := by
  induction left generalizing taken c with
  | zero => exact ⟨rfl, rfl⟩
  | succ left ih =>
    cases h : m.round c with
    | ends reason final =>
      rw [runFrom_of_ends h]
      exact ⟨rfl, rfl⟩
    | takes t c' =>
      obtain ⟨hnumbers, hsteps⟩ := ih (taken + 1) c'
      rw [runFrom_of_takes h]
      refine ⟨?_, hsteps.trans (Nat.succ_add_eq_add_succ _ _)⟩
      rw [Run.precededBy, List.map_cons, hnumbers, List.length_cons, List.range'_succ]

/-- Each transition of a run is taken by a round. -/
theorem takes_of_getElem?_trace (h : (m.runFrom taken left c).trace[k]? = some step) :
    ∃ c', m.after k c = some c' ∧ m.round c' = .takes step.transition step.after := by
  induction left generalizing taken c k with
  | zero => cases h
  | succ left ih =>
    cases hround : m.round c with
    | ends reason final =>
      rw [runFrom_of_ends hround] at h
      cases h
    | takes t c' =>
      rw [runFrom_of_takes hround] at h
      cases k with
      | zero =>
        cases h
        exact ⟨c, rfl, hround⟩
      | succ k =>
        rw [after_succ_of_takes hround]
        exact ih h

/-- The transitions of a run lead to the last configuration of its trace, with which it ends. -/
theorem exists_last_runFrom (m : Machine) (taken left : Nat) (c : Configuration) : ∃ last,
    ((m.runFrom taken left c).configurations c).getLast? = some last ∧
      m.after (m.runFrom taken left c).trace.length c = some last ∧
      (((m.runFrom taken left c).reason = .stepLimit ∧ (m.runFrom taken left c).final = last) ∨
        m.round last = .ends (m.runFrom taken left c).reason (m.runFrom taken left c).final) := by
  induction left generalizing taken c with
  | zero => exact ⟨c, rfl, rfl, .inl ⟨rfl, rfl⟩⟩
  | succ left ih =>
    cases h : m.round c with
    | ends reason final =>
      rw [runFrom_of_ends h]
      exact ⟨c, rfl, rfl, .inr h⟩
    | takes t c' =>
      obtain ⟨last, hlast, hafter, hends⟩ := ih (taken + 1) c'
      rw [runFrom_of_takes h, Run.configurations_precededBy]
      exact ⟨last, List.getLast?_cons_cons.trans hlast, (after_succ_of_takes h).trans hafter, hends⟩

theorem after_of_getElem?_configurations
    (h : ((m.runFrom taken left c).configurations c)[k]? = some c') : m.after k c = some c' := by
  rw [getElem?_configurations] at h
  split at h
  · exact h
  · cases h

/-- A run ends in the last configuration of its trace, or with the cell added that its head needed
and in which no transition fits. -/
theorem final_cases (hc : c.Near) (hends : m.round c = .ends reason final) :
    (reason ≠ .noTransition ∧ final = c) ∨ (reason = .noTransition ∧ c.Grown m.blank final ∧
      0 ≤ final.head ∧ ∃ x, final.tape[final.head.toNat]? = some x ∧
        m.transitionAt final.state x = none) := by
  rcases round_eq_ends hends with h | ⟨hreason, rfl, happlicable⟩
  · exact .inl h
  · obtain ⟨hhead, x, hx⟩ := exists_getElem?_reachHead (m := m) hc
    rw [applicable, hx, Option.bind_some] at happlicable
    exact .inr ⟨hreason, grown_reachHead m hc, hhead, x, hx, happlicable⟩

/-! ### The trace -/

/-- The trace of a run that begins with the head on the tape. -/
theorem traced_runFrom (hc : c.Near) (hon : m.reachHead c = c) :
    (m.runFrom 0 left c).Traced m c := by
  obtain ⟨hnumbers, hsteps⟩ := numbers_runFrom m 0 left c
  obtain ⟨last, hlookup, hlast, hends⟩ := exists_last_runFrom m 0 left c
  rw [Nat.zero_add] at hsteps
  have hnear : last.Near := near_after hc hlast
  have hlength {k : Nat} {d : Configuration} (hd : m.after k c = some d) :
      d.tape.length ≤ c.tape.length + k ∧ (m.reachHead d).tape.length ≤ c.tape.length + k := by
    have hgrown := (grown_reachHead m (near_after hc hd)).length_le.1
    have hreach : (m.reachHead d).tape.length ≤ c.tape.length + k :=
      hon ▸ length_reachHead_after hc hd
    exact ⟨Nat.le_trans hgrown hreach, hreach⟩
  have hfinal : (m.runFrom 0 left c).final = last ∨
      (m.runFrom 0 left c).final = m.reachHead last := by
    rcases hends with ⟨-, hfinal⟩ | hends
    · exact .inl hfinal
    · exact (round_eq_ends hends).imp (·.2) (·.2.1)
  constructor
  case numbers_eq => rw [hnumbers, hsteps]
  case follows =>
    intro k step d hstep hd
    obtain ⟨d', hd', hround⟩ := takes_of_getElem?_trace hstep
    obtain rfl : d' = d :=
      Option.some_inj.1 (hd'.symm.trans (after_of_getElem?_configurations hd))
    exact follows_of_takes (near_after hc hd') hround
  case ends =>
    refine ⟨last, hlookup, ?_⟩
    rcases hends with ⟨hreason, hfinal⟩ | hends
    · rw [hfinal, hreason]
      exact ⟨rfl, fun _ => rfl, fun h => HaltReason.noConfusion h⟩
    · rcases final_cases hnear hends with ⟨hreason, hfinal⟩ | ⟨hreason, hgrown, hcell⟩
      · rw [hfinal]
        exact ⟨rfl, fun _ => rfl, fun h => absurd h hreason⟩
      · exact ⟨hgrown.state_eq, fun h => absurd hreason h, fun _ => ⟨hgrown, hcell⟩⟩
  case near =>
    rintro d (hd | rfl)
    · obtain ⟨k, hk⟩ := List.mem_iff_getElem?.1 hd
      exact near_after hc (after_of_getElem?_configurations hk)
    · rcases hfinal with hfinal | hfinal
      · rwa [hfinal]
      · rw [hfinal]
        exact near_reachHead m hnear
  case length_le =>
    intro k d hd
    exact (hlength (after_of_getElem?_configurations hd)).1
  case length_final_le =>
    rw [hsteps]
    rcases hfinal with hfinal | hfinal
    · rw [hfinal]
      exact (hlength hlast).1
    · rw [hfinal]
      exact (hlength hlast).2

/-! ### Watching a run -/

/-- The run from a configuration, told to `hook` transition by transition, if there is one. -/
def watchFrom {M : Type → Type} [Monad M] (m : Machine) (hook : Option (Step → M PUnit))
    (taken : Nat) : (left : Nat) → Configuration → M Ending
  | 0, c => return ⟨.stepLimit, taken, c⟩
  | left + 1, c =>
    match m.round c with
    | .ends reason final => return ⟨reason, taken, final⟩
    | .takes t c => do
      if let some tell := hook then tell ⟨taken + 1, t, c⟩
      m.watchFrom hook (taken + 1) left c

/-- The run on an input, told to `hook` transition by transition, if there is one. -/
def watch {M : Type → Type} [Monad M] (m : Machine) (hook : Option (Step → M PUnit))
    (input : String) : M Ending :=
  if m.holdsEndMarker input then return ⟨.invalidInput, 0, m.initial input⟩
  else m.watchFrom hook 0 maxSteps (m.initial input)

variable {M : Type → Type} [Monad M]

/-- Who watches a run is told of each transition of its trace, in order, and then it ends. -/
theorem watchFrom_some [LawfulMonad M] (tell : Step → M PUnit) :
    m.watchFrom (some tell) taken left c = do
      (m.runFrom taken left c).trace.forM tell
      return (m.runFrom taken left c).ending := by
  induction left generalizing taken c with
  | zero => simp [watchFrom, runFrom, Run.ending]
  | succ left ih =>
    rw [watchFrom]
    cases h : m.round c with
    | ends reason final => simp [runFrom_of_ends h, Run.ending]
    | takes t c' =>
      rw [runFrom_of_takes h]
      simp [Run.precededBy, ih, Run.ending]

/-- A run that nobody watches has no effects. -/
theorem watchFrom_none :
    m.watchFrom (M := M) none taken left c = return (m.runFrom taken left c).ending := by
  induction left generalizing taken c with
  | zero => rfl
  | succ left ih =>
    rw [watchFrom]
    cases h : m.round c with
    | ends reason final => rw [runFrom_of_ends h, Run.ending]
    | takes t c' =>
      rw [runFrom_of_takes h]
      exact ih

/-- Watching a run begins with the look at the input, as the run does. -/
theorem watch_eq_watchFrom (hook : Option (Step → M PUnit))
    (h : ¬m.holdsEndMarker input = true) :
    m.watch hook input = m.watchFrom hook 0 maxSteps (m.initial input) := if_neg h

/-- **The trace of a run.** Let the input not hold the end marker. Who watches the run is told of as
many transitions as the run takes, in order, and the run ends as it does when nobody watches it.
Each configuration of the trace follows on the one before by the first transition that fits, and
the run ends in the last of them, up to the cell that a round adds before it finds no transition.
The head is never further from the tape than the next cell, and the tape has never grown by more
cells than there were transitions. -/
theorem traced_run (m : Machine) (input : String)
    (hinput : ∀ marker, m.endMarker = some marker → ¬marker.toList <:+: input.toList) :
    (m.run input).Traced m (m.initial input) ∧
      ∀ (M : Type → Type) [Monad M] [LawfulMonad M] (tell : Step → M PUnit),
        (m.watch (some tell) input = do
          (m.run input).trace.forM tell
          return (m.run input).ending) ∧
        m.watch (M := M) none input = return (m.run input).ending := by
  have hholds := not_holdsEndMarker_iff.2 hinput
  rw [run_eq_runFrom hholds]
  refine ⟨traced_runFrom (near_initial m input) (reachHead_initial m input), ?_⟩
  intro M _ _ tell
  rw [watch_eq_watchFrom _ hholds, watch_eq_watchFrom _ hholds]
  exact ⟨watchFrom_some tell, watchFrom_none⟩

/-- The machine that leaves its tape on both sides takes five transitions. Who counts them counts
five. -/
theorem traced_wandering :
    (∀ marker, wandering.endMarker = some marker → ¬marker.toList <:+: "a".toList) ∧
      (wandering.run "a").Traced wandering (wandering.initial "a") ∧
      ((wandering.run "a").trace.map fun s => (s.number, s.after.head)) =
        [(1, -1), (2, 0), (3, 1), (4, 2), (5, 3)] ∧
      (wandering.watch (some fun _ => modify (· + 1)) "a" : StateM Nat Ending) 0 =
        (wandering.watch none "a" : StateM Nat Ending) 5 := by
  have hinput : ∀ marker, wandering.endMarker = some marker →
      ¬marker.toList <:+: "a".toList := by
    rintro _ ⟨⟩
    decide
  obtain ⟨htraced, hwatch⟩ := traced_run wandering "a" hinput
  obtain ⟨hsome, hnone⟩ := hwatch (StateM Nat) fun _ => modify (· + 1)
  rw [hsome, hnone]
  exact ⟨hinput, htraced, rfl, rfl⟩

end Machine

end PatternMachines.Turing
