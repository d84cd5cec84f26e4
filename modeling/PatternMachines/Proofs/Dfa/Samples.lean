import PatternMachines.Dfa.Samples

/-!
# The search for samples

The search tries the words over the alphabet one after another, the shorter ones first, until it has
ended. So it is a fold over the list of these words.

## Main definitions

* `Dfa.words`, `Dfa.candidates`: the words that are tried, in their order.
* `Dfa.Search.tryNext`: a search after one more candidate.

## Main results

* `Dfa.Search.sweepLengths_eq_foldl`: the search as a fold.
-/

namespace PatternMachines.Dfa

open Std

variable {d : Dfa} {limit : Int} {alphabet : List Symbol}

/-- The words of a given length over an alphabet, in ascending order. -/
def words (alphabet : List Symbol) : Nat → List (List Symbol)
  | 0 => [[]]
  | n + 1 => alphabet.flatMap fun x => (words alphabet n).map (x :: ·)

/-- The words of the `count` lengths from `length` on, in the order in which they are tried. -/
def candidates (alphabet : List Symbol) (count length : Nat) : List (List Symbol) :=
  (List.range' length count).flatMap (words alphabet)

theorem mem_words {n : Nat} {w : List Symbol} :
    w ∈ words alphabet n ↔ w.length = n ∧ ∀ x ∈ w, x ∈ alphabet := by
  induction n generalizing w with
  | zero =>
    rw [words, List.mem_singleton, List.length_eq_zero_iff]
    exact (and_iff_left_of_imp fun h => h ▸ List.forall_mem_nil _).symm
  | succ n ih =>
    rw [words, List.mem_flatMap]
    simp only [List.mem_map, ih]
    constructor
    · rintro ⟨x, hx, w, ⟨rfl, hw⟩, rfl⟩
      exact ⟨rfl, List.forall_mem_cons.2 ⟨hx, hw⟩⟩
    · rintro ⟨hlength, hw⟩
      obtain ⟨x, w, rfl⟩ := List.exists_cons_of_length_eq_add_one hlength
      rw [List.forall_mem_cons] at hw
      exact ⟨x, hw.1, w, ⟨Nat.succ.inj hlength, hw.2⟩, rfl⟩

/-! ### The search as a fold -/

namespace Search

/-- The search after one more candidate. A search that has ended tries no more. -/
def tryNext (d : Dfa) (limit : Int) (s : Search) (candidate : List Symbol) : Search :=
  if s.ended then s else s.offer d limit candidate

theorem foldl_tryNext_of_ended {s : Search} (h : s.ended = true) (ws : List (List Symbol)) :
    ws.foldl (tryNext d limit) s = s := by
  induction ws with
  | nil => rfl
  | cons w ws ih => rwa [List.foldl_cons, tryNext, if_pos h]

theorem sweep_eq_foldl (count : Nat) (beginning : List Symbol) (s : Search) :
    sweep d limit alphabet count beginning s =
      ((words alphabet count).map (beginning.reverse ++ ·)).foldl (tryNext d limit) s := by
  induction count generalizing beginning s with
  | zero => simp [sweep, words, tryNext]
  | succ count ih =>
    have hwords : (words alphabet (count + 1)).map (beginning.reverse ++ ·) = alphabet.flatMap
        fun x => (words alphabet count).map ((x :: beginning).reverse ++ ·) := by
      simp [words, List.map_flatMap, Function.comp_def]
    rw [sweep, hwords, List.foldl_flatMap]
    congr 1
    funext s x
    split
    · next h => rw [foldl_tryNext_of_ended h]
    · rw [ih]

theorem sweepLengths_eq_foldl (count length : Nat) (s : Search) :
    sweepLengths d limit alphabet count length s =
      (candidates alphabet count length).foldl (tryNext d limit) s := by
  induction count generalizing length s with
  | zero => rfl
  | succ count ih =>
    rw [sweepLengths]
    split
    · next h => rw [foldl_tryNext_of_ended h]
    · rw [ih, sweep_eq_foldl, candidates, candidates, List.range'_succ, List.flatMap_cons,
        List.foldl_append]
      simp

end Search

end PatternMachines.Dfa
