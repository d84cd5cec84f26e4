import Mathlib.Data.List.Basic
import PatternMachines.Text.Lines

/-!
# Line ends

Line ends are made alike by removing the carriage returns, and only texts with one are changed by
it. The lines of a text hold no other characters than the text itself.

## Main results

* `Text.carriageReturn_not_mem_normaliseNewlines`, `Text.normaliseNewlines_eq_self_iff`: texts with
  all line ends alike.
* `Text.mem_of_mem_splitLines`: where the characters of lines come from.
-/

namespace PatternMachines.Text

variable {c : Char} {soFar cs line : List Char}

theorem carriageReturn_not_mem_normaliseNewlines (cs : List Char) :
    '\r' ∉ normaliseNewlines cs := by
  fun_induction normaliseNewlines cs with
  | case1 => exact List.not_mem_nil
  | case2 rest ih => exact List.not_mem_cons_of_ne_of_not_mem (by decide) ih
  | case3 rest _ ih => exact List.not_mem_cons_of_ne_of_not_mem (by decide) ih
  | case4 c rest _ hc ih => exact List.not_mem_cons_of_ne_of_not_mem (fun h => hc h.symm) ih

theorem normaliseNewlines_of_not_mem (h : '\r' ∉ cs) : normaliseNewlines cs = cs := by
  fun_induction normaliseNewlines cs with
  | case1 => rfl
  | case2 | case3 => exact absurd List.mem_cons_self h
  | case4 c rest _ _ ih => rw [ih (List.not_mem_of_not_mem_cons h)]

/-- The texts that are the same with all line ends alike. -/
theorem normaliseNewlines_eq_self_iff : normaliseNewlines cs = cs ↔ '\r' ∉ cs :=
  ⟨fun h => h ▸ carriageReturn_not_mem_normaliseNewlines cs, normaliseNewlines_of_not_mem⟩

/-- The characters of a line are those of the text. -/
theorem mem_of_mem_splitLinesFrom (hline : line ∈ splitLinesFrom soFar cs) (hc : c ∈ line) :
    c ∈ soFar ∨ c ∈ cs := by
  fun_induction splitLinesFrom soFar cs with
  | case1 => cases hline
  | case2 soFar _ =>
    obtain rfl := List.mem_singleton.1 hline
    exact .inl (List.mem_reverse.1 hc)
  | case3 soFar rest ih =>
    rcases List.mem_cons.1 hline with rfl | hline
    · exact .inl (List.mem_reverse.1 hc)
    · have hrest := (ih hline).resolve_left List.not_mem_nil
      exact .inr (.tail _ (.tail _ hrest))
  | case4 soFar d rest _ _ ih =>
    rcases List.mem_cons.1 hline with rfl | hline
    · exact .inl (List.mem_reverse.1 hc)
    · exact .inr (.tail _ ((ih hline).resolve_left List.not_mem_nil))
  | case5 soFar d rest _ _ ih =>
    rcases ih hline with hsoFar | hrest
    · exact (List.mem_cons.1 hsoFar).elim (fun h => .inr (h ▸ .head rest)) .inl
    · exact .inr (.tail _ hrest)

theorem mem_of_mem_splitLines (hline : line ∈ splitLines cs) (hc : c ∈ line) : c ∈ cs :=
  (mem_of_mem_splitLinesFrom hline hc).resolve_left List.not_mem_nil

end PatternMachines.Text
