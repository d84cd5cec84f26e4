import PatternMachines.Directory
import Mathlib.Logic.Basic

/-!
# Files that are put into a directory

A file that is put into a directory is found at the paths that lead to its place. Every other path
that leads to a file, or to a place for one, leads there as before.

## Main definitions

* `Directory.SameBut`: directories that differ in the file at one place at most.
* `Directory.Found.put`: what is found once a file has been put at a place.

## Main results

* `Directory.find_put`: what is found after a file has been put into a directory.
* `Directory.placeFor_put`, `Directory.contents_put`: places and bytes of files.
* `Directory.put_append`, `Directory.put_comm`, `Directory.remove_put`: files that are added to, put
  at different places, and removed.
-/

namespace PatternMachines.Directory

open Std

variable {d d' d'' : Directory} {path place place' : String} {bytes bytes' : List UInt8}

/-! ### Directories that differ in one file -/

/-- Whether two directories differ in the file at one place at most. -/
structure SameBut (place : String) (d d' : Directory) : Prop where
  /-- The folders are the same. -/
  folders_eq : d'.folders = d.folders
  /-- The other files are the same. -/
  files_eq : ∀ place', place' ≠ place → d'.files[place']? = d.files[place']?

theorem sameBut_put (d : Directory) (place : String) (bytes : List UInt8) :
    d.SameBut place (d.put place bytes) where
  folders_eq := rfl
  files_eq place' h := by
    rw [put, ExtTreeMap.getElem?_insert, if_neg (mt Std.compare_eq_iff_eq.1 h.symm)]

theorem getElem?_put_self : (d.put place bytes).files[place]? = some bytes :=
  ExtTreeMap.getElem?_insert_self

theorem getElem?_put_of_ne (h : place' ≠ place) :
    (d.put place bytes).files[place']? = d.files[place']? :=
  (sameBut_put d place bytes).files_eq place' h

/-- The second of two files that are put at the same place takes the place of the first. -/
theorem put_put : (d.put place bytes).put place bytes' = d.put place bytes' := by
  rw [put, put, put, Directory.mk.injEq]
  refine ⟨ExtTreeMap.ext_getElem? fun k => ?_, rfl⟩
  simp only [ExtTreeMap.getElem?_insert]
  split <;> rfl

/-- Bytes that are added to a file that has just been put at its place. -/
theorem put_append : (d.put place bytes).append place bytes' = d.put place (bytes ++ bytes') := by
  rw [append, getElem?_put_self, Option.getD_some, put_put]

/-- A new file that is removed leaves nothing behind. -/
theorem remove_put (h : d.files[place]? = none) : (d.put place bytes).remove place = d := by
  rw [remove, put, Directory.ext_iff]
  refine ⟨ExtTreeMap.ext_getElem? fun k => ?_, rfl⟩
  rw [ExtTreeMap.getElem?_erase, ExtTreeMap.getElem?_insert]
  split
  case isTrue hk => rw [← Std.compare_eq_iff_eq.1 hk, h]
  case isFalse => rfl

/-- Files at different places are put there in any order. -/
theorem put_comm (h : place ≠ place') :
    (d.put place bytes).put place' bytes' = (d.put place' bytes').put place bytes := by
  rw [Directory.ext_iff]
  refine ⟨ExtTreeMap.ext_getElem? fun k => ?_, rfl⟩
  simp only [put, ExtTreeMap.getElem?_insert, Std.compare_eq_iff_eq]
  split
  case isTrue hk => rw [if_neg (hk ▸ h)]
  case isFalse => rfl

/-! ### What paths lead to -/

/-- What is found once a file has been put at a place. -/
def Found.put (place : String) (bytes : List UInt8) : Found → Found
  | .folder steps => .folder steps
  | .file other old => if other = place then .file place bytes else .file other old
  | .free other => if other = place then .file place bytes else .free other
  | .noFolder => .noFolder

theorem Found.place?_put {found : Found} : (found.put place bytes).place? = found.place? := by
  cases found with
  | folder => rfl
  | noFolder => rfl
  | file other =>
    rw [Found.put]
    split
    case isTrue h => rw [h, place?, place?]
    case isFalse => rfl
  | free other =>
    rw [Found.put]
    split
    case isTrue h => rw [h, place?, place?]
    case isFalse => rfl

theorem Found.put_of_place? {found : Found} (h : found.place? = some place) :
    found.put place bytes = .file place bytes := by
  cases found <;> cases h <;> exact if_pos rfl

theorem atSteps_put {fromRoot : Bool} {steps : List String} :
    (d.put place bytes).atSteps fromRoot steps =
      (d.atSteps fromRoot steps).put place bytes := by
  have hfolders : (d.put place bytes).folders = d.folders := rfl
  rw [atSteps, atSteps, hfolders]
  split
  case isTrue => rfl
  case isFalse =>
    by_cases h : placeOf fromRoot steps = place
    · subst h
      rw [getElem?_put_self]
      cases d.files[placeOf fromRoot steps]? <;> simp [Found.put]
    · rw [getElem?_put_of_ne h]
      cases d.files[placeOf fromRoot steps]? <;> simp [Found.put, h]

/-- Where a folder is missing, no further step finds one. -/
theorem eq_noFolder_of_walk {fromRoot : Bool} {steps : List String} {found : Found}
    (h : d.walk path fromRoot .noFolder steps = .ok found) : found = .noFolder := by
  induction steps with
  | nil =>
    cases h
    rfl
  | cons step steps ih =>
    rw [walk] at h
    split at h
    · exact ih h
    · cases h

/-- A file that is put into a directory leaves a path where it led. The induction is on the steps;
the file lies at the end of them or not on their way, as a step through it would have failed. -/
theorem walk_put {fromRoot : Bool} {steps : List String} {start found : Found}
    (h : d.walk path fromRoot start steps = .ok found) (hfound : found ≠ .noFolder) :
    (d.put place bytes).walk path fromRoot (start.put place bytes) steps =
      .ok (found.put place bytes) := by
  induction steps generalizing start with
  | nil =>
    cases start <;> cases h <;> simp only [walk]
  | cons step steps ih =>
    cases start with
    | folder at_ =>
      rw [walk] at h
      rw [Found.put, walk]
      split at h
      case isTrue => cases h
      case isFalse hlength =>
        rw [if_neg hlength, atSteps_put]
        exact ih h
    | file => cases h
    | free =>
      rw [walk] at h
      split at h
      · exact absurd (eq_noFolder_of_walk h) hfound
      · cases h
    | noFolder => exact absurd (eq_noFolder_of_walk h) hfound

theorem find_put {found : Found} (h : d.find path = .ok found) (hfound : found ≠ .noFolder) :
    (d.put place bytes).find path = .ok (found.put place bytes) := by
  rw [find] at h ⊢
  split at h
  · cases h
  split at h
  · cases h
  split at h
  · cases h
  · next hnull hempty hlength =>
    rw [if_neg hnull, if_neg hempty, if_neg hlength]
    exact walk_put h hfound

theorem placeFor_eq_ok_iff : d.placeFor path = .ok place ↔
    ∃ found, d.find path = .ok found ∧ found.place? = some place := by
  rw [placeFor]
  cases d.find path with
  | error e => simp
  | ok found => cases h : found.place? <;> simp [h]

/-- A file that is put into a directory takes no place away. -/
theorem placeFor_put (h : d.placeFor path = .ok place) (place' : String) (bytes : List UInt8) :
    (d.put place' bytes).placeFor path = .ok place := by
  obtain ⟨found, hfind, hplace⟩ := placeFor_eq_ok_iff.1 h
  refine placeFor_eq_ok_iff.2 ⟨_, find_put hfind ?_, Found.place?_put.trans hplace⟩
  rintro rfl
  cases hplace

/-- A file that is put at the place for a path is found there. -/
theorem contents_put (h : d.placeFor path = .ok place) (bytes : List UInt8) :
    (d.put place bytes).contents path = .ok bytes := by
  obtain ⟨found, hfind, hplace⟩ := placeFor_eq_ok_iff.1 h
  have hfound : found ≠ .noFolder := by
    rintro rfl
    cases hplace
  rw [contents, find_put hfind hfound, Found.put_of_place? hplace]

end PatternMachines.Directory
