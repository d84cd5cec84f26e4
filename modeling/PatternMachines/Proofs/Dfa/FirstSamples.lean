import PatternMachines.Proofs.Dfa.Run
import PatternMachines.Proofs.Dfa.Samples
import PatternMachines.Proofs.Exploration.Order
import PatternMachines.Proofs.Nfa.Path
import PatternMachines.Proofs.Symbol

/-!
# The samples are the first texts of either kind

The candidates of a search are all words up to a length, the shorter ones first and words of one
length in the order of their symbols. Different candidates may be put together to the same text, if
symbols have more than one character. The budget of a search counts candidates, and what it finds
counts texts. The search ends early when it has found enough texts of both kinds. What it would have
found after that is not asked for, and so the samples are those of a search without an early end.

## Main definitions

* `Dfa.firstTexts`: the first different texts of a list.
* `Dfa.Found.Holds`: texts that have been found one after another.
* `Dfa.Search.Sifts`: what a search has found after some texts.
* `Dfa.Enumerates`: the enumeration of the words over an alphabet.
* `Dfa.sifted`: the first different texts of either verdict.

## Main results

* `Dfa.mem_candidates`, `Dfa.pairwise_shortlexLt_candidates`: the candidates.
* `Dfa.Found.Holds.add`: one more text.
* `Dfa.Search.Sifts.offer`, `Dfa.Search.Sifts.foldl`: one more candidate, and a whole search.
* `Dfa.samples_eq_ok`, `Dfa.Closed.samples_eq_sifted`: the samples of an automaton.
* `Dfa.exists_probes_eq_ok`: the probes of an automaton.
-/

namespace PatternMachines.Dfa

open Std

variable {d : Dfa} {alphabet : List Symbol} {count length n : Nat} {w : List Symbol}
  {ts us : List String} {t : String}

/-! ### The candidates -/

/-- The words of one length ascend. -/
theorem pairwise_shortlexLt_words (halphabet : alphabet.Pairwise (· < ·)) :
    (words alphabet n).Pairwise ShortlexLt := by
  induction n with
  | zero => exact List.pairwise_singleton _ _
  | succ n ih =>
    rw [words, List.pairwise_flatMap]
    constructor
    · intro x _
      exact List.pairwise_map.2 (ih.imp List.Shortlex.cons)
    · refine halphabet.imp fun hlt _ hxu _ hyv => ?_
      obtain ⟨u, hu, rfl⟩ := List.mem_map.1 hxu
      obtain ⟨v, hv, rfl⟩ := List.mem_map.1 hyv
      have hlength : u.length = v.length := (mem_words.1 hu).1.trans (mem_words.1 hv).1.symm
      exact List.Shortlex.of_lex (congrArg Nat.succ hlength) (.rel hlt)

/-- The candidates ascend. -/
theorem pairwise_shortlexLt_candidates (halphabet : alphabet.Pairwise (· < ·)) :
    (candidates alphabet count length).Pairwise ShortlexLt := by
  rw [candidates, List.pairwise_flatMap]
  constructor
  · intro n _
    exact pairwise_shortlexLt_words halphabet
  · refine List.Pairwise.imp ?_ List.pairwise_lt_range'
    intro _ _ hlt u hu v hv
    rw [← (mem_words.1 hu).1, ← (mem_words.1 hv).1] at hlt
    exact List.Shortlex.of_length_lt hlt

theorem mem_candidates : w ∈ candidates alphabet count length ↔
    (length ≤ w.length ∧ w.length < length + count) ∧ ∀ x ∈ w, x ∈ alphabet := by
  simp only [candidates, List.mem_flatMap, List.mem_range'_1, mem_words]
  constructor
  · rintro ⟨n, hn, rfl, hw⟩
    exact ⟨hn, hw⟩
  · rintro ⟨hn, hw⟩
    exact ⟨w.length, hn, rfl, hw⟩

/-! ### Different texts -/

/-- The first `n` different texts of a list, in the order in which they first occur. -/
def firstTexts (n : Nat) (ts : List String) : List String := ts.eraseDups.take n

theorem eraseDups_concat (ts : List String) (t : String) :
    (ts ++ [t]).eraseDups = if t ∈ ts then ts.eraseDups else ts.eraseDups ++ [t] := by
  rw [List.eraseDups_append, List.removeAll]
  by_cases ht : t ∈ ts
  · simp [ht]
  · simp [ht, List.eraseDups_cons]

theorem nodup_eraseDups (ts : List String) : ts.eraseDups.Nodup := by
  induction ts using List.reverseRecOn with
  | nil => exact List.nodup_nil
  | append_singleton ts t ih =>
    rw [eraseDups_concat]
    split
    · exact ih
    · next ht =>
      rw [← List.concat_eq_append]
      exact ih.concat (mt List.mem_eraseDups.1 ht)

theorem nodup_firstTexts (n : Nat) (ts : List String) : (firstTexts n ts).Nodup :=
  (nodup_eraseDups ts).sublist (List.take_sublist n _)

theorem mem_of_mem_firstTexts (h : t ∈ firstTexts n ts) : t ∈ ts :=
  List.mem_eraseDups.1 (List.mem_of_mem_take h)

/-- Enough different texts are not changed by later ones. -/
theorem firstTexts_append (h : n ≤ (firstTexts n ts).length) (us : List String) :
    firstTexts n (ts ++ us) = firstTexts n ts := by
  rw [firstTexts, List.length_take] at h
  rw [firstTexts, firstTexts, List.eraseDups_append,
    List.take_append_of_le_length (Nat.le_trans h (Nat.min_le_right _ _))]

theorem firstTexts_concat_of_mem (h : t ∈ ts) : firstTexts n (ts ++ [t]) = firstTexts n ts := by
  rw [firstTexts, eraseDups_concat, if_pos h, firstTexts]

/-- A new text is put at the end if there are not enough texts yet. -/
theorem firstTexts_concat (h : t ∉ firstTexts n ts) (hlength : (firstTexts n ts).length < n) :
    firstTexts n (ts ++ [t]) = firstTexts n ts ++ [t] := by
  rw [firstTexts, List.length_take] at hlength
  have hall : firstTexts n ts = ts.eraseDups := List.take_of_length_le (by omega)
  rw [hall, List.mem_eraseDups] at h
  rw [hall, firstTexts, eraseDups_concat, if_neg h]
  refine List.take_of_length_le ?_
  rw [List.length_append, List.length_singleton]
  omega

/-- Whether the first `n` different texts of a list have been found. -/
structure Found.Holds (f : Found) (n : Nat) (ts : List String) : Prop where
  /-- They have been found in their order. -/
  toList_eq : f.toList = firstTexts n ts
  /-- The set holds the same texts. -/
  mem_known_iff : ∀ t, t ∈ f.known ↔ t ∈ firstTexts n ts
  /-- The set has as many texts. -/
  size_known_eq : f.known.size = (firstTexts n ts).length

namespace Found.Holds

variable {f : Found}

theorem nil (n : Nat) : Found.Holds {} n [] := by
  refine ⟨?_, ?_, ?_⟩
  · simp [Found.toList, firstTexts]
  · simp [firstTexts]
  · simp [firstTexts]

/-- Enough texts are not changed by later ones. -/
theorem append (h : f.Holds n ts) (hfull : n ≤ f.known.size) (us : List String) :
    f.Holds n (ts ++ us) := by
  rw [h.size_known_eq] at hfull
  have heq := firstTexts_append hfull us
  exact ⟨heq ▸ h.toList_eq, heq ▸ h.mem_known_iff, heq ▸ h.size_known_eq⟩

/-- One more text is found. -/
theorem add (h : f.Holds n ts) (t : String) : (f.add n t).Holds n (ts ++ [t]) := by
  rw [Found.add]
  split
  · next hfull =>
    rw [Bool.or_eq_true, decide_eq_true_eq, ExtTreeSet.contains_iff_mem, Int.ofNat_le] at hfull
    rcases hfull with hmem | hfull
    · have heq : firstTexts n (ts ++ [t]) = firstTexts n ts :=
        firstTexts_concat_of_mem (mem_of_mem_firstTexts ((h.mem_known_iff t).1 hmem))
      exact ⟨heq ▸ h.toList_eq, heq ▸ h.mem_known_iff, heq ▸ h.size_known_eq⟩
    · exact h.append hfull [t]
  · next hroom =>
    rw [Bool.or_eq_true, decide_eq_true_eq, ExtTreeSet.contains_iff_mem, Int.ofNat_le,
      not_or, Nat.not_le] at hroom
    obtain ⟨hnew, hroom⟩ := hroom
    rw [h.mem_known_iff] at hnew
    rw [h.size_known_eq] at hroom
    have heq := firstTexts_concat hnew hroom
    refine ⟨?_, fun u => ?_, ?_⟩
    · rw [heq, ← h.toList_eq, Found.toList, List.reverse_cons, Found.toList]
    · rw [heq, ExtTreeSet.mem_insert, h.mem_known_iff, List.mem_append, List.mem_singleton,
        Std.compare_eq_iff_eq, or_comm, @eq_comm _ u]
    · have hcontains : f.known.contains t = false := by
        rw [Bool.eq_false_iff, ne_eq, ExtTreeSet.contains_iff_mem, h.mem_known_iff]
        exact hnew
      rw [heq, ExtTreeSet.size_insert, hcontains, h.size_known_eq, List.length_append]
      rfl

end Found.Holds

/-! ### Sifting -/

/-- Whether a search has met no error and has found, of the texts seen so far, the first `n` of
either verdict. -/
structure Search.Sifts (s : Search) (n : Nat) (verdict : String → Bool) (seen : List String) :
    Prop where
  /-- No error has been met. -/
  error_eq : s.error = none
  /-- The accepted texts have been found. -/
  accepted : s.accepted.Holds n (seen.filter verdict)
  /-- The rejected texts have been found. -/
  rejected : s.rejected.Holds n (seen.filter (!verdict ·))
  /-- A search that is complete has found enough. -/
  enough : s.complete = true → n ≤ s.accepted.known.size ∧ n ≤ s.rejected.known.size

namespace Search

variable {s : Search} {verdict : String → Bool} {seen : List String}

/-- What a complete search has found is not changed by later texts. -/
theorem Sifts.append (h : s.Sifts n verdict seen) (hcomplete : s.complete = true)
    (us : List String) : s.Sifts n verdict (seen ++ us) := by
  obtain ⟨haccepted, hrejected⟩ := h.enough hcomplete
  refine ⟨h.error_eq, ?_, ?_, h.enough⟩
  · rw [List.filter_append]
    exact h.accepted.append haccepted _
  · rw [List.filter_append]
    exact h.rejected.append hrejected _

/-- One more candidate is sifted. -/
theorem Sifts.offer (h : s.Sifts n verdict seen) {t : String} (ht : Text.join "" w = t)
    (hverdict : d.accepts (Symbol.ofText t) = .ok (verdict t)) :
    (s.offer d n w).Sifts n verdict (seen ++ [t]) := by
  simp only [Search.offer, ht, hverdict]
  refine ⟨h.error_eq, ?_, ?_, fun hcomplete => ?_⟩
  · rw [List.filter_append]
    cases hv : verdict t with
    | true => simpa [hv] using h.accepted.add t
    | false => simpa [hv] using h.accepted
  · rw [List.filter_append]
    cases hv : verdict t with
    | true => simpa [hv] using h.rejected
    | false => simpa [hv] using h.rejected.add t
  · rwa [Bool.and_eq_true, decide_eq_true_eq, decide_eq_true_eq, Int.ofNat_le, Int.ofNat_le]
      at hcomplete

/-- A search sifts as many candidates as its budget allows. -/
theorem Sifts.foldl (h : s.Sifts n verdict seen)
    (hverdict : ∀ t, d.accepts (Symbol.ofText t) = .ok (verdict t)) (ws : List (List Symbol)) :
    (ws.foldl (tryNext d n) s).Sifts n verdict (seen ++ (ws.take s.budget).map (Text.join "")) := by
  induction ws generalizing s seen with
  | nil => simpa using h
  | cons w ws ih =>
    by_cases hended : s.ended = true
    · rw [foldl_tryNext_of_ended hended]
      rw [ended, h.error_eq, Option.isSome_none, Bool.or_false, Bool.or_eq_true, beq_iff_eq]
        at hended
      rcases hended with hbudget | hcomplete
      · simpa [hbudget] using h
      · exact h.append hcomplete _
    · obtain ⟨b, hb⟩ : ∃ b, s.budget = b + 1 := by
        refine Nat.exists_eq_succ_of_ne_zero fun hzero => hended ?_
        rw [ended, hzero]
        rfl
      have hbudget : (s.offer d n w).budget = b := by
        simp only [Search.offer, hverdict, hb]
        rfl
      have hrest := ih (h.offer rfl (hverdict (Text.join "" w)))
      rw [hbudget, List.append_assoc] at hrest
      rw [List.foldl_cons, tryNext, if_neg hended, hb, List.take_succ_cons, List.map_cons]
      exact hrest

end Search

/-! ### The samples -/

/-- The enumeration of the words over an alphabet up to a length, the shorter ones first and words
of one length in the order of their symbols. -/
structure Enumerates (alphabet : ExtTreeSet Symbol) (maxLength : Int) (ws : List (List Symbol)) :
    Prop where
  /-- All these words are enumerated, and no others. -/
  mem_iff : ∀ w : List Symbol, w ∈ ws ↔ (w.length : Int) ≤ maxLength ∧ ∀ x ∈ w, x ∈ alphabet
  /-- The words ascend. -/
  pairwise : ws.Pairwise ShortlexLt

theorem enumerates_candidates (alphabet : ExtTreeSet Symbol) (maxLength : Int) :
    Enumerates alphabet maxLength (candidates alphabet.toList (maxLength + 1).toNat 0) := by
  constructor
  · intro w
    simp only [mem_candidates, ExtTreeSet.mem_toList]
    refine and_congr_left fun _ => ?_
    omega
  · exact pairwise_shortlexLt_candidates (Symbol.pairwise_lt_toList alphabet)

/-- The first `n` different texts of either verdict, each with its verdict, the accepted ones
first. -/
def sifted (n : Nat) (verdict : String → Bool) (ts : List String) : List (String × Bool) :=
  (firstTexts n (ts.filter verdict)).map (·, true) ++
    (firstTexts n (ts.filter (!verdict ·))).map (·, false)

theorem map_fst_sifted (n : Nat) (verdict : String → Bool) (ts : List String) :
    (sifted n verdict ts).map Prod.fst =
      firstTexts n (ts.filter verdict) ++ firstTexts n (ts.filter (!verdict ·)) := by
  have hfst (b : Bool) (us : List String) : (us.map (·, b)).map Prod.fst = us := by
    rw [List.map_map]
    exact List.map_id us
  rw [sifted, List.map_append, hfst, hfst]

/-- No text is found twice. -/
theorem nodup_map_fst_sifted (n : Nat) (verdict : String → Bool) (ts : List String) :
    ((sifted n verdict ts).map Prod.fst).Nodup := by
  rw [map_fst_sifted]
  refine (nodup_firstTexts n _).append (nodup_firstTexts n _) fun t haccepted hrejected => ?_
  have htrue := (List.mem_filter.1 (mem_of_mem_firstTexts haccepted)).2
  have hfalse := (List.mem_filter.1 (mem_of_mem_firstTexts hrejected)).2
  rw [htrue] at hfalse
  cases hfalse

theorem mem_of_mem_sifted {n : Nat} {verdict : String → Bool}
    (ht : t ∈ (sifted n verdict ts).map Prod.fst) : t ∈ ts := by
  rw [map_fst_sifted, List.mem_append] at ht
  rcases ht with ht | ht <;> exact List.mem_of_mem_filter (mem_of_mem_firstTexts ht)

/-- Where every text has a verdict, the samples are sifted out of the candidates. -/
theorem samples_eq_ok {verdict : String → Bool}
    (hverdict : ∀ t, d.accepts (Symbol.ofText t) = .ok (verdict t)) {limits : SampleLimits}
    (hlimit : 0 ≤ limits.limit)
    (hcount : ¬(limits.maxCandidates < 0 ∨ maxCandidateCount < limits.maxCandidates)) :
    d.samples limits = .ok (sifted limits.limit.toNat verdict
      (((candidates d.alphabet.toList (limits.maxLength + 1).toNat 0).take
        limits.maxCandidates.toNat).map (Text.join ""))) := by
  have hstart : Search.Sifts { budget := limits.maxCandidates.toNat } limits.limit.toNat verdict
      [] :=
    ⟨rfl, Found.Holds.nil _, Found.Holds.nil _, fun hcomplete => nomatch hcomplete⟩
  have hend := hstart.foldl hverdict
    (candidates d.alphabet.toList (limits.maxLength + 1).toNat 0)
  rw [Int.toNat_of_nonneg hlimit, ← Search.sweepLengths_eq_foldl, List.nil_append] at hend
  rw [samples, if_neg hcount]
  simp only [hend.error_eq, hend.accepted.toList_eq, hend.rejected.toList_eq]
  rfl

/-- The probes are samples, out of the words of at most three symbols, and the first symbol of the
wildcard that the automaton does not read. -/
theorem exists_probes_eq_ok {verdict : String → Bool}
    (hverdict : ∀ t, d.accepts (Symbol.ofText t) = .ok (verdict t)) :
    ∃ ws : List (List Symbol), Enumerates d.alphabet 3 ws ∧
      d.probes = .ok ((sifted 10 verdict ((ws.take 20000).map (Text.join ""))).map Prod.fst ++
        (Symbol.wildcard.find? fun x => !d.alphabet.contains x).toList) := by
  refine ⟨_, enumerates_candidates d.alphabet 3, ?_⟩
  rw [probes, samples_eq_ok hverdict (by decide) (by decide)]
  rfl

/-- The samples of a closed automaton. Of the words over its alphabet up to the greatest length, as
many as there may be candidates are put together to texts. The samples are the first different ones
that are accepted, up to the limit, and then those that are not. -/
theorem Closed.samples_eq_sifted (h : d.Closed) (limits : SampleLimits)
    (hlimit : 0 ≤ limits.limit) (hleast : 0 ≤ limits.maxCandidates)
    (hgreatest : limits.maxCandidates ≤ maxCandidateCount) :
    ∃ (ws : List (List Symbol)) (verdict : String → Bool) (found : List (String × Bool)),
      Enumerates d.alphabet limits.maxLength ws ∧
      (∀ t, d.accepts (Symbol.ofText t) = .ok (verdict t)) ∧
      d.samples limits = .ok found ∧
      found = sifted limits.limit.toNat verdict
        ((ws.take limits.maxCandidates.toNat).map (Text.join "")) ∧
      (found.map Prod.fst).Nodup := by
  let verdict (t : String) : Bool := (d.follow d.start (Symbol.ofText t)).any d.acceptsAt
  have hverdict (t : String) : d.accepts (Symbol.ofText t) = .ok (verdict t) := h.accepts_eq _
  exact ⟨_, verdict, _, enumerates_candidates _ _, hverdict,
    samples_eq_ok hverdict hlimit (by omega), rfl, nodup_map_fst_sifted _ _ _⟩

/-- An automaton that accepts the texts with evenly many characters `a`. A symbol of its alphabet
has two characters. -/
def evens : Dfa where
  start := 0
  states := .ofList [
    ((0 : StateId), DfaState.mk true (.ofList [("a", (1 : StateId))])),
    ((1 : StateId), DfaState.mk false (.ofList [("a", (0 : StateId))]))]
  alphabet := .ofList ["a", "aa"]

theorem closed_evens : evens.Closed where
  start_mem := by simp [evens, ExtTreeMap.mem_ofList]
  target_mem := by
    intro id s x target hs htarget
    have hmem := (getElem?_ofList_eq_some_iff (by decide)).1 hs
    obtain ⟨rfl, rfl⟩ | ⟨rfl, rfl⟩ :
        (id = 0 ∧ s = DfaState.mk true (.ofList [("a", (1 : StateId))])) ∨
          (id = 1 ∧ s = DfaState.mk false (.ofList [("a", (0 : StateId))])) := by simpa using hmem
    · have hedge := (getElem?_ofList_eq_some_iff (by decide)).1 htarget
      obtain ⟨rfl, rfl⟩ : x = "a" ∧ target = 1 := by simpa using hedge
      simp [evens, ExtTreeMap.mem_ofList]
    · have hedge := (getElem?_ofList_eq_some_iff (by decide)).1 htarget
      obtain ⟨rfl, rfl⟩ : x = "a" ∧ target = 0 := by simpa using hedge
      simp [evens, ExtTreeMap.mem_ofList]

/-- Five candidates make four texts, as two of them make the same one. -/
theorem samples_evens : evens.Closed ∧
    evens.samples { maxLength := 2, limit := 2, maxCandidates := 5 } =
      .ok [("", true), ("aa", true), ("a", false), ("aaa", false)] ∧
    ∃ (ws : List (List Symbol)) (verdict : String → Bool), Enumerates evens.alphabet 2 ws ∧
      (∀ t, evens.accepts (Symbol.ofText t) = .ok (verdict t)) ∧
      sifted 2 verdict ((ws.take 5).map (Text.join "")) =
        [("", true), ("aa", true), ("a", false), ("aaa", false)] := by
  have hsamples : evens.samples { maxLength := 2, limit := 2, maxCandidates := 5 } =
      .ok [("", true), ("aa", true), ("a", false), ("aaa", false)] := by decide
  obtain ⟨ws, verdict, found, hwords, hverdict, hfound, heq, -⟩ :=
    closed_evens.samples_eq_sifted { maxLength := 2, limit := 2, maxCandidates := 5 }
      (by decide) (by decide) (by decide)
  refine ⟨closed_evens, hsamples, ws, verdict, hwords, hverdict, ?_⟩
  exact heq.symm.trans (Except.ok.inj (hfound.symm.trans hsamples))

end PatternMachines.Dfa
