import Mathlib.Data.List.Nodup
import Startup.Registry.Basic

/-!
What the queries of a registry list. A query takes the names of all definitions that qualify, in the
order of registration; the one for a capability appends those names that were put in by hand and
whose singleton supports it.

Main statements: `mem_namesFor_iff` and `namesFor_nodup`, which names a query lists and that it
lists none of them twice; `queries_agree_iff`, when the question whether a name has a capability is
answered alike; `mem_eagerNames_iff`.
-/

namespace Startup.Registry

variable {H : Host} {s : Registry H} {n : ComponentName} {c : Capability}

/-! ## Names at the end -/

section AppendNew

variable {keep : ComponentName → Bool} {acc l : List ComponentName}

theorem mem_appendNew_iff : n ∈ appendNew keep acc l ↔ n ∈ acc ∨ n ∈ l ∧ keep n = true := by
  induction l generalizing acc with
  | nil => simp [appendNew]
  | cons k rest ih =>
    rw [appendNew, ih]
    by_cases hk : k = n
    · subst hk
      by_cases hkeep : keep k = true
      · by_cases hacc : k ∈ acc <;> simp [hkeep, hacc]
      · simp [hkeep]
    · have hmem : n ∈ (if keep k && !decide (k ∈ acc) then acc ++ [k] else acc) ↔ n ∈ acc := by
        split
        · simp [Ne.symm hk]
        · rfl
      rw [hmem]
      simp [Ne.symm hk]

theorem appendNew_nodup (keep : ComponentName → Bool) (h : acc.Nodup) (l : List ComponentName) :
    (appendNew keep acc l).Nodup := by
  induction l generalizing acc with
  | nil => exact h
  | cons n rest ih =>
    refine ih ?_
    split
    · rename_i hn
      have hnew : n ∉ acc := by simp_all
      simpa using List.Nodup.concat hnew h
    · exact h

/-- To put names at the end, only those matter that are not there yet. -/
theorem appendNew_congr {keep' : ComponentName → Bool} (h : ∀ n, n ∉ acc → keep n = keep' n)
    (l : List ComponentName) : appendNew keep acc l = appendNew keep' acc l := by
  induction l generalizing acc with
  | nil => rfl
  | cons n rest ih =>
    have hsame : (keep n && !decide (n ∈ acc)) = (keep' n && !decide (n ∈ acc)) := by
      by_cases hn : n ∈ acc
      · simp [hn]
      · rw [h n hn]
    rw [appendNew, appendNew, hsame]
    refine ih fun k hk => h k fun hold => hk ?_
    split
    · exact List.mem_append_left _ hold
    · exact hold

/-- What is put at the end are the names that qualify and are not there yet, each where it occurs
first. -/
theorem exists_appendNew (keep : ComponentName → Bool) (acc l : List ComponentName) :
    ∃ added, appendNew keep acc l = acc ++ added ∧
      (∀ n, n ∈ added ↔ n ∈ l ∧ keep n = true ∧ n ∉ acc) ∧
      added.Pairwise fun a b => l.idxOf a < l.idxOf b := by
  induction l generalizing acc with
  | nil => exact ⟨[], by simp [appendNew], by simp, .nil⟩
  | cons k rest ih =>
    -- from the second name on, positions are counted past `k`, which does not come again
    have hshift {n : ComponentName} (hn : n ≠ k) : (k :: rest).idxOf n = rest.idxOf n + 1 :=
      List.idxOf_cons_ne rest (Ne.symm hn)
    have horder {added : List ComponentName} (hadded : ∀ n ∈ added, n ≠ k)
        (h : added.Pairwise fun a b => rest.idxOf a < rest.idxOf b) :
        added.Pairwise fun a b => (k :: rest).idxOf a < (k :: rest).idxOf b := by
      apply h.imp_of_mem
      intro a b ha hb hab
      rw [hshift (hadded a ha), hshift (hadded b hb)]
      omega
    by_cases hk : keep k = true ∧ k ∉ acc
    · obtain ⟨added, heq, hmem, hpairs⟩ := ih (acc ++ [k])
      have hadded : ∀ n ∈ added, n ≠ k := by
        intro n hn
        have hnew := ((hmem n).1 hn).2.2
        simp only [List.mem_append, List.mem_singleton, not_or] at hnew
        exact hnew.2
      refine ⟨k :: added, ?_, ?_, List.pairwise_cons.2 ⟨?_, horder hadded hpairs⟩⟩
      · rw [appendNew, if_pos (by simp [hk]), heq, List.append_assoc, List.singleton_append]
      · intro n
        by_cases hn : n = k
        · subst hn
          simp [hk]
        · simp [hmem n, hn]
      · intro n hn
        rw [hshift (hadded n hn), List.idxOf_cons_self]
        omega
    · obtain ⟨added, heq, hmem, hpairs⟩ := ih acc
      have hadded : ∀ n ∈ added, n ≠ k := by
        rintro n hn rfl
        exact hk ((hmem n).1 hn).2
      refine ⟨added, ?_, ?_, horder hadded hpairs⟩
      · rw [appendNew, if_neg (by simpa using hk), heq]
      · intro n
        rw [hmem n]
        by_cases hn : n = k
        · subst hn
          simp [hk]
        · simp [hn]

end AppendNew

/-! ## Queries -/

theorem mem_definedNamesFor_iff {all : Bool} :
    n ∈ s.definedNamesFor c all ↔ ∃ d, s.definitions.get? n = some d ∧
      d.hasCapability c = true ∧ (all = true ∨ d.isSingleton = true) := by
  rw [definedNamesFor, OrderedMap.mem_keys_filter]
  simp

theorem definedNamesFor_nodup (s : Registry H) (c : Capability) (all : Bool) :
    (s.definedNamesFor c all).Nodup :=
  s.definitions.nodup.sublist (List.filter_sublist.map Prod.fst)

/-- A name is listed on account of its definition, or because it was put in by hand and its
singleton supports the capability. -/
theorem mem_namesFor_iff {all : Bool} :
    n ∈ s.namesFor c all ↔
      (∃ d, s.definitions.get? n = some d ∧ d.hasCapability c = true ∧
        (all = true ∨ d.isSingleton = true)) ∨
      n ∈ s.manual ∧ s.singletonSupports n c = true := by
  rw [namesFor, mem_appendNew_iff, mem_definedNamesFor_iff]

/-- No query lists a name twice. -/
theorem namesFor_nodup (s : Registry H) (c : Capability) (all : Bool) :
    (s.namesFor c all).Nodup :=
  appendNew_nodup _ (s.definedNamesFor_nodup c all) _

/-- Without a definition a name is listed on account of its singleton. -/
theorem singleton_of_listed {all : Bool} (hn : n ∈ s.namesFor c all)
    (hnone : s.definitions.get? n = none) : ∃ i, s.singletons.get? n = some i := by
  obtain ⟨d, hd, -⟩ | ⟨-, hsupports⟩ := mem_namesFor_iff.1 hn
  · rw [hnone] at hd
    cases hd
  · refine Option.ne_none_iff_exists'.1 fun hi => ?_
    rw [singletonSupports, hi] at hsupports
    cases hsupports

/-- The two questions about a capability are answered alike, unless a name that was put in by hand
has a definition that does not declare what its singleton supports, or a name that was not has a
singleton and no definition. -/
theorem queries_agree_iff :
    (n ∈ s.namesFor c true ↔ s.isMatch n c = true) ↔
      ¬ (n ∈ s.manual ∧ s.singletonSupports n c = true ∧
          ∃ d, s.definitions.get? n = some d ∧ d.hasCapability c = false) ∧
        ¬ (n ∉ s.manual ∧ s.singletonSupports n c = true ∧ s.definitions.get? n = none) := by
  rw [mem_namesFor_iff, isMatch]
  cases hd : s.definitions.get? n with
  | some d =>
    cases hc : d.hasCapability c <;> simp [hc]
  | none =>
    by_cases hm : n ∈ s.manual <;> simp [hm]

theorem mem_eagerNames_iff :
    n ∈ s.eagerNames ↔
      ∃ d, s.definitions.get? n = some d ∧ d.isSingleton = true ∧ d.isLazy = false := by
  rw [eagerNames, OrderedMap.mem_keys_filter]
  simp

theorem eagerNames_sublist (s : Registry H) : s.eagerNames.Sublist s.definitions.keys :=
  List.filter_sublist.map Prod.fst

end Startup.Registry
