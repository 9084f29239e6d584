import Mathlib.Data.List.Dedup
import Mathlib.Data.List.Perm.Subperm
import Startup.Proofs.Registry.Chain

/-!
The chain of a registry as the image of its installations. To install an interceptor puts it at
the end of the chain, wherever it was before, so that of several installations of one object the
last one counts.

Main statement: `Ledger.Lawful.chain`. After any moments the chain is what it was before them,
followed by all interceptors that were installed since, with the last occurrence of each object
kept. So it never gets shorter, and no object stands in it twice.
-/

namespace Startup

variable {H : Host} {σ : Type}

/-! ## The last occurrence of each object -/

/-- No object stands in a list twice. -/
def Distinct (l : List (Extension H)) : Prop := l.Pairwise fun a b => a.id ≠ b.id

/-- Of each object the last occurrence only. -/
def keepLast (l : List (Extension H)) : List (Extension H) := l.pwFilter fun a b => a.id ≠ b.id

section KeepLast

variable {l k : List (Extension H)} {e x : Extension H}

theorem distinct_keepLast (l : List (Extension H)) : Distinct (keepLast l) :=
  List.pairwise_pwFilter l

theorem keepLast_of_distinct (h : Distinct l) : keepLast l = l := List.pwFilter_eq_self.2 h

theorem mem_of_mem_keepLast (h : e ∈ keepLast l) : e ∈ l := List.pwFilter_subset l h

/-- Nothing but repetitions is dropped. -/
theorem forall_id_keepLast (i : ObjectId) : (∀ x ∈ keepLast l, i ≠ x.id) ↔ ∀ x ∈ l, i ≠ x.id := by
  induction l with
  | nil => simp [keepLast]
  | cons y rest ih =>
    unfold keepLast at ih ⊢
    by_cases hy : ∀ x ∈ rest.pwFilter (fun a b => a.id ≠ b.id), y.id ≠ x.id
    · rw [List.pwFilter_cons_of_pos hy, List.forall_mem_cons, List.forall_mem_cons, ih]
    · rw [List.pwFilter_cons_of_neg hy, List.forall_mem_cons, ih]
      refine ⟨fun h => ⟨?_, h⟩, fun h => h.2⟩
      rintro rfl
      exact hy (ih.2 h)

/-- Every object of a list is kept in one of its occurrences. -/
theorem exists_mem_keepLast (h : e ∈ l) : ∃ x ∈ keepLast l, x.id = e.id := by
  by_contra hnone
  have hall : ∀ x ∈ keepLast l, e.id ≠ x.id := fun x hx heq => hnone ⟨x, hx, heq.symm⟩
  exact (forall_id_keepLast e.id).1 hall e h rfl

theorem keepLast_cons_of_mem (h : ∃ y ∈ l, y.id = x.id) : keepLast (x :: l) = keepLast l := by
  obtain ⟨y, hy, hid⟩ := h
  refine List.pwFilter_cons_of_neg fun hall => ?_
  exact (forall_id_keepLast x.id).1 hall y hy hid.symm

theorem keepLast_cons_of_not_mem (h : ∀ y ∈ l, x.id ≠ y.id) :
    keepLast (x :: l) = x :: keepLast l :=
  List.pwFilter_cons_of_pos ((forall_id_keepLast x.id).2 h)

/-- Of the first part only those objects are kept that do not come again. -/
theorem keepLast_append (l k : List (Extension H)) :
    keepLast (l ++ k) = (keepLast l).filter (fun x => k.all fun y => !decide (y.id = x.id)) ++
      keepLast k := by
  induction l with
  | nil => rfl
  | cons x rest ih =>
    rw [List.cons_append]
    by_cases hrest : ∃ y ∈ rest, y.id = x.id
    · rw [keepLast_cons_of_mem hrest, ← ih, keepLast_cons_of_mem]
      obtain ⟨y, hy, hid⟩ := hrest
      exact ⟨y, List.mem_append_left k hy, hid⟩
    · have hnew : ∀ y ∈ rest, x.id ≠ y.id := fun y hy hid => hrest ⟨y, hy, hid.symm⟩
      rw [keepLast_cons_of_not_mem hnew]
      by_cases hk : ∃ y ∈ k, y.id = x.id
      · obtain ⟨y, hy, hid⟩ := hk
        rw [keepLast_cons_of_mem ⟨y, List.mem_append_right rest hy, hid⟩, ih,
          List.filter_cons_of_neg]
        simpa using ⟨y, hy, hid⟩
      · have hlast : ∀ y ∈ k, x.id ≠ y.id := fun y hy hid => hk ⟨y, hy, hid.symm⟩
        rw [keepLast_cons_of_not_mem (List.forall_mem_append.2 ⟨hnew, hlast⟩), ih,
          List.filter_cons_of_pos]
        · rfl
        · simpa using fun y hy => Ne.symm (hlast y hy)

/-- What was dropped already makes no difference. -/
theorem keepLast_keepLast_append (l k : List (Extension H)) :
    keepLast (keepLast l ++ k) = keepLast (l ++ k) := by
  rw [keepLast_append, keepLast_of_distinct (distinct_keepLast l), ← keepLast_append]

theorem keepLast_concat (l : List (Extension H)) (e : Extension H) :
    keepLast (l ++ [e]) = (keepLast l).filter (fun x => !decide (x.id = e.id)) ++ [e] := by
  rw [keepLast_append]
  congr 1
  apply List.filter_congr
  intro x _
  simp [eq_comm]

theorem getLast?_keepLast_concat (l : List (Extension H)) (e : Extension H) :
    (keepLast (l ++ [e])).getLast? = some e := by
  rw [keepLast_concat, List.getLast?_concat]

/-- More installations never make a list shorter. -/
theorem length_keepLast_le (l k : List (Extension H)) :
    (keepLast l).length ≤ (keepLast (l ++ k)).length := by
  have hsub : (keepLast l).map (·.id) ⊆ (keepLast (l ++ k)).map (·.id) := by
    intro i hi
    obtain ⟨x, hx, rfl⟩ := List.mem_map.1 hi
    obtain ⟨y, hy, hid⟩ :=
      exists_mem_keepLast (List.mem_append_left k (mem_of_mem_keepLast hx))
    exact List.mem_map.2 ⟨y, hy, hid⟩
  have hnodup : ((keepLast l).map (·.id)).Nodup := List.pairwise_map.2 (distinct_keepLast l)
  have hle := (List.subperm_of_subset hnodup hsub).length_le
  rwa [List.length_map, List.length_map] at hle

/-- What is kept is one member for each object. -/
theorem length_keepLast (l : List (Extension H)) :
    (keepLast l).length = ((l.map (·.id)).dedup).length := by
  have hnodup : ((keepLast l).map (·.id)).Nodup := List.pairwise_map.2 (distinct_keepLast l)
  have hperm : ((keepLast l).map (·.id)).Perm ((l.map (·.id)).dedup) := by
    refine (List.perm_ext_iff_of_nodup hnodup (List.nodup_dedup _)).2 fun i => ?_
    rw [List.mem_dedup, List.mem_map, List.mem_map]
    constructor
    · rintro ⟨x, hx, hi⟩
      exact ⟨x, mem_of_mem_keepLast hx, hi⟩
    · rintro ⟨x, hx, hi⟩
      obtain ⟨y, hy, hid⟩ := exists_mem_keepLast hx
      exact ⟨y, hy, hid.trans hi⟩
  rw [← hperm.length_eq, List.length_map]

end KeepLast

/-! ## Installations -/

/-- The interceptor that is installed at a moment. -/
def Moment.installed? (r : ObjectId) : Moment H → Option (Extension H)
  | .fact (.installed r' e _) => if r' = r then some e else none
  | _ => none

/-- The interceptors that are installed in registry `r`, in the order of time. -/
def installs (r : ObjectId) (ms : List (Moment H)) : List (Extension H) :=
  ms.filterMap (Moment.installed? r)

theorem installs_append (r : ObjectId) (ms ms' : List (Moment H)) :
    installs r (ms ++ ms') = installs r ms ++ installs r ms' := List.filterMap_append

theorem installs_scope (r : ObjectId) (s : Scope H) (j : Journal H) :
    installs r (Journal.moments [.scope s j]) = installs r (Journal.moments j) :=
  Journal.filterMap_moments_scope rfl rfl j

/-- What came before an entry is part of what is installed in all. -/
theorem Journal.Occurs.installs_subset {e : Event H} {past : List (Moment H)} {j : Journal H}
    (h : Journal.Occurs e past j) (r : ObjectId) :
    installs r past ⊆ installs r (Journal.moments j) := by
  obtain ⟨future, hsplit⟩ := h.split
  intro x hx
  rw [hsplit, List.append_assoc, installs_append]
  exact List.mem_append_left _ hx

theorem Moment.installed?_elsewhere {r : ObjectId} {m : Moment H} (h : m.IsElsewhere r) :
    m.installed? r = none := by
  cases m with
  | fact f =>
    cases f with
    | installed => exact if_neg h
    | _ => rfl
  | _ => rfl

namespace Ledger

variable {r : ObjectId} {l : Ledger H}

/-- A moment changes the chain only by an installation. -/
theorem Step.interceptors {m : Moment H} {s : Registry H} (h : l.Step r m s) :
    s.interceptors =
      match m.installed? r with
      | some e => (l.registry.install e).interceptors
      | none => l.registry.interceptors := by
  cases h with
  | installed e position he => simp [Moment.installed?]
  | resolution => exact Registry.interceptors_prepare
  | ended => exact Registry.interceptors_conclude _ _
  | elsewhere hm => simp [Moment.installed?_elsewhere hm]
  | _ => rfl

/-- The comparator of a registry is never changed. -/
theorem Step.comparator {m : Moment H} {s : Registry H} (h : l.Step r m s) :
    s.comparator? = l.registry.comparator? := by
  cases h with
  | resolution => rw [Registry.prepare_eq]
  | ended =>
    rw [Registry.conclude_eq]
    rfl
  | _ => rfl

/-- The chain after some moments. -/
theorem Lawful.chain {ms : List (Moment H)} (hlaw : l.Lawful r ms)
    (h : Distinct l.registry.interceptors) :
    (l.after r ms).registry.interceptors =
      keepLast (l.registry.interceptors ++ installs r ms) := by
  induction ms generalizing l with
  | nil =>
    rw [after_nil, installs, List.filterMap_nil, List.append_nil, keepLast_of_distinct h]
  | cons m ms ih =>
    obtain ⟨hm, hrest⟩ := hlaw
    have hnext := (step hm).interceptors
    rw [after_cons]
    cases hi : m.installed? r with
    | none =>
      rw [hi] at hnext
      rw [ih hrest (by rw [hnext]; exact h), hnext, installs, installs,
        List.filterMap_cons_none hi]
    | some e =>
      have hinstall : (l.next r m).registry.interceptors =
          keepLast (l.registry.interceptors ++ [e]) := by
        rw [hi] at hnext
        rw [hnext, keepLast_concat, keepLast_of_distinct h]
        rfl
      rw [ih hrest (by rw [hinstall]; exact distinct_keepLast _), hinstall,
        keepLast_keepLast_append, installs, installs, List.filterMap_cons_some hi,
        List.append_assoc, List.singleton_append]

/-- Whatever stands in the chain stood there before, or was installed since. -/
theorem Lawful.mem_chain {ms : List (Moment H)} (hlaw : l.Lawful r ms) {e : Extension H}
    (he : e ∈ (l.after r ms).registry.interceptors) :
    e ∈ l.registry.interceptors ∨ e ∈ installs r ms := by
  induction ms generalizing l with
  | nil => exact .inl he
  | cons m ms ih =>
    obtain ⟨hm, hrest⟩ := hlaw
    have hnext := (step hm).interceptors
    rw [installs]
    cases hi : m.installed? r with
    | none =>
      rw [hi] at hnext
      rw [List.filterMap_cons_none hi]
      refine (ih hrest he).imp_left fun hold => ?_
      rwa [hnext] at hold
    | some x =>
      rw [hi] at hnext
      rw [List.filterMap_cons_some hi, List.mem_cons]
      rcases ih hrest he with hold | hlater
      · rw [hnext] at hold
        rcases List.mem_append.1 hold with hkept | hnew
        · exact .inl (List.mem_filter.1 hkept).1
        · exact .inr (.inl (List.mem_singleton.1 hnew))
      · exact .inr (.inr hlater)

/-- No object ever gets into a chain twice. -/
theorem Lawful.distinct {ms : List (Moment H)} (hlaw : l.Lawful r ms)
    (h : Distinct l.registry.interceptors) : Distinct (l.after r ms).registry.interceptors := by
  rw [hlaw.chain h]
  exact distinct_keepLast _

theorem Lawful.comparator {ms : List (Moment H)} (hlaw : l.Lawful r ms) :
    (l.after r ms).registry.comparator? = l.registry.comparator? := by
  induction ms generalizing l with
  | nil => rfl
  | cons m ms ih =>
    obtain ⟨hm, hrest⟩ := hlaw
    rw [after_cons, ih hrest, (step hm).comparator]

end Ledger

end Startup
