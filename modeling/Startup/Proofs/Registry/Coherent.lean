import Startup.Proofs.Registry.Singletons

/-!
What a registry remembers of its definitions. A definition that was looked up for creation is kept
until it is replaced or removed, so what is remembered is always what is registered.

Main statements: `Coherent.after`, that every lawful history keeps a registry coherent, and
`Coherent.of_run` for a registry that is empty in the beginning.
-/

namespace Startup.Registry

variable {H : Host} {σ : Type}

/-- What is remembered for creation is registered. -/
def Coherent (s : Registry H) : Prop :=
  ∀ n d, s.merged.get? n = some d → s.definitions.get? n = some d

theorem Coherent.of_unmerged {s : Registry H} (h : s.merged = ∅) : s.Coherent := by
  intro n d hd
  rw [h] at hd
  cases hd

/-- In a run that begins with an empty registry, the registry is coherent at every moment and in the
end. -/
theorem Coherent.of_run {α : Type} (b : Behaviour H σ) (depth : Nat) (x : Program H σ α)
    (r : ObjectId) (c : Option (Comparator H)) {w w' : World H σ} {a : α} {j : Journal H}
    (hempty : w.registries.get r = { comparator? := c })
    (hrun : b.run depth x w = some (a, w', j)) :
    (w'.registries.get r).Coherent ∧ ∀ past future, Journal.moments j = past ++ future →
      ((Ledger.start c).after r past).registry.Coherent := by
  obtain ⟨hlaw, hregistry, -⟩ :=
    Tracks.program b depth x (Ledger.start c) w a w' j hrun (by rw [hempty]; rfl)
  constructor
  · rw [← hregistry]
    exact ((Ledger.sound_start c).after hlaw).merged
  · intro past future hsplit
    rw [hsplit] at hlaw
    exact ((Ledger.sound_start c).after (Ledger.lawful_append.1 hlaw).1).merged

theorem Coherent.lookup {s : Registry H} (h : s.Coherent) (n : ComponentName) :
    (s.lookup n).1 = s.definitions.get? n := by
  unfold Registry.lookup
  split <;> rename_i hm
  · exact (h n _ hm).symm
  · split <;> rename_i hd <;> exact hd.symm

theorem Coherent.after_lookup {s : Registry H} (h : s.Coherent) (n : ComponentName) :
    (s.lookup n).2.Coherent := by
  unfold Registry.lookup
  split
  · exact h
  · split <;> rename_i hd
    · intro k d hk
      rw [OrderedMap.get?_insert] at hk
      split at hk <;> rename_i hn
      · rw [← hn, hd, hk]
      · exact h k d hk
    · exact h

/-- A new definition forgets what was remembered under its name. -/
theorem Coherent.define {s : Registry H} (h : s.Coherent) (d : Definition H) :
    (s.define d).Coherent := by
  intro n d' hd
  simp only [Registry.define, OrderedMap.get?_erase] at hd
  split at hd <;> rename_i hn
  · cases hd
  · simp only [Registry.define, OrderedMap.get?_insert, if_neg hn]
    exact h n d' hd

theorem Coherent.undefine {s : Registry H} (h : s.Coherent) (n : ComponentName) :
    (s.undefine n).Coherent := by
  intro k d hd
  simp only [Registry.undefine, OrderedMap.get?_erase] at hd ⊢
  split at hd <;> rename_i hn
  · cases hd
  · rw [if_neg hn]
    exact h k d hd

theorem Coherent.prepare {s : Registry H} (h : s.Coherent) (n : ComponentName) :
    (s.prepare n).Coherent := by
  unfold Registry.prepare
  split
  · exact h
  · exact h.after_lookup n

/-- No change makes a coherent registry incoherent. -/
theorem Coherent.step {r : ObjectId} {l : Ledger H} {m : Moment H} {s : Registry H}
    (h : l.registry.Coherent) (hstep : l.Step r m s) : s.Coherent := by
  cases hstep with
  | defined d hname => exact h.define d
  | removed n hn => exact h.undefine n
  | resolution v n => exact h.prepare n
  | cleared => exact fun n d hd => by cases hd
  | ended =>
    rw [Registry.conclude_eq]
    exact h
  | kept | installed | begun | elsewhere => exact h

theorem Coherent.after {r : ObjectId} {l : Ledger H} {ms : List (Moment H)}
    (h : l.registry.Coherent) (hlaw : l.Lawful r ms) : (l.after r ms).registry.Coherent := by
  induction ms generalizing l with
  | nil => exact h
  | cons m ms ih =>
    obtain ⟨hm, hrest⟩ := hlaw
    exact ih (h.step (Ledger.step hm)) hrest

end Startup.Registry
