import Startup.Proofs.Pipeline.Callbacks
import Startup.Proofs.Registry.Queries

/-!
Tiers of the pipeline. A tier first fetches its components, one after the other, and then calls
their extensions in the order of their ranks.

Main statements: `exists_tier`, that fetched components and a sorted list of their extensions are a
tier; `Fair.tier_append`, that a tier of new components is fair.
-/

namespace Startup

variable {H : Host} {σ : Type}

namespace Pipeline

/-! ## Tiers -/

/-- What a tier did: which components it fetched, and in which order it called their extensions. -/
structure Tier (H : Host) (p : MutationPhase) where
  found : List (ComponentName × Extension H)
  ranked : List (ComponentName × Extension H)
  perm : ranked.Perm found
  supports : ∀ q ∈ found, q.2.supports p.capability = true

namespace Tier

variable {p : MutationPhase}

def names (t : Tier H p) : List ComponentName := t.found.map Prod.fst

/-- The extensions of a tier, in the order of their ranks. -/
def extensions (t : Tier H p) : List (Extension H) := t.ranked.map Prod.snd

def deeds (t : Tier H p) : List (Deed H) :=
  Deed.fetches p.capability t.found ++ Deed.calls p t.extensions

@[simp] theorem fetchedNames_deeds (t : Tier H p) : Deed.fetchedNames t.deeds = t.names := by
  simp [deeds, names]

theorem mem_extensions {t : Tier H p} {e : Extension H} (h : e ∈ t.extensions) :
    e.supports p.capability = true := by
  obtain ⟨q, hq, rfl⟩ := List.mem_map.1 h
  exact t.supports q (t.perm.mem_iff.1 hq)

/-- The definition mutators that a tier fetched have a definition callback. -/
theorem filter_definition (t : Tier H .definition) :
    t.extensions.filter (·.views.definitionMutator) = t.extensions :=
  List.filter_eq_self.2 fun _ he => mem_extensions he

theorem filter_factory (t : Tier H .factory) :
    t.extensions.filter hasFactoryCallback = t.extensions := by
  apply List.filter_eq_self.2
  intro e he
  have hsupports : (e.views.factoryMutator || e.views.definitionMutator) = true :=
    mem_extensions he
  rw [hasFactoryCallback, Bool.or_comm, hsupports]

end Tier

/-- An order of the values is an order of the pairs. -/
theorem exists_perm_of_map {α β : Type} {f : α → β} {l : List α} {m : List β}
    (h : m.Perm (l.map f)) : ∃ k : List α, k.Perm l ∧ k.map f = m := by
  generalize hl : l.map f = l' at h
  induction h generalizing l with
  | nil => exact ⟨l, .refl _, hl⟩
  | cons x _ ih =>
    obtain ⟨a, l, rfl, rfl, hrest⟩ := List.map_eq_cons_iff.1 hl
    obtain ⟨k, hk, rfl⟩ := ih hrest
    exact ⟨a :: k, hk.cons a, rfl⟩
  | swap x y m =>
    obtain ⟨a, l, rfl, rfl, hrest⟩ := List.map_eq_cons_iff.1 hl
    obtain ⟨b, l, rfl, rfl, rfl⟩ := List.map_eq_cons_iff.1 hrest
    exact ⟨b :: a :: l, .swap a b l, rfl⟩
  | trans _ _ ih₁ ih₂ =>
    obtain ⟨k₂, hk₂, rfl⟩ := ih₂ hl
    obtain ⟨k₁, hk₁, rfl⟩ := ih₁ rfl
    exact ⟨k₁, hk₁.trans hk₂, rfl⟩

/-- Fetched components, called in any order of their extensions, are a tier. -/
theorem exists_tier {p : MutationPhase} {found : List (ComponentName × Extension H)}
    (hfound : ∀ q ∈ found, q.2.supports p.capability = true) {sorted : List (Extension H)}
    (h : sorted.Perm (found.map Prod.snd)) :
    ∃ t : Tier H p, t.found = found ∧ t.extensions = sorted := by
  obtain ⟨ranked, hperm, hsorted⟩ := exists_perm_of_map h
  exact ⟨⟨found, ranked, hperm, hfound⟩, rfl, hsorted⟩

/-! ## Fairness -/

/-- The components that are fetched are distinct and were not known before, and all is done within
one phase. -/
structure Fair (known : List ComponentName) (p : MutationPhase) (ds : List (Deed H)) : Prop where
  fresh : (known ++ Deed.fetchedNames ds).Nodup
  within : ∀ d ∈ ds, d.Within p

namespace Fair

variable {known : List ComponentName} {p : MutationPhase} {ds ds' : List (Deed H)}

theorem append (h : Fair known p ds) (h' : Fair (known ++ Deed.fetchedNames ds) p ds') :
    Fair known p (ds ++ ds') where
  fresh := by
    rw [Deed.fetchedNames_append, ← List.append_assoc]
    exact h'.fresh
  within := List.forall_mem_append.2 ⟨h.within, h'.within⟩

theorem entered (h : Fair known p ds) {q : Phase} (hq : q = .factoryCallbacks → p = .factory) :
    Fair known p (.entered q :: ds) where
  fresh := h.fresh
  within := List.forall_mem_cons.2 ⟨hq, h.within⟩

theorem of_onlyCalls (hknown : known.Nodup) (h : OnlyCalls p ds) : Fair known p ds where
  fresh := by
    have hnone : Deed.fetchedNames ds = [] := by
      apply List.filterMap_eq_nil_iff.2
      intro d hd
      obtain ⟨e, f, rfl⟩ := h d hd
      rfl
    rw [hnone, List.append_nil]
    exact hknown
  within d hd := by
    obtain ⟨e, f, rfl⟩ := h d hd
    rfl

theorem calls_append {es : List (Extension H)} (h : Fair known p ds) :
    Fair known p (Deed.calls p es ++ ds) where
  fresh := by
    rw [Deed.fetchedNames_append, Deed.fetchedNames_calls, List.nil_append]
    exact h.fresh
  within := List.forall_mem_append.2 ⟨Deed.within_calls p es, h.within⟩

/-- What comes after fetches that succeeded. -/
theorem fetches_append {found : List (ComponentName × Extension H)}
    (h : Fair (known ++ found.map Prod.fst) p ds) :
    Fair known p (Deed.fetches p.capability found ++ ds) where
  fresh := by
    rw [Deed.fetchedNames_append, Deed.fetchedNames_fetches, ← List.append_assoc]
    exact h.fresh
  within := List.forall_mem_append.2 ⟨Deed.within_fetches p found, h.within⟩

theorem tier_append {t : Tier H p} (h : Fair (known ++ t.names) p ds) :
    Fair known p (t.deeds ++ ds) := by
  rw [Tier.deeds, List.append_assoc]
  exact fetches_append h.calls_append

/-- The definition phase is over when the factory phase is entered. -/
theorem not_entered (h : Fair known .definition ds) : .entered .factoryCallbacks ∉ ds :=
  fun hmem => MutationPhase.noConfusion (h.within _ hmem rfl)

/-- Tiers one after the other. -/
theorem tiers {ts : List (Tier H p)} (h : (known ++ ts.flatMap Tier.names).Nodup) :
    Fair known p (ts.flatMap Tier.deeds) := by
  induction ts generalizing known with
  | nil => exact of_onlyCalls (by simpa using h) fun _ hd => absurd hd List.not_mem_nil
  | cons t rest ih =>
    rw [List.flatMap_cons, ← List.append_assoc] at h
    exact tier_append (ih h)

end Fair

theorem fetchedNames_tiers {p : MutationPhase} (ts : List (Tier H p)) :
    Deed.fetchedNames (ts.flatMap Tier.deeds) = ts.flatMap Tier.names := by
  induction ts with
  | nil => rfl
  | cons t rest ih => simp [ih]

end Pipeline

end Startup
