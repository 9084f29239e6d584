import Startup.Proofs.Pipeline.DefinitionTiers

/-!
The factory mutators of a run that are fetched from the registry.

Main statements: `View.divide_leaves`, that names are divided by tier without loss;
`mutateFactory_leaves`, that the tiers of the factory phase fetch nothing that was processed, and
nothing twice.
-/

namespace Startup

variable {H : Host} {σ : Type} {call : Call H σ} {v : View} {s : Invocation} {w : World H σ}

/-! ## Dividing names by tier -/

/-- Names are divided without loss, those to skip left out. -/
theorem View.divide_leaves (c : Capability) (skip : ComponentName → Bool)
    (names : List ComponentName) :
    (v.divide call c skip names).Leaves
      (fun t ds => ∃ found : List (ComponentName × Extension H), t.priority = found.map Prod.snd ∧
        (∀ q ∈ found, q.2.supports c = true) ∧ ds = Deed.fetches c found ∧
        (found.map Prod.fst ++ (t.ordered ++ t.unordered)).Perm (names.filter fun n => !skip n))
      fun ds => (Deed.fetchedNames ds).Sublist (names.filter fun n => !skip n) ∧
        ∀ d ∈ ds, ∃ n x, d = .fetched n c x := by
  induction names with
  | nil => exact Attempt.Leaves.pure ⟨[], rfl, by simp, rfl, .refl _⟩
  | cons n rest ih =>
    unfold View.divide
    cases hskip : skip n with
    | true =>
      simp only [if_true]
      rw [List.filter_cons_of_neg (by simp [hskip])]
      exact ih
    | false =>
      simp only [Bool.false_eq_true, if_false]
      rw [List.filter_cons_of_pos (by simp [hskip])]
      apply Attempt.Leaves.silent_bind (fun w => v.isMatch_leaves n _)
      intro isPriority
      split
      · refine Attempt.Leaves.bind (v.fetch_leaves call n c) ?_ fun ds hds => ?_
        · rintro e ds₁ ⟨hsupports, rfl⟩
          refine Attempt.Leaves.bind ih ?_ fun ds hds => ?_
          · rintro t ds₂ ⟨found, hfound, hall, rfl, hperm⟩
            refine Attempt.Leaves.pure ⟨(n, e) :: found, by simp [hfound],
              List.forall_mem_cons.2 ⟨hsupports, hall⟩, by simp [Deed.fetches], ?_⟩
            exact hperm.cons n
          · exact ⟨hds.1.cons_cons n, List.forall_mem_cons.2 ⟨⟨n, _, rfl⟩, hds.2⟩⟩
        · obtain ⟨x, rfl⟩ := hds
          exact ⟨List.singleton_sublist.2 List.mem_cons_self, by simp⟩
      · apply Attempt.Leaves.silent_bind (fun w => v.isMatch_leaves n _)
        intro isOrdered
        split
        · refine Attempt.Leaves.bind ih ?_ fun ds hds => ⟨hds.1.cons n, hds.2⟩
          rintro t ds₂ ⟨found, hfound, hall, rfl, hperm⟩
          refine Attempt.Leaves.pure ⟨found, hfound, hall, by rw [List.append_nil], ?_⟩
          exact List.perm_middle.trans (hperm.cons n)
        · refine Attempt.Leaves.bind ih ?_ fun ds hds => ⟨hds.1.cons n, hds.2⟩
          rintro t ds₂ ⟨found, hfound, hall, rfl, hperm⟩
          refine Attempt.Leaves.pure ⟨found, hfound, hall, by rw [List.append_nil], ?_⟩
          refine List.Perm.trans ?_ (hperm.cons n)
          exact (List.perm_middle.append_left _).trans List.perm_middle

namespace Pipeline

/-! ## Tiers of factory mutators -/

/-- Fetches of distinct new components, the last of which may have failed. -/
theorem Fair.of_onlyFetches {known names : List ComponentName} {p : MutationPhase}
    {ds : List (Deed H)} (hnames : (known ++ names).Nodup)
    (h : (Deed.fetchedNames ds).Sublist names)
    (honly : ∀ d ∈ ds, ∃ n x, d = .fetched n p.capability x) : Fair known p ds where
  fresh := hnames.sublist (h.append_left known)
  within d hd := by
    obtain ⟨n, x, rfl⟩ := honly d hd
    rfl

theorem callTier_leaves (t : Tier H .factory) {known : List ComponentName}
    (hknown : known.Nodup) :
    (callFactories call v t.extensions).Leaves s w
      (fun _ s' _ ds => s' = factoriesCalled s t.extensions ∧
        ds = Deed.calls .factory t.extensions)
      (Fair known .factory) := by
  refine (callFactories_leaves t.extensions).mono ?_ fun ds hds => Fair.of_onlyCalls hknown hds
  rw [t.filter_factory]
  exact fun _ _ _ _ => id

theorem runFactoryTier_leaves {known names : List ComponentName}
    (hnames : (known ++ names).Nodup) :
    (runFactoryTier call v names).Leaves s w
      (fun _ s' _ ds => ∃ t : Tier H .factory, t.names = names ∧
        s' = factoriesCalled s t.extensions ∧ ds = t.deeds)
      (Fair known .factory) := by
  refine Stage.Leaves.bind (Stage.Leaves.attempt (v.fetchAll_leaves call _ names)) ?_ fun ds hds =>
    Fair.of_onlyFetches hnames hds.1 hds.2
  rintro es s₁ w₁ ds₁ ⟨rfl, found, rfl, rfl, hfound, rfl⟩
  apply Stage.Leaves.silent_bind (v.sort_leaves _)
  intro sorted w₂ hsorted
  obtain ⟨t, rfl, rfl⟩ := exists_tier (p := .factory) hfound hsorted.1
  refine (callTier_leaves t hnames).mono ?_ fun ds hds => Fair.fetches_append (p := .factory) hds
  rintro _ s' w' ds ⟨rfl, rfl⟩
  exact ⟨t, rfl, rfl, rfl⟩

/-- The tiers of the factory phase fetch nothing that was processed, and nothing twice. -/
theorem mutateFactory_leaves (hphase : s.report.phase = .factoryCallbacks)
    (hknown : s.processed.Nodup) :
    (mutateFactory call v).Leaves s w
      (fun _ s' _ ds => ∃ ts : List (Tier H .factory),
        s' = factoriesCalled s (ts.flatMap Tier.extensions) ∧ ds = ts.flatMap Tier.deeds ∧
        (s.processed ++ ts.flatMap Tier.names).Nodup)
      (Fair s.processed .factory) := by
  refine enter_again_bind hphase ?_
  apply Stage.Leaves.silent_bind (v.names_leaves _ _ _)
  intro names w₁ hquery
  obtain ⟨rfl, rfl⟩ := hquery
  refine Stage.Leaves.get_bind ?_
  -- the names that the query lists and that are not processed, whatever their tiers
  have hnew : (s.processed ++ ((w₁.registries.get v.registry).namesFor .factoryMutator true).filter
      fun n => !decide (n ∈ s.processed)).Nodup := by
    refine List.Nodup.append hknown ((Registry.namesFor_nodup _ _ _).filter _) ?_
    intro n hn hn'
    simpa [hn] using List.of_mem_filter hn'
  refine Stage.Leaves.bind (Stage.Leaves.attempt (v.divide_leaves _ _ _)) ?_ fun ds hds =>
    Fair.of_onlyFetches hnew hds.1 hds.2
  rintro tiers s₁ w₂ ds₁ ⟨rfl, found, hfound, hall, rfl, hperm⟩
  have hnames :
      (s₁.processed ++ (found.map Prod.fst ++ (tiers.ordered ++ tiers.unordered))).Nodup :=
    ((hperm.append_left _).nodup_iff).2 hnew
  simp only [← List.append_assoc] at hnames
  apply Stage.Leaves.silent_bind (Run.record_leaves rfl)
  intro _ w₃ _
  apply Stage.Leaves.silent_bind (v.sort_leaves _)
  intro sorted w₄ hsorted
  rw [hfound] at hsorted
  obtain ⟨t, rfl, rfl⟩ := exists_tier (p := .factory) hall hsorted.1
  have hpriority := hnames.of_append_left.of_append_left
  refine Stage.Leaves.bind (callTier_leaves t hpriority) ?_ fun ds hds =>
    Fair.fetches_append (p := .factory) hds
  rintro _ s₂ w₅ ds₂ ⟨rfl, rfl⟩
  refine Stage.Leaves.bind (runFactoryTier_leaves hnames.of_append_left) ?_ fun ds hds =>
    Fair.fetches_append (p := .factory) (Fair.calls_append hds)
  rintro _ s₃ w₆ ds₃ ⟨t₂, ht₂, rfl, rfl⟩
  rw [← ht₂] at hnames
  refine (runFactoryTier_leaves hnames).mono ?_ fun ds hds =>
    Fair.fetches_append (p := .factory) (Fair.calls_append (Fair.tier_append hds))
  rintro _ s₄ w₇ ds₄ ⟨t₃, ht₃, rfl, rfl⟩
  rw [← ht₃] at hnames
  refine ⟨[t, t₂, t₃], ?_, ?_, ?_⟩
  · simp [factoriesCalled_append]
  · simp [Tier.deeds, MutationPhase.capability]
  · simpa [Tier.names] using hnames

end Pipeline

end Startup
