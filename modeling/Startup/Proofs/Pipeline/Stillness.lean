import Startup.Proofs.Registry.Coherent
import Startup.Proofs.Pipeline.Fetches

/-!
Runs during which a registry stays as it is, but for what is created: callbacks succeed, definitions
are left alone, nothing is put in by hand and no interceptor installed, and instances are what their
definitions declare.

Main statements: `Ledger.Quieted.after`, the invariant behind it; `Registry.Still.namesFor` and
`Registry.Still.isMatch`, that such a registry answers queries as it did in the beginning; and
`View.fetch_still`, that what it lists can be fetched.
-/

namespace Startup

variable {H : Host} {σ : Type}

/-! ## Moments that leave a registry in peace -/

/-- The instance has the capabilities that the definition declares, and no other. -/
def Definition.describes (d : Definition H) (i : Instance H) : Bool :=
  Capability.all.all fun c => i.offers c == d.hasCapability c

theorem Definition.describes_iff {d : Definition H} {i : Instance H} :
    d.describes i = true ↔ ∀ c, i.offers c = d.hasCapability c := by
  simp [describes, Capability.mem_all]

/-- No callback that is going to fail begins, no definition of registry `r` is changed, nothing is
put in by hand, no interceptor is installed, and what is created is what its definition declares. -/
def Moment.isPeaceful (r : ObjectId) : Moment H → Bool
  | .fact (.defined r' ..) | .fact (.removed r' _) | .fact (.instanceKept r' ..)
  | .fact (.installed r' ..) => !decide (r' = r)
  | .opens (.call cb a) => (cb.failure? a).isNone
  | .closes (.creation r' _ d _ _ (.ok i)) => !decide (r' = r) || d.describes i
  | _ => true

namespace Journal

/-- All along, registry `r` is left in peace. -/
def Peaceful (r : ObjectId) (j : Journal H) : Prop := ∀ m ∈ moments j, m.isPeaceful r = true

instance (r : ObjectId) (j : Journal H) : Decidable (j.Peaceful r) :=
  inferInstanceAs (Decidable (∀ m ∈ moments j, m.isPeaceful r = true))

variable {r : ObjectId} {j k : Journal H}

theorem peaceful_append : Peaceful r (j ++ k) ↔ Peaceful r j ∧ Peaceful r k := by
  unfold Peaceful
  rw [moments_append]
  exact List.forall_mem_append

theorem Peaceful.body {s : Scope H} (h : Peaceful r [.scope s j]) : Peaceful r j := by
  intro m hm
  refine h m ?_
  rw [moments_scope]
  exact List.mem_cons_of_mem _ (List.mem_append_left _ hm)

theorem Peaceful.succeeds (h : Peaceful r j) : Succeeds j := by
  intro m hm
  have hpeace := h m hm
  cases m with
  | opens s =>
    cases s with
    | call cb a => simpa [Moment.fails, Moment.isPeaceful] using hpeace
    | _ => rfl
  | _ => rfl

end Journal

/-! ## Registries that are left in peace -/

namespace Ledger

/-- What is left of registry `s` after peaceful moments: all of it. What came in besides are
singletons that are what the registered definitions declare. -/
structure Quieted (s : Registry H) (l : Ledger H) : Prop where
  definitions : l.registry.definitions = s.definitions
  manual : l.registry.manual = s.manual
  comparator : l.registry.comparator? = s.comparator?
  merged (n : ComponentName) (d : Definition H) (hd : l.registry.merged.get? n = some d) :
    s.definitions.get? n = some d
  kept (n : ComponentName) (i : Instance H) (hi : s.singletons.get? n = some i) :
    l.registry.singletons.get? n = some i
  gained (n : ComponentName) (i : Instance H) (hi : l.registry.singletons.get? n = some i) :
    s.singletons.get? n = some i ∨
      ∃ d, s.definitions.get? n = some d ∧ d.describes i = true
  creations (m : Making H) (hm : m ∈ l.creations) : s.definitions.get? m.name = some m.definition

variable {s : Registry H} {l : Ledger H} {r : ObjectId}

theorem Quieted.start (h : s.Coherent) : Quieted s (.of s) where
  definitions := rfl
  manual := rfl
  comparator := rfl
  merged := h
  kept _ _ := id
  gained _ _ := .inl
  creations _ hm := absurd hm List.not_mem_nil

/-- A creation under way began at this moment or before. -/
theorem mem_creations_next {x : Moment H} {m : Making H} (hm : m ∈ (l.next r x).creations) :
    m ∈ l.creations ∨ x = .opens (m.scope r) := by
  cases x with
  | fact f =>
    cases f with
    | defined | removed | instanceKept | installed | cacheCleared =>
      simp only [next] at hm
      split at hm <;> exact .inl hm
    | _ => exact .inl hm
  | opens sc =>
    cases sc with
    | resolution v n a =>
      simp only [next] at hm
      split at hm <;> exact .inl hm
    | creation r' n d outer chain result =>
      simp only [next] at hm
      split at hm <;> rename_i hr
      · subst hr
        rcases List.mem_cons.1 hm with rfl | hold
        · exact .inr rfl
        · exact .inl hold
      · exact .inl hm
    | _ => exact .inl hm
  | closes sc =>
    cases sc with
    | creation r' n d outer chain result =>
      simp only [next] at hm
      split at hm
      · unfold finish at hm
        split at hm <;> rename_i hl
        · exact .inl hm
        · exact .inl (by rw [hl]; exact List.mem_cons_of_mem _ hm)
      · exact .inl hm
    | _ => exact .inl hm

/-- A change of the registry that leaves everything but what is remembered and created. -/
theorem Quieted.of_registry {x : Moment H} (h : Quieted s l) (hx : l.Allows r x)
    (hdefinitions : (l.next r x).registry.definitions = l.registry.definitions)
    (hmanual : (l.next r x).registry.manual = l.registry.manual)
    (hmerged : ∀ n d, (l.next r x).registry.merged.get? n = some d →
      s.definitions.get? n = some d)
    (hsingletons : ∀ n, (l.next r x).registry.singletons.get? n = l.registry.singletons.get? n ∨
      l.registry.singletons.get? n = none ∧ ∃ d i, s.definitions.get? n = some d ∧
        d.describes i = true ∧ (l.next r x).registry.singletons.get? n = some i) :
    Quieted s (l.next r x) where
  definitions := hdefinitions.trans h.definitions
  manual := hmanual.trans h.manual
  comparator := (step hx).comparator.trans h.comparator
  merged := hmerged
  kept n i hi := by
    have hold := h.kept n i hi
    rcases hsingletons n with hsame | ⟨hnone, -⟩
    · exact hsame.trans hold
    · cases hnone.symm.trans hold
  gained n i hi := by
    rcases hsingletons n with hsame | ⟨-, d, k, hd, hdescribes, hk⟩
    · exact h.gained n i (hsame.symm.trans hi)
    · obtain rfl := Option.some.inj (hk.symm.trans hi)
      exact .inr ⟨d, hd, hdescribes⟩
  creations m hm := by
    rcases mem_creations_next hm with hold | rfl
    · exact h.creations m hold
    · exact h.merged m.name m.definition (hx rfl).1

theorem Quieted.next {x : Moment H} (h : Quieted s l) (hx : l.Allows r x)
    (hpeace : x.isPeaceful r = true) : Quieted s (l.next r x) := by
  have hstep := step hx
  have hsame (heq : (l.next r x).registry = l.registry) : Quieted s (l.next r x) :=
    h.of_registry hx (by rw [heq]) (by rw [heq]) (fun n d => by rw [heq]; exact h.merged n d)
      fun n => .inl (by rw [heq])
  generalize hregistry : (l.next r x).registry = t at hstep
  cases hstep with
  | defined | removed | kept | installed => simp [Moment.isPeaceful] at hpeace
  | elsewhere => exact hsame hregistry
  | cleared =>
    exact h.of_registry hx (by rw [hregistry]; rfl) (by rw [hregistry]; rfl)
      (fun n d hd => by rw [hregistry] at hd; cases hd) fun n => .inl (by rw [hregistry]; rfl)
  | begun n d result =>
    exact h.of_registry hx (by rw [hregistry]; rfl) (by rw [hregistry]; rfl)
      (fun k d => by rw [hregistry]; exact h.merged k d) fun n => .inl (by rw [hregistry]; rfl)
  | resolution v n a hv =>
    refine h.of_registry hx (by rw [hregistry, Registry.definitions_prepare])
      (by rw [hregistry, Registry.prepare_eq]) (fun k d hd => ?_)
      fun k => .inl (by rw [hregistry, Registry.singletons_prepare])
    rw [hregistry, Registry.prepare] at hd
    have hcoherent : l.registry.Coherent := fun k d hk => by
      rw [h.definitions]
      exact h.merged k d hk
    rw [← h.definitions]
    split at hd
    · exact hcoherent k d hd
    · have hlater := hcoherent.after_lookup n k d hd
      rwa [Registry.lookup_eq] at hlater
  | ended n d outer chain result =>
    have hlast : s.definitions.get? n = some d := by
      obtain ⟨rest, hrest⟩ := hx rfl
      exact h.creations ⟨n, d, outer, chain, result⟩ (by rw [hrest]; exact List.mem_cons_self)
    refine h.of_registry hx (by rw [hregistry, Registry.definitions_conclude])
      (by rw [hregistry, Registry.conclude_eq]; rfl)
      (fun k d' hd => ?_) fun k => ?_
    · rw [hregistry, Registry.conclude_eq] at hd
      exact h.merged k d' hd
    · rw [hregistry]
      rcases l.registry.get?_conclude n k d result with
        hsame | ⟨hnone, rfl, -, i, rfl, hi⟩
      · exact .inl hsame
      · exact .inr ⟨hnone, d, i, hlast, by simpa [Moment.isPeaceful] using hpeace, hi⟩

theorem Quieted.after {ms : List (Moment H)} (h : Quieted s l) (hlaw : l.Lawful r ms)
    (hpeace : ∀ m ∈ ms, m.isPeaceful r = true) : Quieted s (l.after r ms) := by
  induction ms generalizing l with
  | nil => exact h
  | cons m ms ih =>
    obtain ⟨hm, hrest⟩ := List.forall_mem_cons.1 hpeace
    exact ih (h.next hlaw.1 hm) hlaw.2 hrest

end Ledger

/-- A registry as it was, but for what was created. -/
structure Registry.Still (s s' : Registry H) : Prop where
  quieted : Ledger.Quieted s (.of s')
  inCreation : s'.inCreation = s.inCreation

namespace Registry

variable {s s' s'' : Registry H} {n : ComponentName} {c : Capability}

theorem Still.refl (h : s.Coherent) : s.Still s := ⟨.start h, rfl⟩

theorem Still.trans (h : s.Still s') (h' : s'.Still s'') : s.Still s'' where
  quieted :=
    { definitions := h'.quieted.definitions.trans h.quieted.definitions
      manual := h'.quieted.manual.trans h.quieted.manual
      comparator := h'.quieted.comparator.trans h.quieted.comparator
      merged := fun n d hd => h.quieted.definitions ▸ h'.quieted.merged n d hd
      kept := fun n i hi => h'.quieted.kept n i (h.quieted.kept n i hi)
      gained := fun n i hi => by
        rcases h'.quieted.gained n i hi with hold | ⟨d, hd, hdescribes⟩
        · exact h.quieted.gained n i hold
        · exact .inr ⟨d, h.quieted.definitions ▸ hd, hdescribes⟩
      creations := fun _ hm => absurd hm List.not_mem_nil }
  inCreation := h'.inCreation.trans h.inCreation

theorem Still.coherent (h : s.Still s') : s'.Coherent := fun n d hd =>
  h.quieted.definitions.symm ▸ h.quieted.merged n d hd

theorem Still.retains (h : s.Still s') : s.Retains s' where
  definitions n := by rw [show s'.definitions = s.definitions from h.quieted.definitions]
  comparator := h.quieted.comparator
  singletons := h.quieted.kept

theorem Still.sorter (h : s.Still s') (v : View) : v.sorter s' = v.sorter s :=
  h.retains.sorter v

/-- What has no definition has the singleton it had. -/
theorem Still.singletonSupports (h : s.Still s')
    (hn : ∀ d, s.definitions.get? n = some d → d.hasCapability c = false) :
    s'.singletonSupports n c = s.singletonSupports n c := by
  cases hi : s.singletons.get? n with
  | some i =>
    rw [singletonSupports_of_some hi, singletonSupports_of_some (h.retains.singletons n i hi)]
  | none =>
    have hnone : s.singletonSupports n c = false := by simp [Registry.singletonSupports, hi]
    rw [hnone]
    cases hi' : s'.singletons.get? n with
    | none => simp [Registry.singletonSupports, hi']
    | some i =>
      rw [singletonSupports_of_some hi']
      rcases h.quieted.gained n i hi' with hold | ⟨d, hd, hdescribes⟩
      · cases hi.symm.trans hold
      · rw [Definition.describes_iff.1 hdescribes c, hn d hd]

theorem Still.isMatch (h : s.Still s') (n : ComponentName) (c : Capability) :
    s'.isMatch n c = s.isMatch n c := by
  unfold Registry.isMatch
  rw [h.retains.definitions n]
  cases hd : s.definitions.get? n with
  | some d => rfl
  | none => exact h.singletonSupports fun d hd' => by cases hd.symm.trans hd'

/-- Queries list what they listed before: a name without a singleton that gets one now is listed on
account of its definition, or not at all. -/
theorem Still.namesFor (h : s.Still s') (c : Capability) :
    s'.namesFor c true = s.namesFor c true := by
  have hdefined : s'.definedNamesFor c true = s.definedNamesFor c true := by
    rw [definedNamesFor, definedNamesFor,
      show s'.definitions = s.definitions from h.quieted.definitions]
  rw [Registry.namesFor, Registry.namesFor, hdefined,
    show s'.manual = s.manual from h.quieted.manual]
  refine appendNew_congr (fun n hn => h.singletonSupports fun d hd => ?_) _
  cases hc : d.hasCapability c with
  | false => rfl
  | true => exact absurd (mem_definedNamesFor_iff.2 ⟨d, hd, hc, .inl rfl⟩) hn

end Registry

theorem Tracks.still {r : ObjectId} {α : Type} {x : Run H σ α} {w w' : World H σ} {a : α}
    {j : Journal H} {s : Registry H} (hx : Tracks r x) (hrun : x w = some (a, w', j))
    (hs : s.Still (w.registries.get r)) (hj : j.Peaceful r) : s.Still (w'.registries.get r) := by
  obtain ⟨hlaw, hregistry, -⟩ := hx (.of (w.registries.get r)) w a w' j hrun rfl
  have hquieted := (Ledger.Quieted.start hs.coherent).after hlaw hj
  have hstack := Ledger.inCreation_journal j _ hlaw
  refine hs.trans ⟨⟨?_, ?_, ?_, ?_, ?_, ?_, fun _ hm => absurd hm List.not_mem_nil⟩, ?_⟩
  all_goals simp only [Ledger.of, ← hregistry]
  · exact hquieted.definitions
  · exact hquieted.manual
  · exact hquieted.comparator
  · exact hquieted.merged
  · exact hquieted.kept
  · exact hquieted.gained
  · exact hstack

/-! ## Fetches -/

/-- The singletons of a registry are what its definitions declare. -/
def Registry.Honest (s : Registry H) : Prop :=
  ∀ n d i, s.definitions.get? n = some d → s.singletons.get? n = some i → d.describes i = true

theorem Registry.Honest.of_uncreated {s : Registry H} (h : s.singletons = ∅) : s.Honest := by
  intro n d i _ hi
  rw [h] at hi
  cases hi

theorem Registry.Still.honest {s s' : Registry H} (h : s.Still s') (hs : s.Honest) :
    s'.Honest := by
  intro n d i hd hi
  rw [h.retains.definitions n] at hd
  rcases h.quieted.gained n i hi with hold | ⟨d', hd', hdescribes⟩
  · exact hs n d i hd hold
  · rwa [Option.some.inj (hd.symm.trans hd')]

section Fetches

variable {call : Call H σ} {v : View} {s : Registry H} {w w' : World H σ} {j : Journal H}
  {n : ComponentName}

/-- What a peaceful resolution of a defined name gives is what the definition declares. -/
theorem View.resolve_described (hc : Closed call (fun {α} (x : Run H σ α) => Tracks v.registry x))
    {i : Instance H} (h : (v.resolve call n).run w = some (.ok i, w', j))
    (hw : s.Still (w.registries.get v.registry)) (hs : s.Honest) (hj : j.Peaceful v.registry)
    {d : Definition H} (hd : s.definitions.get? n = some d) : d.describes i = true := by
  have hw' := (hc.resolution v n).still h hw hj
  obtain ⟨k, hk, ha, rfl, rfl⟩ | ⟨-, ⟨-, ha, -, -⟩ | ⟨d', j', hlook, hcreate, rfl⟩⟩ :=
    View.resolve_eq_some call h
  · cases ha
    exact (hw.honest hs) n d i (by rw [hw.retains.definitions n, hd]) hk
  · cases ha
  · have hsame : d' = d := by
      rw [hw.coherent.lookup n, hw.retains.definitions n, hd] at hlook
      exact (Option.some.inj hlook).symm
    subst hsame
    obtain ⟨-, ha, -, -⟩ | ⟨-, result, w₁, j₁, hbuild, ha, rfl, rfl⟩ :=
      Creation.create_eq_some call hcreate
    · cases ha
    · cases hsingleton : d'.isSingleton with
      | true =>
        have hcached := Registry.get?_conclude_answer hsingleton ha.symm
        refine (hw'.honest hs) n d' i (by rw [hw'.retains.definitions n, hd]) ?_
        rw [World.get_setRegistry_self]
        exact hcached
      | false =>
        cases result with
        | error e => cases ha
        | ok k =>
          simp only [Registry.conclude, hsingleton] at ha
          cases ha
          have hcloses := hj.body (.closes (.creation v.registry n d' _ _ (.ok i))) (by
            rw [Journal.moments_scope]
            exact List.mem_cons_of_mem _ (List.mem_append_right _ List.mem_cons_self))
          simpa [Moment.isPeaceful] using hcloses

/-- What the registry lists can be fetched while it is left in peace, unless it is being created. -/
theorem View.fetch_still (hc : Closed call (fun {α} (x : Run H σ α) => Tracks v.registry x))
    {c : Capability} {x : Except DependencyError (Extension H)}
    (h : (v.fetch call n c).run w = some (x, w', j))
    (hw : s.Still (w.registries.get v.registry)) (hs : s.Honest) (hj : j.Peaceful v.registry)
    (hlisted : n ∈ s.namesFor c true)
    (hfree : n ∈ s.inCreation → ∃ i, s.singletons.get? n = some i) : ∃ e, x = .ok e := by
  obtain ⟨a, body, hresolve, rfl, rfl⟩ := View.fetch_eq_some h
  have hoffers := hw.retains.offers (Registry.offers_of_listed hlisted)
  obtain ⟨i, rfl, hcached⟩ | ⟨hnone, ⟨hundefined, -⟩ | ⟨hin, -⟩⟩ :=
    View.resolve_outcome hresolve hj.body.succeeds
  · suffices hi : i.offers c = true from Instance.as_of_offers hi n
    rcases Bool.or_eq_true_iff.1 hoffers with hmatch | hsupports
    · rw [hw.isMatch] at hmatch
      unfold Registry.isMatch at hmatch
      cases hd : s.definitions.get? n with
      | some d =>
        rw [hd] at hmatch
        have hdescribed := View.resolve_described hc hresolve hw hs hj.body hd
        rwa [Definition.describes_iff.1 hdescribed c]
      | none =>
        rw [hd] at hmatch
        cases hi : s.singletons.get? n with
        | none => simp [Registry.singletonSupports, hi] at hmatch
        | some k =>
          rw [Registry.singletonSupports_of_some hi] at hmatch
          rwa [hcached k (hw.quieted.kept n k hi)]
    · cases hi : (w.registries.get v.registry).singletons.get? n with
      | none => simp [Registry.singletonSupports, hi] at hsupports
      | some k =>
        rw [Registry.singletonSupports_of_some hi] at hsupports
        rwa [hcached k hi]
  · rw [Registry.offers_eq_false hundefined hnone] at hoffers
    cases hoffers
  · rw [hw.inCreation] at hin
    obtain ⟨i, hi⟩ := hfree hin
    cases hnone.symm.trans (hw.quieted.kept n i hi)

end Fetches

end Startup
