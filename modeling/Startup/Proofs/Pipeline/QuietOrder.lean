import Startup.Proofs.Pipeline.QuietTiers
import Startup.Proofs.Pipeline.Removal

/-!
The order of callbacks in a run that leaves its registry in peace.

Main statements: `mutateFactory_yields` and `steps_yields`, what such a run does; `quiet_order`, its
report, which can be read off the registry at the beginning.
-/

namespace Startup

variable {H : Host} {σ : Type}

namespace Pipeline

open Stage (Yields)

variable {call : Call H σ} {v : View} {s : Registry H} {i : Invocation}

/-! ## Tiers of factory mutators -/

section Factories

variable (hc : Closed call (fun {α} (x : Run H σ α) => Tracks v.registry x)) (hready : Ready s)
include hc hready

/-- Names are divided by tier, and those of the first tier are fetched at once. -/
theorem divide_yields (skip : ComponentName → Bool) {names : List ComponentName}
    (hlisted : ∀ n ∈ names, n ∈ s.namesFor .factoryMutator true) :
    Yields v s (Stage.attempt (v.divide call .factoryMutator skip names)) i fun t i' ds =>
      i' = i ∧ ∃ found : List (ComponentName × Extension H), t.priority = found.map Prod.snd ∧
        (∀ q ∈ found, q.2.supports .factoryMutator = true) ∧
        found.map Prod.fst = tierNames s (names.filter (!skip ·)) .priority ∧
        t.ordered = tierNames s (names.filter (!skip ·)) .ordered ∧
        t.unordered = tierNames s (names.filter (!skip ·)) .unordered ∧
        ds = Deed.fetches .factoryMutator found := by
  have hmatch (n : ComponentName) (c : Capability) (w : World H σ)
      (hw : s.Still (w.registries.get v.registry)) (b : Bool) (w' : World H σ) (j : Journal H)
      (h : v.isMatch n c w = some (b, w', j)) :
      b = s.isMatch n c ∧ w' = w ∧ Journal.deeds j = [] := by
    cases h
    exact ⟨hw.isMatch n c, rfl, rfl⟩
  induction names with
  | nil => exact .pure ⟨rfl, [], rfl, by simp, rfl, rfl, rfl, rfl⟩
  | cons n rest ih =>
    obtain ⟨hn, hrest⟩ := List.forall_mem_cons.1 hlisted
    unfold View.divide
    cases hskip : skip n with
    | true =>
      simp only [if_true, List.filter_cons, hskip, Bool.not_true, Bool.false_eq_true, if_false]
      exact ih hrest
    | false =>
      simp only [Bool.false_eq_true, if_false, List.filter_cons, hskip, Bool.not_false, if_true,
        Stage.attempt_bind, Stage.attempt_always]
      refine .always_bind _ (hmatch n .priorityOrdered) ?_
      cases hpriority : s.isMatch n .priorityOrdered with
      | true =>
        have htier : s.tierOf n = .priority := by rw [Registry.tierOf, if_pos hpriority]
        simp only [if_true, Stage.attempt_bind, Stage.attempt_pure]
        refine .bind (fetch_yields hc hready (.inr rfl) hn) ?_
        rintro e i₁ ds₁ ⟨rfl, hsupports, rfl⟩
        refine .bind (ih hrest) ?_
        rintro t i₂ ds₂ ⟨rfl, found, hfound, hall, hnamed, hordered, hunordered, rfl⟩
        refine .pure ⟨rfl, (n, e) :: found, by rw [hfound]; rfl,
          List.forall_mem_cons.2 ⟨hsupports, hall⟩, ?_, ?_, ?_, by simp [Deed.fetches]⟩
        all_goals simp [hnamed, hordered, hunordered, tierNames, htier]
      | false =>
        have hlater : ¬ s.isMatch n .priorityOrdered = true := by simp [hpriority]
        simp only [Bool.false_eq_true, if_false, Stage.attempt_bind, Stage.attempt_always]
        refine .always_bind _ (hmatch n .ordered) ?_
        cases hsecond : s.isMatch n .ordered with
        | true =>
          have htier : s.tierOf n = .ordered := by
            rw [Registry.tierOf, if_neg hlater, if_pos hsecond]
          simp only [if_true, Stage.attempt_bind, Stage.attempt_pure]
          refine .bind (ih hrest) ?_
          rintro t i₂ ds₂ ⟨rfl, found, hfound, hall, hnamed, hordered, hunordered, rfl⟩
          refine .pure ⟨rfl, found, hfound, hall, ?_, ?_, ?_, by rw [List.append_nil]⟩
          all_goals simp [hnamed, hordered, hunordered, tierNames, htier]
        | false =>
          have htier : s.tierOf n = .unordered := by
            rw [Registry.tierOf, if_neg hlater, if_neg (by simp [hsecond])]
          simp only [Bool.false_eq_true, if_false, Stage.attempt_bind, Stage.attempt_pure]
          refine .bind (ih hrest) ?_
          rintro t i₂ ds₂ ⟨rfl, found, hfound, hall, hnamed, hordered, hunordered, rfl⟩
          refine .pure ⟨rfl, found, hfound, hall, ?_, ?_, ?_, by rw [List.append_nil]⟩
          all_goals simp [hnamed, hordered, hunordered, tierNames, htier]

theorem fetchAll_yields {names : List ComponentName}
    (hlisted : ∀ n ∈ names, n ∈ s.namesFor .factoryMutator true) :
    Yields v s (Stage.attempt (v.fetchAll call .factoryMutator names)) i fun es i' ds =>
      i' = i ∧ ∃ found : List (ComponentName × Extension H), es = found.map Prod.snd ∧
        (∀ q ∈ found, q.2.supports .factoryMutator = true) ∧ found.map Prod.fst = names ∧
        ds = Deed.fetches .factoryMutator found := by
  induction names with
  | nil => exact .pure ⟨rfl, [], rfl, by simp, rfl, rfl⟩
  | cons n rest ih =>
    obtain ⟨hn, hrest⟩ := List.forall_mem_cons.1 hlisted
    simp only [View.fetchAll, Stage.attempt_bind, Stage.attempt_pure]
    refine .bind (fetch_yields hc hready (.inr rfl) hn) ?_
    rintro e i₁ ds₁ ⟨rfl, hsupports, rfl⟩
    refine .bind (ih hrest) ?_
    rintro es i₂ ds₂ ⟨rfl, found, rfl, hall, rfl, rfl⟩
    exact .pure ⟨rfl, (n, e) :: found, rfl, List.forall_mem_cons.2 ⟨hsupports, hall⟩, rfl,
      by simp [Deed.fetches]⟩

omit hready in
theorem callTier_yields (t : Tier H .factory) :
    Yields v s (callFactories call v t.extensions) i fun _ i' ds =>
      i' = factoriesCalled i t.extensions ∧ ds = Deed.calls .factory t.extensions := by
  refine (callFactories_yields hc _).mono fun _ i' ds h => ?_
  rwa [t.filter_factory] at h

theorem runFactoryTier_yields {names : List ComponentName}
    (hlisted : ∀ n ∈ names, n ∈ s.namesFor .factoryMutator true) :
    Yields v s (runFactoryTier call v names) i fun _ i' ds =>
      ∃ t : Tier H .factory, t.Ranks (v.sorter s) names ∧ i' = factoriesCalled i t.extensions ∧
        ds = t.deeds := by
  refine .bind (fetchAll_yields hc hready hlisted) ?_
  rintro es i₁ ds₁ ⟨rfl, found, rfl, hfound, rfl, rfl⟩
  obtain ⟨t, rfl, hsorted⟩ :=
    exists_tier (p := .factory) hfound (Comparator.sortBy_perm (v.sorter s) _)
  refine sort_yields_bind (hsorted ▸ (callTier_yields hc t).mono ?_)
  rintro _ i' ds ⟨rfl, rfl⟩
  exact ⟨t, ⟨rfl, hsorted⟩, rfl, rfl⟩

/-- The factory mutators of a run come tier by tier, as the registry declared them when the run
began. -/
theorem mutateFactory_yields (hphase : i.report.phase = .factoryCallbacks)
    (hprocessed : ∀ n, n ∈ i.processed ↔ n ∈ definitionMutators s) :
    Yields v s (mutateFactory call v) i fun _ i' ds =>
      ∃ priority ordered unordered : Tier H .factory,
        priority.Ranks (v.sorter s) (tierNames s (factoryMutators s) .priority) ∧
        ordered.Ranks (v.sorter s) (tierNames s (factoryMutators s) .ordered) ∧
        unordered.Ranks (v.sorter s) (tierNames s (factoryMutators s) .unordered) ∧
        i' = factoriesCalled i
          (priority.extensions ++ ordered.extensions ++ unordered.extensions) ∧
        ds = priority.deeds ++ ordered.deeds ++ unordered.deeds := by
  have hlisted (t : TierClass) : ∀ n ∈ tierNames s (factoryMutators s) t,
      n ∈ s.namesFor .factoryMutator true :=
    fun n hn => (List.mem_filter.1 (List.mem_filter.1 hn).1).1
  have hfresh : (s.namesFor .factoryMutator true).filter (fun n => !decide (n ∈ i.processed)) =
      factoryMutators s :=
    List.filter_congr fun n _ => by simp [hprocessed n]
  unfold mutateFactory
  have henter : Yields v s (Stage.enter .factoryCallbacks : Stage H σ Unit) i
      fun _ i' ds => i' = i ∧ ds = [] := by
    intro w r i' w' j hrun hw _
    rw [Stage.on_enter, if_pos hphase] at hrun
    cases hrun
    exact ⟨fun _ _ _ => List.not_mem_nil, fun a ha => by cases ha; exact ⟨hw, rfl, rfl⟩⟩
  refine .bind henter ?_
  rintro _ i₁ ds₁ ⟨rfl, rfl⟩
  refine names_yields_bind (.get_bind (.bind (divide_yields hc hready _ fun _ => id) ?_))
  rintro ⟨_, _, _⟩ i₂ ds₂ ⟨rfl, found, rfl, hfound, hpriority, rfl, rfl, rfl⟩
  simp only [hfresh] at hpriority ⊢
  refine record_yields_bind rfl ?_
  obtain ⟨t, rfl, hsorted⟩ :=
    exists_tier (p := .factory) hfound (Comparator.sortBy_perm (v.sorter s) _)
  refine sort_yields_bind (hsorted ▸ .bind (callTier_yields hc t) ?_)
  rintro _ i₃ ds₃ ⟨rfl, rfl⟩
  refine .bind (runFactoryTier_yields hc hready (hlisted .ordered)) ?_
  rintro _ i₄ ds₄ ⟨t₂, h₂, rfl, rfl⟩
  refine (runFactoryTier_yields hc hready (hlisted .unordered)).mono ?_
  rintro _ i₅ ds₅ ⟨t₃, h₃, rfl, rfl⟩
  refine ⟨t, t₂, t₃, ⟨hpriority, hsorted⟩, h₂, h₃, ?_, ?_⟩
  · simp [factoriesCalled_append]
  · simp [Tier.deeds, MutationPhase.capability]

omit hready in
theorem clearCache_yields : Yields v s (Stage.always v.clearCache : Stage H σ Unit) i
    fun _ i' ds => i' = i ∧ ds = [] := by
  refine .of_leaves (E := fun _ => False) (hc.stage_always (hc.clearCache v) i) (fun w => ?_) ?_
    fun _ => False.elim
  · refine Stage.Leaves.always (View.clearCache_leaves.mono fun _ w' ds hds => ?_)
    exact ⟨rfl, hds⟩
  · rintro _ i' ds ⟨-, rfl⟩
    rfl

/-- Definition mutators, and after them factory mutators, come tier by tier. -/
theorem steps_yields (hv : v.writable = true) (depth : Nat) (supplied : List (Extension H)) :
    Yields v s (steps call v depth supplied) {} fun _ i' ds =>
      ∃ (c : Course H) (priority ordered unordered : Tier H .factory),
        c.first = supplied.filter (·.views.definitionMutator) ∧ c.Ranks v s ∧
        priority.Ranks (v.sorter s) (tierNames s (factoryMutators s) .priority) ∧
        ordered.Ranks (v.sorter s) (tierNames s (factoryMutators s) .ordered) ∧
        unordered.Ranks (v.sorter s) (tierNames s (factoryMutators s) .unordered) ∧
        i' = fullState c (supplied.filter isRegular) [priority, ordered, unordered] ∧
        ds = fullDeeds c (supplied.filter isRegular) [priority, ordered, unordered] := by
  rw [steps_eq hv]
  refine .bind (mutateDefinitions_yields hc hready depth supplied) ?_
  rintro p i₁ ds₁ ⟨c, hfirst, hranks, rfl, rfl, rfl⟩
  have hviews : ∀ e ∈ c.first, e.views.definitionMutator = true := by
    rw [hfirst]
    exact fun e he => (List.mem_filter.1 he).2
  unfold factoryPhase
  refine enter_yields_bind (by simp [Course.state]) (.bind (callFactories_yields hc c.mutators) ?_)
  rw [Course.filter_mutators hviews]
  rintro _ i₂ ds₂ ⟨rfl, rfl⟩
  refine .bind (callFactories_yields hc (supplied.filter isRegular)) ?_
  rw [filter_isRegular]
  rintro _ i₃ ds₃ ⟨rfl, rfl⟩
  refine .bind (mutateFactory_yields hc hready (by simp) fun n => ?_) ?_
  · simp only [processed_factoriesCalled, processed_inPhase]
    exact hranks.mem_names
  · rintro _ i₄ ds₄ ⟨priority, ordered, unordered, h₁, h₂, h₃, rfl, rfl⟩
    refine (clearCache_yields hc).mono ?_
    rintro _ i₅ ds₅ ⟨rfl, rfl⟩
    refine ⟨c, priority, ordered, unordered, hfirst, hranks, h₁, h₂, h₃, ?_, ?_⟩
    · simp [fullState]
    · simp [fullDeeds, factoryDeeds]

end Factories

/-! ## A whole run -/

/-- What was fetched of some names, by their tiers. -/
structure Covers (s : Registry H) (names : List ComponentName) (c : Capability)
    (ds : List (Deed H)) (found : Findings H) : Prop where
  names (t : TierClass) : (found t).map Prod.fst = tierNames s names t
  fetched (q : ComponentName × Extension H) (hq : q ∈ found.inOrder) :
    .fetched q.1 c (.ok q.2) ∈ ds

theorem Covers.mono {names : List ComponentName} {c : Capability} {ds ds' : List (Deed H)}
    {found : Findings H} (h : Covers s names c ds found) (hds : ds ⊆ ds') :
    Covers s names c ds' found where
  names := h.names
  fetched q hq := hds (h.fetched q hq)

theorem Tier.mem_deeds {p : MutationPhase} {t : Tier H p} {q : ComponentName × Extension H}
    (hq : q ∈ t.found) : .fetched q.1 p.capability (.ok q.2) ∈ t.deeds :=
  List.mem_append_left _ (List.mem_map.2 ⟨q, hq, rfl⟩)

/-- Three tiers in the order of a comparator. -/
theorem exists_findings {p : MutationPhase} {c : Comparator H} {names : List ComponentName}
    {priority ordered unordered : Tier H p} (h₁ : priority.Ranks c (tierNames s names .priority))
    (h₂ : ordered.Ranks c (tierNames s names .ordered))
    (h₃ : unordered.Ranks c (tierNames s names .unordered)) :
    ∃ found : Findings H, found .unordered = unordered.found ∧
      Covers s names p.capability (priority.deeds ++ ordered.deeds ++ unordered.deeds) found ∧
      priority.extensions ++ ordered.extensions ++ unordered.extensions = found.ranked c := by
  refine ⟨.ofTiers priority.found ordered.found unordered.found, rfl, ⟨?_, fun q hq => ?_⟩, ?_⟩
  · rintro (_ | _ | _)
    exacts [h₁.names, h₂.names, h₃.names]
  · simp only [Findings.inOrder, List.mem_append] at hq ⊢
    exact hq.imp (.imp Tier.mem_deeds Tier.mem_deeds) Tier.mem_deeds
  · rw [h₁.sorted, h₂.sorted, h₃.sorted]
    rfl

/-- The mutators of a run, and how many rounds they take. -/
theorem Course.Ranks.exists_findings {c : Course H} (h : c.Ranks v s) :
    ∃ found : Findings H, Covers s (definitionMutators s) .definitionMutator c.deeds found ∧
      c.mutators = c.first ++ found.ranked (v.sorter s) ∧
      c.rounds.length + 1 = if found .unordered = [] then 1 else 2 := by
  obtain ⟨t, ht, hrounds⟩ := h.rounds
  obtain ⟨found, hfound, hcovers, hranked⟩ := Pipeline.exists_findings h.priority h.ordered ht
  have hlast : c.rounds.flatMap Tier.deeds = t.deeds ∧
      c.rounds.flatMap Tier.extensions = t.extensions := by
    rw [hrounds]
    split
    · rename_i hnone
      have hempty : t.found = [] := List.map_eq_nil_iff.1 hnone
      have hsorted : t.extensions = [] := by
        simp [ht.sorted, hempty, Comparator.sortBy]
      rw [Tier.deeds, hempty, hsorted]
      exact ⟨rfl, rfl⟩
    · exact ⟨List.flatMap_singleton .., List.flatMap_singleton ..⟩
  refine ⟨found, hcovers.mono fun d hd => ?_, ?_, ?_⟩
  · simp only [Course.deeds, Course.opening, hlast.1, List.mem_append, List.mem_cons] at hd ⊢
    tauto
  · rw [← hranked, Course.mutators, Course.tiers, List.flatMap_cons, List.flatMap_cons, hlast.2]
    simp
  · rw [hrounds, hfound, Tier.names]
    by_cases hempty : t.found = [] <;> simp [hempty]

/-- The rounds of a run that is left in peace begin in the registry as it was. -/
theorem RoundBegins.still (hc : Closed call (fun {α} (x : Run H σ α) => Tracks v.registry x))
    {supplied : List (Extension H)} {w w₁ : World H σ} {opening : Journal H}
    {rounds : List (Journal H)} (h : RoundBegins call v supplied w opening rounds i w₁)
    (hw : s.Still (w.registries.get v.registry))
    (hpeace : (opening ++ rounds.flatten).Peaceful v.registry) :
    s.Still (w₁.registries.get v.registry) := by
  induction h with
  | first hopening =>
    exact (hc.openingTiers v supplied {}).still hopening hw (Journal.peaceful_append.1 hpeace).1
  | next h hround ih =>
    rw [List.flatten_append, ← List.append_assoc] at hpeace
    obtain ⟨hbefore, hnow⟩ := Journal.peaceful_append.1 hpeace
    rw [List.flatten_singleton] at hnow
    exact (hc.round v _).still hround (ih hbefore) hnow

/-- A run in which all callbacks succeed and that is left in peace: no definition is changed,
nothing is put in by hand, no interceptor is installed, and what is created is what its definition
declares. It succeeds, and its callbacks come in an order that can be read off the registry when it
begins: the supplied definition mutators, then the registered ones tier by tier, each tier sorted;
after them the other supplied factory mutators and the other registered ones. There is one round if
no definition mutator is without a tier, else there are two. Such a run comes to an end if its
callbacks do.

Of callbacks it is required that the journal tells what they do to the registry, as those of every
behaviour do (`Tracks.behaviour`). -/
theorem quiet_order (call : Call H σ) {v : View} (hcall : ∀ cb, Tracks v.registry (call cb))
    (supplied : List (Extension H)) {w : World H σ} (hv : v.writable = true)
    (hcoherent : (w.registries.get v.registry).Coherent)
    (hready : Ready (w.registries.get v.registry)) :
    (∀ depth result report w' scope (body : Journal H),
      invoke call v depth supplied w = some ((result, report), w', [.scope scope body]) →
      body.Peaceful v.registry →
      result = .ok () ∧ ∃ definitions factories : Findings H,
        Covers (w.registries.get v.registry) (definitionMutators (w.registries.get v.registry))
          .definitionMutator (Journal.deeds body) definitions ∧
        Covers (w.registries.get v.registry) (factoryMutators (w.registries.get v.registry))
          .factoryMutator (Journal.deeds body) factories ∧
        report.definitionCalls = (supplied.filter (·.views.definitionMutator) ++
          definitions.ranked (v.sorter (w.registries.get v.registry))).map (·.name) ∧
        report.factoryCalls = report.definitionCalls ++ (supplied.filter isRegular ++
          factories.ranked (v.sorter (w.registries.get v.registry))).map (·.name) ∧
        report.rounds = if definitions .unordered = [] then 1 else 2) ∧
    ((∀ cb w₁, (call cb w₁).isSome = true) →
      (∀ opening rounds i w₁, RoundBegins call v supplied w opening rounds i w₁ →
        (opening ++ rounds.flatten).Peaceful v.registry) →
      ∃ depth, (invoke call v depth supplied w).isSome = true) := by
  have hc := Tracks.closed hcall
  have hstill := Registry.Still.refl hcoherent
  refine ⟨fun depth result report w' scope body h hpeace => ?_, fun htotal hpeace => ?_⟩
  · obtain ⟨i, w₁, j₁, i', j₂, hsteps, hfinish, rfl, hj⟩ := invoke_parts h
    obtain ⟨-, hbody⟩ := Event.scope.inj (List.cons.inj hj).1
    obtain ⟨⟨q, rfl⟩, hclosing⟩ := finish_leaves result _ _ _ hfinish
    have hpeace₁ : Journal.Peaceful v.registry j₁ := by
      rw [hbody, ← List.singleton_append, Journal.peaceful_append,
        Journal.peaceful_append] at hpeace
      exact hpeace.2.1
    obtain ⟨hnone, hok⟩ := steps_yields hc hready hv depth supplied w result i w₁ j₁ hsteps hstill
      hpeace₁
    have hresult : result = .ok () := by
      cases result with
      | ok _ => rfl
      | error x =>
        obtain ⟨f, hf, y, hanswer, -⟩ := invoke_unfetched h hpeace.succeeds
        have hd := Journal.deed_of_mem_fetchings hf
        rw [hanswer, hbody, deeds_started, Journal.deeds_append] at hd
        rcases List.mem_append.1 hd with hd | hd
        · exact absurd hd (hnone f.name f.capability y)
        · obtain hnil | ⟨q, -, hentered⟩ := hclosing
          · simp [hnil] at hd
          · simp [hentered] at hd
    obtain ⟨-, c, priority, ordered, unordered, hfirst, hranks, h₁, h₂, h₃, rfl, hds⟩ :=
      hok () hresult
    obtain ⟨definitions, hdefinitions, hmutators, hrounds⟩ := hranks.exists_findings
    obtain ⟨factories, -, hfactories, hranked⟩ := exists_findings h₁ h₂ h₃
    rw [hbody, deeds_started, Journal.deeds_append, hds]
    refine ⟨hresult, definitions, factories, hdefinitions.mono ?_, hfactories.mono ?_, ?_, ?_, ?_⟩
    · intro d hd
      simp [fullDeeds, hd]
    · intro d hd
      have hall : d ∈ [priority, ordered, unordered].flatMap Tier.deeds := by simpa using hd
      refine List.mem_append_left _ (List.mem_append_right _ (List.mem_cons_of_mem _ ?_))
      exact List.mem_append_right _ (List.mem_append_right _ hall)
    · simp [fullState, inPhase, factoriesCalled, Course.state, hmutators, hfirst]
    · rw [← hranked]
      simp [fullState, inPhase, factoriesCalled, Course.state]
    · simp [fullState, inPhase, factoriesCalled, Course.state, hrounds]
  · have hlisted : ListedIn call v supplied w
        (definitionMutators (w.registries.get v.registry)).toFinset := by
      intro opening rounds i w₁ hbegins n hn
      rw [(hbegins.still hc hstill (hpeace _ _ _ _ hbegins)).namesFor] at hn
      exact List.mem_toFinset.2 hn
    exact ⟨_, invoke_total htotal hlisted⟩

end Pipeline

/-! ## Components that leave the registry in peace -/

namespace Scenario

/-- A mutator that is declared by one capability, with what its factory does and its two callbacks
do. -/
def quietSpec (name : String) (c : Capability) (tier : OrderTier)
    (create definition factory : List Step) : DefinitionSpec :=
  .mk name .extension [c] tier .application .singleton false [] create
    (.extension name tier
      { definitionMutator := c == .definitionMutator, factoryMutator := c == .factoryMutator }
      false definition factory [] [] [] [])

def resolving (name : String) : List Step := [.mk {} (.perform .quiet (.resolve name))]

def tool : DefinitionSpec :=
  .mk "tool" .plain [] .unordered .application .singleton false [] [] (.plain "tool")

/-- Definition mutators and factory mutators of all tiers, with two of one order value among either.
Some of their factories and callbacks need other components. -/
def quietSpecs : List DefinitionSpec :=
  [quietSpec "loose" .definitionMutator .unordered [] (resolving "tool") [],
    quietSpec "late" .definitionMutator (.ordered 5) [] [] (resolving "late"),
    quietSpec "odd" .definitionMutator (.ordered 3) [] [] [],
    quietSpec "even" .definitionMutator (.ordered 3) (resolving "tool") [] [],
    quietSpec "prime" .definitionMutator (.priority 1) (resolving "tool") [] [],
    quietSpec "lining" .factoryMutator .unordered [] [] [],
    quietSpec "right" .factoryMutator (.ordered 2) [] [] (resolving "tool"),
    quietSpec "left" .factoryMutator (.ordered 2) (resolving "right") [] [],
    quietSpec "frame" .factoryMutator (.priority 0) [] [] [], tool]

def quietWorld : World Scripted Memory :=
  (Setup.world {}).setRegistry Setup.base
    (quietSpecs.foldl (fun s d => s.define d.toDefinition) {})

theorem quietWorld_peaceful (opening : Journal Scripted) (rounds : List (Journal Scripted))
    (i : Invocation) (w₁ : World Scripted Memory)
    (h : Pipeline.RoundBegins patient (.direct Setup.base) sampleSupplied quietWorld opening rounds
      i w₁) :
    Journal.Peaceful Setup.base (opening ++ rounds.flatten) := by
  have hrehearsed : Pipeline.rehearsal patient (.direct Setup.base) sampleSupplied quietWorld
      (fun past _ => decide (Journal.Peaceful Setup.base past)) 3 = true := by
    decide +kernel
  simpa using h.rehearsed hrehearsed

theorem quietWorld_ready :
    (quietWorld.registries.get Setup.base).Coherent ∧
      Pipeline.Ready (quietWorld.registries.get Setup.base) := by
  have hcreation : (quietWorld.registries.get Setup.base).inCreation = [] := rfl
  refine ⟨.of_unmerged rfl, .of_uncreated rfl, fun n hn => ?_⟩
  rw [hcreation] at hn
  cases hn

/-- The text of the error of a run and its report, if it leaves the registry in peace. -/
def peacefulRun (supplied : List (Extension Scripted)) (w : World Scripted Memory) :
    Option (Option String × Report) :=
  match Pipeline.invoke patient (.direct Setup.base) 3 supplied w with
  | some ((result, report), _, [.scope _ body]) =>
    if Journal.Peaceful Setup.base body then
      some ((Pipeline.error? result).map (·.message), report)
    else none
  | _ => none

theorem peacefulRun_eq_some {supplied : List (Extension Scripted)} {w : World Scripted Memory}
    {text? : Option String} {report : Report} (h : peacefulRun supplied w = some (text?, report)) :
    ∃ result w' scope, ∃ body : Journal Scripted,
      Pipeline.invoke patient (.direct Setup.base) 3 supplied w =
        some ((result, report), w', [.scope scope body]) ∧
      Journal.Peaceful Setup.base body ∧ (Pipeline.error? result).map (·.message) = text? := by
  unfold peacefulRun at h
  split at h
  · rename_i result report' w' scope body hrun
    split at h
    · rename_i hpeace
      cases h
      exact ⟨result, w', scope, body, hrun, hpeace, rfl⟩
    · cases h
  · cases h

def quietReport : Report where
  definitionCalls := ["first", "prime", "odd", "even", "late", "loose"]
  factoryCalls := ["first", "prime", "odd", "even", "late", "loose", "regular", "frame", "right",
    "left", "lining"]
  rounds := 2
  phase := .done

theorem quietRun_report : peacefulRun sampleSupplied quietWorld = some (none, quietReport) := by
  decide +kernel

/-- Supplied mutators first, then those of three tiers, in the order of these. -/
theorem quietRun_ordered :
    (∃ depth, (Pipeline.invoke patient (.direct Setup.base) depth sampleSupplied
      quietWorld).isSome = true) ∧
    ∃ w' scope, ∃ body : Journal Scripted,
      Pipeline.invoke patient (.direct Setup.base) 3 sampleSupplied quietWorld =
        some ((.ok (), quietReport), w', [.scope scope body]) ∧
      ∃ definitions factories : Findings Scripted,
        quietReport.definitionCalls =
          "first" :: (definitions.ranked Comparator.standard).map (·.name) ∧
        quietReport.factoryCalls = quietReport.definitionCalls ++
          "regular" :: (factories.ranked Comparator.standard).map (·.name) ∧
        definitions .unordered ≠ [] := by
  obtain ⟨hordered, htotal⟩ := Pipeline.quiet_order patient (v := .direct Setup.base)
    (patient_tracks Setup.base) sampleSupplied rfl quietWorld_ready.1 quietWorld_ready.2
  refine ⟨htotal (Call.completed_isSome _ _) quietWorld_peaceful, ?_⟩
  obtain ⟨result, w', scope, body, hrun, hpeace, -⟩ := peacefulRun_eq_some quietRun_report
  obtain ⟨rfl, definitions, factories, -, -, hdefinitions, hfactories, hrounds⟩ :=
    hordered _ _ _ _ _ _ hrun hpeace
  refine ⟨w', scope, body, hrun, definitions, factories, hdefinitions, hfactories, fun hnone => ?_⟩
  rw [if_pos hnone] at hrounds
  cases hrounds

theorem creatingRun_report : peacefulRun [] creatingWorld =
    some (some "循环依赖检测到: first -> first", { phase := .aborted }) := by
  decide +kernel

/-- A run that begins in the middle of a creation does not get the component that is being created,
although it leaves the registry in peace. -/
theorem quiet_order_broken :
    (creatingWorld.registries.get Setup.base).Coherent ∧
    (creatingWorld.registries.get Setup.base).Honest ∧
    ∃ x report w' scope, ∃ body : Journal Scripted,
      Pipeline.invoke patient (.direct Setup.base) 3 [] creatingWorld =
        some ((.error x, report), w', [.scope scope body]) ∧
      Journal.Peaceful Setup.base body ∧ x.message = "循环依赖检测到: first -> first" ∧
      report.definitionCalls = [] := by
  refine ⟨.of_unmerged rfl, .of_uncreated rfl, ?_⟩
  obtain ⟨result, w', scope, body, hrun, hpeace, htext⟩ :=
    peacefulRun_eq_some creatingRun_report
  cases result with
  | ok _ => cases htext
  | error x => exact ⟨x, _, w', scope, body, hrun, hpeace, Option.some.inj htext, rfl⟩

end Scenario

end Startup
