import Startup.Proofs.Pipeline.Deeds

/-!
The deeds of the single operations of a pipeline: fetches, and callbacks one after the other.

Main statements: `View.fetch_leaves`, that what is fetched has the capability asked for;
`callDefinitions_leaves`, `separate_leaves` and `callFactories_leaves`, which say whose callbacks
are made and what the report says of them.
-/

namespace Startup

variable {H : Host} {σ : Type} {w : World H σ}

/-! ## Questions -/

theorem Run.record_leaves {f : Fact H} (hf : Event.deed? (.fact f) = none) :
    (Run.record f : Run H σ Unit).Leaves w fun _ w' ds => w' = w ∧ ds = [] := by
  intro a w' j h
  cases h
  exact ⟨rfl, by rw [Journal.deeds, List.filterMap_cons, hf]; rfl⟩

namespace View

theorem names_leaves (v : View) (c : Capability) (all eager : Bool) :
    (v.names c all eager : Run H σ _).Leaves w fun l w' ds =>
      (l = (w.registries.get v.registry).namesFor c all ∧ w' = w) ∧ ds = [] := by
  intro l w' j h
  cases h
  exact ⟨⟨rfl, rfl⟩, rfl⟩

theorem isMatch_leaves (v : View) (n : ComponentName) (c : Capability) :
    (v.isMatch n c : Run H σ _).Leaves w fun _ _ ds => ds = [] := by
  intro b w' j h
  cases h
  rfl

theorem sort_leaves (v : View) (l : List (Extension H)) :
    (v.sort l : Run H σ _).Leaves w fun sorted w' ds => (sorted.Perm l ∧ w' = w) ∧ ds = [] := by
  unfold View.sort
  split
  · exact Run.Leaves.pure ⟨⟨.refl _, rfl⟩, rfl⟩
  · have hcomparator : (v.comparator? : Run H σ _).Leaves w fun _ w' ds => w' = w ∧ ds = [] := by
      intro c w' j h
      cases h
      exact ⟨rfl, rfl⟩
    refine Run.Leaves.bind hcomparator fun c w₁ ds₁ hc => ?_
    obtain ⟨rfl, rfl⟩ := hc
    cases c with
    | none => exact Run.Leaves.pure ⟨⟨Comparator.sortBy_perm _ _, rfl⟩, rfl⟩
    | some c =>
      refine Run.Leaves.bind (Run.record_leaves rfl) fun _ w₂ ds₂ hr => ?_
      obtain ⟨rfl, rfl⟩ := hr
      exact Run.Leaves.pure ⟨⟨Comparator.sortBy_perm _ _, rfl⟩, rfl⟩

/-! ## Fetches -/

variable (call : Call H σ)

/-- What is fetched has the capability asked for. -/
theorem fetch_leaves (v : View) (n : ComponentName) (c : Capability) :
    (v.fetch call n c).Leaves
      (fun e ds => e.supports c = true ∧ ds = [.fetched n c (.ok e)])
      fun ds => ∃ x, ds = [.fetched n c (.error x)] := by
  intro w r w' j h
  obtain ⟨j', h₁, rfl⟩ := Run.within_eq_some.1 h
  cases r with
  | error x => exact ⟨x, rfl⟩
  | ok e =>
    refine ⟨?_, rfl⟩
    rw [Attempt.run_bind] at h₁
    obtain ⟨r, w₁, j₁, j₂, -, h₂, -⟩ := Run.bind_eq_some.1 h₁
    cases r with
    | error x => cases (Run.pure_eq_some.1 h₂).1
    | ok i =>
      dsimp only at h₂
      split at h₂
      · split at h₂
        · cases h₂
          assumption
        · cases (Run.pure_eq_some.1 h₂).1
      · cases (Run.pure_eq_some.1 h₂).1

theorem fetchAll_leaves (v : View) (c : Capability) (names : List ComponentName) :
    (v.fetchAll call c names).Leaves
      (fun es ds => ∃ found : List (ComponentName × Extension H), es = found.map Prod.snd ∧
        found.map Prod.fst = names ∧ (∀ q ∈ found, q.2.supports c = true) ∧
        ds = Deed.fetches c found)
      fun ds => (Deed.fetchedNames ds).Sublist names ∧ ∀ d ∈ ds, ∃ n x, d = .fetched n c x := by
  induction names with
  | nil => exact Attempt.Leaves.pure ⟨[], rfl, rfl, by simp, rfl⟩
  | cons n rest ih =>
    refine Attempt.Leaves.bind (fetch_leaves call v n c) (fun e ds₁ he => ?_) fun ds hds => ?_
    · obtain ⟨hsupports, rfl⟩ := he
      refine Attempt.Leaves.bind ih (fun es ds₂ hes => ?_) fun ds hds => ?_
      · obtain ⟨found, rfl, hnames, hfound, rfl⟩ := hes
        refine Attempt.Leaves.pure ⟨(n, e) :: found, rfl, by simp [hnames], ?_, by
          simp [Deed.fetches]⟩
        exact List.forall_mem_cons.2 ⟨hsupports, hfound⟩
      · refine ⟨hds.1.cons_cons n, ?_⟩
        exact List.forall_mem_cons.2 ⟨⟨n, _, rfl⟩, hds.2⟩
    · obtain ⟨x, rfl⟩ := hds
      exact ⟨List.singleton_sublist.2 List.mem_cons_self, by simp⟩

end View

namespace Pipeline

variable {call : Call H σ} {v : View} {s : Invocation}

/-! ## Phases -/

/-- The state of a run that enters a phase. -/
def inPhase (s : Invocation) (p : Phase) : Invocation :=
  { s with report := { s.report with phase := p } }

@[simp] theorem processed_inPhase (p : Phase) : (inPhase s p).processed = s.processed := rfl

@[simp] theorem phase_inPhase (p : Phase) : (inPhase s p).report.phase = p := rfl

theorem enter_leaves (p : Phase) (hp : s.report.phase ≠ p) :
    (Stage.enter p : Stage H σ Unit).Leaves s w
      (fun _ s' w' ds => s' = inPhase s p ∧ w' = w ∧ ds = [.entered p]) fun _ => False := by
  intro r w' j h
  rw [Stage.on_enter, if_neg hp] at h
  cases h
  exact ⟨rfl, rfl, rfl⟩

theorem enter_bind {α : Type} {p : Phase} (hp : s.report.phase ≠ p) {f : Unit → Stage H σ α}
    {Q : α → Invocation → World H σ → List (Deed H) → Prop} {E : List (Deed H) → Prop}
    (h : (f ()).Leaves (inPhase s p) w (fun a s' w' ds => Q a s' w' (.entered p :: ds))
      fun ds => E (.entered p :: ds)) : (Stage.enter p >>= f).Leaves s w Q E := by
  refine Stage.Leaves.bind (enter_leaves p hp) ?_ fun _ => False.elim
  rintro _ s₁ w₁ ds₁ ⟨rfl, rfl, rfl⟩
  exact h

/-- To enter a phase again does nothing. -/
theorem enter_again_bind {α : Type} {p : Phase} (hp : s.report.phase = p)
    {f : Unit → Stage H σ α} {Q : α → Invocation → World H σ → List (Deed H) → Prop}
    {E : List (Deed H) → Prop} (h : (f ()).Leaves s w Q E) :
    (Stage.enter p >>= f).Leaves s w Q E := by
  unfold Stage.Leaves
  rw [Stage.on_bind, Stage.on_enter, if_pos hp, pure_bind]
  exact h

/-! ## Callbacks -/

/-- The state of a run after definition callbacks that succeeded. -/
def definitionsCalled (s : Invocation) (es : List (Extension H)) : Invocation :=
  { s with report :=
    { s.report with definitionCalls := s.report.definitionCalls ++ es.map (·.name) } }

/-- The state of a run after factory callbacks that succeeded. -/
def factoriesCalled (s : Invocation) (es : List (Extension H)) : Invocation :=
  { s with report :=
    { s.report with factoryCalls := s.report.factoryCalls ++ es.map (·.name) } }

@[simp] theorem processed_definitionsCalled (es : List (Extension H)) :
    (definitionsCalled s es).processed = s.processed := rfl

@[simp] theorem phase_definitionsCalled (es : List (Extension H)) :
    (definitionsCalled s es).report.phase = s.report.phase := rfl

@[simp] theorem processed_factoriesCalled (es : List (Extension H)) :
    (factoriesCalled s es).processed = s.processed := rfl

@[simp] theorem phase_factoriesCalled (es : List (Extension H)) :
    (factoriesCalled s es).report.phase = s.report.phase := rfl

theorem definitionsCalled_nil : definitionsCalled s ([] : List (Extension H)) = s := by
  simp [definitionsCalled]

theorem definitionsCalled_append (es es' : List (Extension H)) :
    definitionsCalled s (es ++ es') = definitionsCalled (definitionsCalled s es) es' := by
  simp [definitionsCalled]

theorem factoriesCalled_nil : factoriesCalled s ([] : List (Extension H)) = s := by
  simp [factoriesCalled]

theorem factoriesCalled_append (es es' : List (Extension H)) :
    factoriesCalled s (es ++ es') = factoriesCalled (factoriesCalled s es) es' := by
  simp [factoriesCalled]

/-- Nothing but callbacks of a phase. -/
def OnlyCalls (p : MutationPhase) (ds : List (Deed H)) : Prop :=
  ∀ d ∈ ds, ∃ e f, d = .called p e f

theorem OnlyCalls.calls_append {p : MutationPhase} {es : List (Extension H)} {ds : List (Deed H)}
    (h : OnlyCalls p ds) : OnlyCalls p (Deed.calls p es ++ ds) := by
  intro d hd
  rcases List.mem_append.1 hd with hd | hd
  · obtain ⟨e, -, rfl⟩ := List.mem_map.1 hd
    exact ⟨e, none, rfl⟩
  · exact h d hd

/-- The deed of a callback, as it went. -/
theorem mutation_leaves (cb : Callback H) (s : cb.Answer → Scope H) (d : cb.Answer → Deed H)
    (hd : ∀ a j, Event.deed? (.scope (s a) [.scope (.call cb a) j]) = some (d a)) :
    (Run.within s (cb.perform call)).Leaves w fun a _ ds => ds = [d a] := by
  apply Run.Leaves.within
  intro a w' j h
  obtain ⟨j', -, rfl⟩ := Run.within_eq_some.1 h
  rw [Journal.deeds, List.filterMap_cons, hd]
  rfl

theorem callDefinition_leaves (e : Extension H) :
    (callDefinition call v e).Leaves s w
      (fun _ s' _ ds => s' = definitionsCalled s ([e].filter (·.views.definitionMutator)) ∧
        ds = Deed.calls .definition ([e].filter (·.views.definitionMutator)))
      (OnlyCalls .definition) := by
  unfold callDefinition
  cases hview : e.views.definitionMutator with
  | false =>
    refine Stage.Leaves.pure ?_
    simp [hview, definitionsCalled_nil, Deed.calls]
  | true =>
    simp only [if_true]
    refine Stage.Leaves.always_bind (mutation_leaves (.mutateDefinitions e v) _ (fun a =>
      .called .definition e (Callback.failure? (.mutateDefinitions e v) a)) fun a j => rfl)
      fun a w₁ ds₁ h => ?_
    subst h
    cases a with
    | error f =>
      refine Stage.Leaves.throw ?_
      simp [OnlyCalls]
    | ok _ =>
      refine Stage.Leaves.modify ?_
      simp [hview, definitionsCalled, Deed.calls, Callback.failure?]

theorem callDefinitions_leaves (es : List (Extension H)) :
    (callDefinitions call v es).Leaves s w
      (fun _ s' _ ds => s' = definitionsCalled s (es.filter (·.views.definitionMutator)) ∧
        ds = Deed.calls .definition (es.filter (·.views.definitionMutator)))
      (OnlyCalls .definition) := by
  induction es generalizing s w with
  | nil => exact Stage.Leaves.pure ⟨definitionsCalled_nil.symm, rfl⟩
  | cons e rest ih =>
    refine Stage.Leaves.bind (callDefinition_leaves e) (fun _ s₁ w₁ ds₁ h => ?_) fun _ => id
    obtain ⟨rfl, rfl⟩ := h
    refine ih.mono (fun _ s' w' ds h => ?_) fun ds h => h.calls_append
    obtain ⟨rfl, rfl⟩ := h
    rw [← definitionsCalled_append, ← Deed.calls_append, ← List.filter_append]
    exact ⟨rfl, rfl⟩

/-- An extension has a factory callback. -/
def hasFactoryCallback (e : Extension H) : Bool :=
  e.views.definitionMutator || e.views.factoryMutator

theorem callFactory_leaves (e : Extension H) :
    (callFactory call v e).Leaves s w
      (fun _ s' _ ds => s' = factoriesCalled s ([e].filter hasFactoryCallback) ∧
        ds = Deed.calls .factory ([e].filter hasFactoryCallback))
      (OnlyCalls .factory) := by
  unfold callFactory
  cases hview : hasFactoryCallback e with
  | false =>
    rw [if_neg (by rw [← hasFactoryCallback, hview]; simp)]
    refine Stage.Leaves.always (Run.Leaves.within fun a w' j h => ?_)
    cases h
    simp [hview, factoriesCalled_nil, Deed.calls, Journal.deeds, Event.deed?]
  | true =>
    rw [if_pos (by rw [← hasFactoryCallback, hview])]
    refine Stage.Leaves.always_bind (mutation_leaves (.mutateFactory e v) _ (fun a =>
      .called .factory e (Callback.failure? (.mutateFactory e v) a)) fun a j => rfl)
      fun a w₁ ds₁ h => ?_
    subst h
    cases a with
    | error f =>
      refine Stage.Leaves.throw ?_
      simp [OnlyCalls]
    | ok _ =>
      refine Stage.Leaves.modify ?_
      simp [hview, factoriesCalled, Deed.calls, Callback.failure?]

theorem callFactories_leaves (es : List (Extension H)) :
    (callFactories call v es).Leaves s w
      (fun _ s' _ ds => s' = factoriesCalled s (es.filter hasFactoryCallback) ∧
        ds = Deed.calls .factory (es.filter hasFactoryCallback))
      (OnlyCalls .factory) := by
  induction es generalizing s w with
  | nil => exact Stage.Leaves.pure ⟨factoriesCalled_nil.symm, rfl⟩
  | cons e rest ih =>
    refine Stage.Leaves.bind (callFactory_leaves e) (fun _ s₁ w₁ ds₁ h => ?_) fun _ => id
    obtain ⟨rfl, rfl⟩ := h
    refine ih.mono (fun _ s' w' ds h => ?_) fun ds h => h.calls_append
    obtain ⟨rfl, rfl⟩ := h
    rw [← factoriesCalled_append, ← Deed.calls_append, ← List.filter_append]
    exact ⟨rfl, rfl⟩

/-! ## Supplied extensions -/

/-- A factory callback is all that the extension has. -/
def isRegular (e : Extension H) : Bool :=
  e.views.factoryMutator && !e.views.definitionMutator

theorem separate_leaves (es : List (Extension H)) :
    (separate call v es).Leaves s w
      (fun p s' _ ds => p = (es.filter (·.views.definitionMutator), es.filter isRegular) ∧
        s' = definitionsCalled s p.1 ∧ ds = Deed.calls .definition p.1)
      (OnlyCalls .definition) := by
  induction es generalizing s w with
  | nil => exact Stage.Leaves.pure ⟨rfl, definitionsCalled_nil.symm, rfl⟩
  | cons e rest ih =>
    unfold separate
    cases hview : e.views.definitionMutator with
    | true =>
      simp only [if_true]
      refine Stage.Leaves.bind (callDefinition_leaves e) (fun _ s₁ w₁ ds₁ h => ?_) fun _ => id
      obtain ⟨rfl, rfl⟩ := h
      refine Stage.Leaves.bind ih (fun p s₂ w₂ ds₂ h => ?_) fun ds h => h.calls_append
      obtain ⟨rfl, rfl, rfl⟩ := h
      refine Stage.Leaves.pure ⟨?_, ?_, ?_⟩
      · simp [hview, isRegular]
      · rw [← definitionsCalled_append]
        simp [hview]
      · simp [hview, Deed.calls]
    | false =>
      simp only [Bool.false_eq_true, if_false]
      cases hfactory : e.views.factoryMutator with
      | true =>
        simp only [if_true]
        refine Stage.Leaves.bind ih (fun p s₂ w₂ ds₂ h => ?_) fun ds h => h
        obtain ⟨rfl, rfl, rfl⟩ := h
        refine Stage.Leaves.pure ⟨?_, rfl, by rw [List.append_nil]⟩
        simp [hview, hfactory, isRegular]
      | false =>
        simp only [Bool.false_eq_true, if_false]
        apply Stage.Leaves.silent_bind (Run.record_leaves rfl)
        intro _ w₁ _
        refine ih.mono (fun p s₂ w₂ ds₂ h => ?_) fun ds h => h
        obtain ⟨rfl, rfl, rfl⟩ := h
        refine ⟨?_, rfl, rfl⟩
        simp [hview, hfactory, isRegular]

end Pipeline

end Startup
