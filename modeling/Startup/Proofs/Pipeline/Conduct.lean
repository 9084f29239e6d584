import Startup.Proofs.Pipeline.FactoryTiers
import Startup.Scenario.Basic

/-!
The deeds of a whole run of the pipeline.

Main statement: `invoke_conduct`. A run that succeeds does all of its parts in their order; one
that fails breaks off in one of its phases, and until then it did what the phase allows.
-/

namespace Startup

variable {H : Host} {σ : Type} {call : Call H σ} {v : View} {s : Invocation} {w : World H σ}

theorem View.clearCache_leaves :
    (v.clearCache : Run H σ Unit).Leaves w fun _ _ ds => ds = [] := by
  intro _ w' j h
  rw [View.clearCache_run] at h
  cases h
  rfl

namespace Pipeline

/-! ## The course of a run -/

namespace Course

variable {c : Course H}

/-- The definition mutators of a run have a factory callback, too. -/
theorem filter_mutators (hfirst : ∀ e ∈ c.first, e.views.definitionMutator = true) :
    c.mutators.filter hasFactoryCallback = c.mutators := by
  apply List.filter_eq_self.2
  intro e he
  have hview : e.views.definitionMutator = true := by
    rcases List.mem_append.1 he with he | he
    · exact hfirst e he
    · obtain ⟨t, -, he⟩ := List.mem_flatMap.1 he
      exact Tier.mem_extensions he
  rw [hasFactoryCallback, hview, Bool.true_or]

end Course

theorem filter_isRegular (es : List (Extension H)) :
    (es.filter isRegular).filter hasFactoryCallback = es.filter isRegular := by
  apply List.filter_eq_self.2
  intro e he
  have hregular := List.of_mem_filter he
  simp only [isRegular, Bool.and_eq_true] at hregular
  rw [hasFactoryCallback, hregular.1, Bool.or_true]

/-- What a run does in its factory phase: the factory callbacks of the definition mutators in the
order of their definition callbacks, then those of the other supplied extensions, then the tiers of
factory mutators. -/
def factoryDeeds (c : Course H) (regular : List (Extension H)) (ts : List (Tier H .factory)) :
    List (Deed H) :=
  Deed.calls .factory c.mutators ++ (Deed.calls .factory regular ++ ts.flatMap Tier.deeds)

/-- All that a run does when definitions can be changed. -/
def fullDeeds (c : Course H) (regular : List (Extension H)) (ts : List (Tier H .factory)) :
    List (Deed H) :=
  c.deeds ++ .entered .factoryCallbacks :: factoryDeeds c regular ts

/-- The state of such a run when it is through. -/
def fullState (c : Course H) (regular : List (Extension H)) (ts : List (Tier H .factory)) :
    Invocation :=
  factoriesCalled (factoriesCalled (factoriesCalled (inPhase c.state .factoryCallbacks) c.mutators)
    regular) (ts.flatMap Tier.extensions)

/-- What a run does after its definition phase. -/
def factoryPhase (call : Call H σ) (v : View) (p : List (Extension H) × List (Extension H)) :
    Stage H σ Unit := do
  Stage.enter .factoryCallbacks
  callFactories call v p.1
  callFactories call v p.2
  mutateFactory call v
  Stage.always v.clearCache

/-- Where definitions can be changed, a run has two phases. -/
theorem steps_eq (hv : v.writable = true) (depth : Nat) (supplied : List (Extension H)) :
    steps call v depth supplied =
      mutateDefinitions call v depth supplied >>= factoryPhase call v := by
  unfold steps
  rw [if_pos hv]
  rfl

theorem factoryPhase_leaves {c : Course H} {regular : List (Extension H)}
    (hfirst : ∀ e ∈ c.first, e.views.definitionMutator = true)
    (hregular : regular.filter hasFactoryCallback = regular) (hnames : c.names.Nodup) :
    (factoryPhase call v (c.mutators, regular)).Leaves c.state w
      (fun _ s' _ ds => ∃ ts : List (Tier H .factory),
        (c.names ++ ts.flatMap Tier.names).Nodup ∧ s' = fullState c regular ts ∧
        ds = .entered .factoryCallbacks :: factoryDeeds c regular ts)
      fun ds => ∃ ds', ds = .entered .factoryCallbacks :: ds' ∧ Fair c.names .factory ds' := by
  refine enter_bind (by simp [Course.state]) ?_
  refine Stage.Leaves.bind (callFactories_leaves c.mutators) ?_ fun ds hds =>
    ⟨ds, rfl, Fair.of_onlyCalls hnames hds⟩
  rw [Course.filter_mutators hfirst]
  rintro _ s₂ w₂ ds₂ ⟨rfl, rfl⟩
  refine Stage.Leaves.bind (callFactories_leaves regular) ?_ fun ds hds =>
    ⟨_, rfl, Fair.calls_append (Fair.of_onlyCalls hnames hds)⟩
  rw [hregular]
  rintro _ s₃ w₃ ds₃ ⟨rfl, rfl⟩
  refine Stage.Leaves.bind (mutateFactory_leaves (by simp) hnames) ?_ fun ds hds =>
    ⟨_, rfl, Fair.calls_append (Fair.calls_append hds)⟩
  rintro _ s₄ w₄ ds₄ ⟨ts, rfl, rfl, hnodup⟩
  refine Stage.Leaves.always (View.clearCache_leaves.mono fun _ w' ds hds => ?_)
  subst hds
  exact ⟨ts, hnodup, rfl, by simp [factoryDeeds]⟩

theorem steps_leaves (hv : v.writable = true) (depth : Nat) (supplied : List (Extension H)) :
    (steps call v depth supplied).Leaves {} w
      (fun _ s' _ ds => ∃ (c : Course H) (ts : List (Tier H .factory)),
        c.first = supplied.filter (·.views.definitionMutator) ∧
        (c.names ++ ts.flatMap Tier.names).Nodup ∧
        ds = fullDeeds c (supplied.filter isRegular) ts ∧
        s' = fullState c (supplied.filter isRegular) ts)
      fun ds => Fair [] .definition ds ∨ ∃ (c : Course H) (ds' : List (Deed H)), c.names.Nodup ∧
        ds = c.deeds ++ .entered .factoryCallbacks :: ds' ∧ Fair c.names .factory ds' := by
  rw [steps_eq hv]
  refine Stage.Leaves.bind (mutateDefinitions_leaves depth supplied) ?_ fun _ => .inl
  rintro p s₁ w₁ ds₁ ⟨c, hfirst, rfl, rfl, rfl, hnames, -, -⟩
  have hviews : ∀ e ∈ c.first, e.views.definitionMutator = true := by
    rw [hfirst]
    exact fun e he => (List.mem_filter.1 he).2
  refine (factoryPhase_leaves hviews (filter_isRegular supplied) hnames).mono ?_ ?_
  · rintro _ s' w' ds ⟨ts, hnodup, rfl, rfl⟩
    exact ⟨c, ts, hfirst, hnodup, rfl, rfl⟩
  · rintro _ ⟨ds, rfl, hds⟩
    exact .inr ⟨c, ds, hnames, rfl, hds⟩

/-- All that a run does when definitions cannot be changed. -/
def degradedDeeds (supplied : List (Extension H)) (ts : List (Tier H .factory)) : List (Deed H) :=
  .entered .factoryCallbacks ::
    (Deed.calls .factory (supplied.filter hasFactoryCallback) ++ ts.flatMap Tier.deeds)

theorem degraded_leaves (hv : v.writable = false) (depth : Nat) (supplied : List (Extension H)) :
    (steps call v depth supplied).Leaves {} w
      (fun _ _ _ ds => ∃ ts : List (Tier H .factory),
        (ts.flatMap Tier.names).Nodup ∧ ds = degradedDeeds supplied ts)
      (Fair [] .factory) := by
  unfold steps
  rw [if_neg (by simp [hv])]
  refine Stage.Leaves.modify_bind ?_
  apply Stage.Leaves.silent_bind (Run.record_leaves rfl)
  intro _ w₁ _
  refine enter_bind (by simp) ?_
  refine Stage.Leaves.bind (callFactories_leaves supplied) ?_ fun ds hds =>
    Fair.entered (Fair.of_onlyCalls List.nodup_nil hds) fun _ => rfl
  rintro _ s₂ w₂ ds₂ ⟨rfl, rfl⟩
  refine Stage.Leaves.bind (mutateFactory_leaves (by simp) List.nodup_nil) ?_ fun ds hds =>
    Fair.entered (Fair.calls_append hds) fun _ => rfl
  rintro _ s₃ w₃ ds₃ ⟨ts, rfl, rfl, hnodup⟩
  refine Stage.Leaves.always (View.clearCache_leaves.mono fun _ w' ds hds => ?_)
  subst hds
  exact ⟨ts, hnodup, by simp [degradedDeeds]⟩

/-! ## The end of a run -/

/-- Nothing, or a last phase is entered. -/
def Closing (ds : List (Deed H)) : Prop :=
  ds = [] ∨ ∃ q, q ≠ .factoryCallbacks ∧ ds = [.entered q]

theorem Closing.fair {ds : List (Deed H)} (h : Closing ds) {known : List ComponentName}
    {p : MutationPhase} (hknown : known.Nodup) : Fair known p ds := by
  obtain rfl | ⟨q, hq, rfl⟩ := h
  · exact ⟨by simpa using hknown, fun _ hd => absurd hd List.not_mem_nil⟩
  · exact ⟨by simpa using hknown, List.forall_mem_singleton.2 fun he => absurd he hq⟩

theorem Fair.closing {known : List ComponentName} {p : MutationPhase} {ds ds' : List (Deed H)}
    (h : Fair known p ds) (h' : Closing ds') : Fair known p (ds ++ ds') :=
  h.append (h'.fair h.fresh)

theorem enter_closing (p : Phase) (hp : p ≠ .factoryCallbacks) :
    (Stage.enter p : Stage H σ Unit).Leaves s w
      (fun _ s' _ ds => s' = inPhase s p ∧ Closing ds) fun _ => False := by
  by_cases h : s.report.phase = p
  · intro r w' j hrun
    rw [Stage.on_enter, if_pos h] at hrun
    cases hrun
    refine ⟨?_, .inl rfl⟩
    rw [inPhase, ← h]
  · refine (enter_leaves p h).mono ?_ fun _ => id
    rintro _ s' w' ds ⟨rfl, -, rfl⟩
    exact ⟨rfl, .inr ⟨p, hp, rfl⟩⟩

/-- To close the report is to enter a last phase, unless it was entered already. -/
theorem finish_leaves (r : Except ExtensionError Unit) :
    (finish r : Stage H σ Unit).Leaves s w
      (fun _ s' _ ds => (∃ p, s' = inPhase s p) ∧ Closing ds) fun _ => False := by
  cases r with
  | ok _ =>
    refine Stage.Leaves.bind (enter_closing .done (by simp)) ?_ fun _ => id
    rintro _ s₁ w₁ ds₁ ⟨rfl, hclosing⟩
    refine Stage.Leaves.get_bind (Stage.Leaves.always ((Run.record_leaves rfl).mono ?_))
    rintro _ w₂ ds₂ ⟨-, rfl⟩
    exact ⟨⟨_, rfl⟩, by rw [List.append_nil]; exact hclosing⟩
  | error e =>
    refine Stage.Leaves.get_bind ?_
    refine Stage.Leaves.bind (enter_closing .aborted (by simp)) ?_ fun _ => id
    rintro _ s₁ w₁ ds₁ ⟨rfl, hclosing⟩
    refine Stage.Leaves.always ((Run.record_leaves rfl).mono ?_)
    rintro _ w₂ ds₂ ⟨-, rfl⟩
    exact ⟨⟨_, rfl⟩, by rw [List.append_nil]; exact hclosing⟩

/-- What a run that has come to an end did, from its first phase to its last. -/
inductive Conduct (v : View) (supplied : List (Extension H)) :
    Except ExtensionError Unit → Report → List (Deed H) → Prop
  /-- Everything was done. -/
  | complete (c : Course H) (ts : List (Tier H .factory)) (p : Phase) (ds : List (Deed H))
      (hv : v.writable = true) (hfirst : c.first = supplied.filter (·.views.definitionMutator))
      (hnames : (c.names ++ ts.flatMap Tier.names).Nodup) (hds : Closing ds) :
      Conduct v supplied (.ok ()) (inPhase (fullState c (supplied.filter isRegular) ts) p).report
        (fullDeeds c (supplied.filter isRegular) ts ++ ds)
  /-- Everything was done that can be done without changing definitions. -/
  | degraded (ts : List (Tier H .factory)) (r : Report) (ds : List (Deed H))
      (hv : v.writable = false) (hnames : (ts.flatMap Tier.names).Nodup) (hds : Closing ds) :
      Conduct v supplied (.ok ()) r (degradedDeeds supplied ts ++ ds)
  /-- The run broke off in its first phase. -/
  | broken (e : ExtensionError) (r : Report) (ds : List (Deed H))
      (h : Fair [] (if v.writable then .definition else .factory) ds) :
      Conduct v supplied (.error e) r ds
  /-- The run broke off in the factory phase, after the definition mutators. -/
  | brokenLate (e : ExtensionError) (r : Report) (c : Course H) (ds : List (Deed H))
      (hv : v.writable = true) (hnames : c.names.Nodup) (h : Fair c.names .factory ds) :
      Conduct v supplied (.error e) r (c.deeds ++ .entered .factoryCallbacks :: ds)

theorem fair_factoryDeeds {c : Course H} {regular : List (Extension H)}
    {ts : List (Tier H .factory)} (hnames : (c.names ++ ts.flatMap Tier.names).Nodup) :
    Fair c.names .factory (.entered .factoryCallbacks :: factoryDeeds c regular ts) :=
  Fair.entered (Fair.calls_append (Fair.calls_append (Fair.tiers hnames))) fun _ => rfl

/-- Whether it succeeds or not, a run has a definition phase and then a factory phase, and fetches
nothing twice. Where definitions cannot be changed, the definition phase is empty. -/
theorem Conduct.fair {supplied : List (Extension H)} {result : Except ExtensionError Unit}
    {report : Report} {ds : List (Deed H)} (h : Conduct v supplied result report ds) :
    ∃ before after, ds = before ++ after ∧ Fair [] .definition before ∧
      Fair (Deed.fetchedNames before) .factory after := by
  have hnothing : Fair (H := H) [] .definition [] :=
    ⟨List.nodup_nil, fun _ hd => absurd hd List.not_mem_nil⟩
  cases h with
  | complete c ts p ds hv hfirst hnames hds =>
    refine ⟨c.deeds, _, by rw [fullDeeds, List.append_assoc], ?_, ?_⟩
    · exact Course.fair_deeds hnames.of_append_left
    · rw [Course.fetchedNames_deeds]
      exact (fair_factoryDeeds hnames).closing hds
  | degraded ts r ds hv hnames hds =>
    refine ⟨[], _, (List.nil_append _).symm, hnothing, ?_⟩
    have hall : Fair [] .factory (degradedDeeds supplied ts) :=
      Fair.entered (Fair.calls_append (Fair.tiers hnames)) fun _ => rfl
    exact hall.closing hds
  | broken e r _ hfair =>
    split at hfair
    · refine ⟨ds, [], (List.append_nil _).symm, hfair, ?_⟩
      exact ⟨by simpa using hfair.fresh, fun _ hd => absurd hd List.not_mem_nil⟩
    · exact ⟨[], ds, rfl, hnothing, hfair⟩
  | brokenLate e r c ds hv hnames hfair =>
    refine ⟨c.deeds, _, rfl, Course.fair_deeds hnames, ?_⟩
    rw [Course.fetchedNames_deeds]
    exact hfair.entered fun _ => rfl

/-- A run that succeeds has been in its factory phase. -/
theorem Conduct.entered {supplied : List (Extension H)} {report : Report} {ds : List (Deed H)}
    (h : Conduct v supplied (.ok ()) report ds) : .entered .factoryCallbacks ∈ ds := by
  cases h with
  | complete c ts p ds hv hfirst hnames hds => simp [fullDeeds]
  | degraded ts r ds hv hnames hds => simp [degradedDeeds]

theorem deeds_started (n : Nat) (j : Journal H) :
    Journal.deeds (.fact (.pipelineStarted n) :: j) = Journal.deeds j := rfl

/-- A finished run is its steps and its end, put under one entry. -/
theorem invoke_parts {depth : Nat} {supplied : List (Extension H)}
    {result : Except ExtensionError Unit} {report : Report} {w' : World H σ} {j : Journal H}
    (h : invoke call v depth supplied w = some ((result, report), w', j)) :
    ∃ s w₁ j₁ s' j₂, (steps call v depth supplied).on {} w = some ((result, s), w₁, j₁) ∧
      (finish result).on s w₁ = some ((.ok (), s'), w', j₂) ∧ report = s'.report ∧
      j = [.scope (.pipeline v supplied report (error? result))
        (.fact (.pipelineStarted supplied.length) :: (j₁ ++ j₂))] := by
  obtain ⟨body, h₁, rfl⟩ := Run.within_eq_some.1 h
  obtain ⟨_, w₁, j₁, j₂, hstart, h₂, rfl⟩ := Run.bind_eq_some.1 h₁
  cases hstart
  obtain ⟨⟨r, s⟩, w₂, j₂, j₃, hsteps, h₃, rfl⟩ := Run.bind_eq_some.1 h₂
  obtain ⟨⟨closed, s'⟩, w₃, j₃, j₄, hfinish, h₄, rfl⟩ := Run.bind_eq_some.1 h₃
  obtain ⟨hvalue, rfl, rfl⟩ := Run.pure_eq_some.1 h₄
  cases hvalue
  cases closed with
  | error e => exact (finish_leaves result _ _ _ hfinish).elim
  | ok _ =>
    refine ⟨s, w₂, j₂, s', j₃, hsteps, hfinish, rfl, ?_⟩
    rw [List.append_nil, List.singleton_append]

theorem invoke_eq_some {depth : Nat} {supplied : List (Extension H)}
    {result : Except ExtensionError Unit} {report : Report} {w' : World H σ} {j : Journal H}
    (h : invoke call v depth supplied w = some ((result, report), w', j)) :
    ∃ s w₁ j₁ p j₂, (steps call v depth supplied).on {} w = some ((result, s), w₁, j₁) ∧
      report = (inPhase s p).report ∧ Closing (Journal.deeds j₂) ∧
      j = [.scope (.pipeline v supplied report (error? result))
        (.fact (.pipelineStarted supplied.length) :: (j₁ ++ j₂))] := by
  obtain ⟨s, w₁, j₁, s', j₂, hsteps, hfinish, rfl, rfl⟩ := invoke_parts h
  obtain ⟨⟨p, rfl⟩, hclosing⟩ := finish_leaves result _ _ _ hfinish
  exact ⟨s, w₁, j₁, p, j₂, hsteps, rfl, hclosing, rfl⟩

/-- The deeds of a finished run stand directly below its entry, and are those of its conduct. -/
theorem invoke_conduct {depth : Nat} {supplied : List (Extension H)}
    {result : Except ExtensionError Unit} {report : Report} {w' : World H σ} {j : Journal H}
    (h : invoke call v depth supplied w = some ((result, report), w', j)) :
    ∃ body, j = [.scope (.pipeline v supplied report (error? result)) body] ∧
      Conduct v supplied result report (Journal.deeds body) := by
  obtain ⟨s, w₁, j₁, p, j₂, hsteps, rfl, hclosing, rfl⟩ := invoke_eq_some h
  refine ⟨_, rfl, ?_⟩
  rw [deeds_started, Journal.deeds_append]
  cases hv : v.writable with
  | true =>
    have hconduct := steps_leaves hv depth supplied (result, s) w₁ j₁ hsteps
    cases result with
    | ok _ =>
      obtain ⟨c, ts, hfirst, hnames, hds, rfl⟩ := hconduct
      rw [hds]
      exact .complete c ts p _ hv hfirst hnames hclosing
    | error e =>
      obtain hfair | ⟨c, ds, hnames, hds, hfair⟩ := hconduct
      · exact .broken e _ _ (by rw [if_pos hv]; exact hfair.closing hclosing)
      · rw [hds, List.append_assoc]
        exact .brokenLate e _ c _ hv hnames (hfair.closing hclosing)
  | false =>
    have hconduct := degraded_leaves hv depth supplied (result, s) w₁ j₁ hsteps
    cases result with
    | ok _ =>
      obtain ⟨ts, hnames, hds⟩ := hconduct
      rw [hds]
      exact .degraded ts _ _ hv hnames hclosing
    | error e => exact .broken e _ _ (by rw [hv]; exact hconduct.closing hclosing)

end Pipeline

/-! ## A run of the pipeline -/

namespace Scenario

/-- A component that is an extension with one capability. -/
def extensionSpec (name : String) (c : Capability) (tier : OrderTier) (views : Views)
    (definition : List Step) : DefinitionSpec :=
  .mk name .extension [c] tier .application .singleton false [] []
    (.extension name tier views false definition [] [] [] [] [])

def late : DefinitionSpec :=
  extensionSpec "late" .definitionMutator .unordered { definitionMutator := true } []

/-- A definition mutator that registers another one. -/
def early : DefinitionSpec :=
  extensionSpec "early" .definitionMutator (.priority 1) { definitionMutator := true }
    [.mk {} (.perform .quiet (.register late))]

def adjuster : DefinitionSpec :=
  extensionSpec "adjuster" .factoryMutator .unordered { factoryMutator := true } []

def supplied (id : ObjectId) (name : String) (views : Views) : Extension Scripted :=
  { id, name, tier := .unordered, views, body := .code (.extension [] [] [] [] []) }

def sampleSupplied : List (Extension Scripted) :=
  [supplied 100 "regular" { factoryMutator := true },
    supplied 101 "first" { definitionMutator := true }]

def sampleWorld : World Scripted Memory :=
  (Setup.world {}).setRegistry Setup.base
    ((({} : Registry Scripted).define early.toDefinition).define adjuster.toDefinition)

/-- A run with extensions of all kinds. -/
def sampleRun : Option ((Except ExtensionError Unit × Report) × World Scripted Memory ×
    Journal Scripted) :=
  Pipeline.invoke (behaviour.call 3) (.direct Setup.base) 3 sampleSupplied sampleWorld

theorem sampleRun_report :
    sampleRun.map (fun p => (p.1.1.isOk, p.1.2)) = some (true,
      { definitionCalls := ["first", "early", "late"]
        factoryCalls := ["first", "early", "late", "regular", "adjuster"]
        rounds := 2
        phase := .done }) := by
  decide +kernel

theorem sampleRun_ok : ∃ report w' j, sampleRun = some ((.ok (), report), w', j) := by
  obtain ⟨⟨⟨result, report⟩, w', j⟩, hrun, hreport⟩ := Option.map_eq_some_iff.1 sampleRun_report
  cases result with
  | ok _ => exact ⟨report, w', j, hrun⟩
  | error e => cases congrArg Prod.fst hreport

end Scenario

end Startup
