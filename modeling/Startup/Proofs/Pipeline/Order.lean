import Startup.Proofs.Pipeline.Conduct

/-!
The order of the callbacks of a run.

Main statement: `definition_then_factory`. No definition callback comes after a factory callback.
The report of a run that succeeds tells the callbacks in the order in which they were made, and
that is: first the factory callbacks of all definition mutators, in the order of their definition
callbacks; then those of the other supplied extensions; then those of the factory tiers.
-/

namespace Startup

variable {H : Host} {σ : Type}

namespace Deed

/-- The extension behind a callback of a phase that succeeded. -/
def succeeded? (p : MutationPhase) : Deed H → Option (Extension H)
  | .called q e none => if q = p then some e else none
  | _ => none

/-- The extensions whose callbacks of a phase succeeded, in order. -/
def succeeded (p : MutationPhase) (ds : List (Deed H)) : List (Extension H) :=
  ds.filterMap (succeeded? p)

/-- The extension that was fetched. -/
def extension? : Deed H → Option (Extension H)
  | .fetched _ _ (.ok e) => some e
  | _ => none

/-- The extensions that were fetched, in order. -/
def fetchedExtensions (ds : List (Deed H)) : List (Extension H) := ds.filterMap extension?

variable {p q : MutationPhase} {c : Capability} {es : List (Extension H)}
  {found : List (ComponentName × Extension H)} {ds ds' : List (Deed H)}

@[simp] theorem succeeded_append :
    succeeded p (ds ++ ds') = succeeded p ds ++ succeeded p ds' := List.filterMap_append

@[simp] theorem succeeded_entered (x : Phase) :
    succeeded p (.entered x :: ds) = succeeded p ds := rfl

@[simp] theorem succeeded_calls_self : succeeded p (calls p es) = es := by
  simp [succeeded, calls, List.filterMap_map, succeeded?, Function.comp_def]

theorem succeeded_calls_of_ne (h : q ≠ p) : succeeded p (calls q es) = [] := by
  simp [succeeded, calls, List.filterMap_map, succeeded?, Function.comp_def, h]

@[simp] theorem succeeded_fetches : succeeded p (fetches c found) = [] := by
  simp [succeeded, fetches, List.filterMap_map, succeeded?, Function.comp_def]

@[simp] theorem fetchedExtensions_append :
    fetchedExtensions (ds ++ ds') = fetchedExtensions ds ++ fetchedExtensions ds' :=
  List.filterMap_append

@[simp] theorem fetchedExtensions_entered (x : Phase) :
    fetchedExtensions (.entered x :: ds) = fetchedExtensions ds := rfl

@[simp] theorem fetchedExtensions_calls : fetchedExtensions (calls p es) = [] := by
  simp [fetchedExtensions, calls, List.filterMap_map, extension?, Function.comp_def]

@[simp] theorem fetchedExtensions_fetches :
    fetchedExtensions (fetches c found) = found.map Prod.snd := by
  simp [fetchedExtensions, fetches, List.filterMap_map, extension?, Function.comp_def]

end Deed

namespace Pipeline

/-! ## Tiers -/

theorem succeeded_tiers {p : MutationPhase} (ts : List (Tier H p)) :
    Deed.succeeded p (ts.flatMap Tier.deeds) = ts.flatMap Tier.extensions := by
  induction ts with
  | nil => rfl
  | cons t rest ih => simp [Tier.deeds, ih]

theorem succeeded_tiers_of_ne {p q : MutationPhase} (h : q ≠ p) (ts : List (Tier H q)) :
    Deed.succeeded p (ts.flatMap Tier.deeds) = [] := by
  induction ts with
  | nil => rfl
  | cons t rest ih => simp [Tier.deeds, Deed.succeeded_calls_of_ne h, ih]

theorem fetchedExtensions_tiers {p : MutationPhase} (ts : List (Tier H p)) :
    (Deed.fetchedExtensions (ts.flatMap Tier.deeds)).Perm (ts.flatMap Tier.extensions) := by
  induction ts with
  | nil => exact .refl _
  | cons t rest ih =>
    simp only [List.flatMap_cons, Tier.deeds, Deed.fetchedExtensions_append,
      Deed.fetchedExtensions_fetches, Deed.fetchedExtensions_calls, List.append_nil]
    exact (t.perm.symm.map Prod.snd).append ih

theorem Closing.succeeded {ds : List (Deed H)} (h : Closing ds) (p : MutationPhase) :
    Deed.succeeded p ds = [] ∧ Deed.fetchedExtensions ds = [] := by
  obtain rfl | ⟨q, -, rfl⟩ := h
  · exact ⟨rfl, rfl⟩
  · exact ⟨rfl, rfl⟩

theorem Course.succeeded_deeds (c : Course H) :
    Deed.succeeded .definition c.deeds = c.mutators ∧ Deed.succeeded .factory c.deeds = [] := by
  have hfactory (ts : List (Tier H .definition)) :=
    succeeded_tiers_of_ne (p := .factory) (by simp) ts
  constructor
  · simp [Course.deeds, Course.opening, Course.mutators, Course.tiers, Tier.deeds, succeeded_tiers]
  · simp [Course.deeds, Course.opening, Tier.deeds, Deed.succeeded_calls_of_ne, hfactory]

/-- The callbacks of a run that is through. -/
theorem succeeded_fullDeeds (c : Course H) (regular : List (Extension H))
    (ts : List (Tier H .factory)) :
    Deed.succeeded .definition (fullDeeds c regular ts) = c.mutators ∧
      Deed.succeeded .factory (fullDeeds c regular ts) =
        c.mutators ++ regular ++ ts.flatMap Tier.extensions := by
  obtain ⟨hdefinition, hfactory⟩ := c.succeeded_deeds
  have hnone := succeeded_tiers_of_ne (p := .definition) (q := .factory) (by simp) ts
  constructor
  · simp [fullDeeds, factoryDeeds, hdefinition, Deed.succeeded_calls_of_ne, hnone]
  · simp [fullDeeds, factoryDeeds, hfactory, succeeded_tiers]

/-- The report of a run that is through. -/
theorem fullState_report (c : Course H) (regular : List (Extension H))
    (ts : List (Tier H .factory)) (p : Phase) :
    (inPhase (fullState c regular ts) p).report.definitionCalls = c.mutators.map (·.name) ∧
      (inPhase (fullState c regular ts) p).report.factoryCalls =
        (c.mutators ++ regular ++ ts.flatMap Tier.extensions).map (·.name) := by
  constructor
  · rfl
  · simp [inPhase, fullState, factoriesCalled, Course.state]

/-! ## Two phases -/

/-- A factory callback and then a definition callback. -/
def Inverted (d d' : Deed H) : Prop :=
  d.phase? = some .factory ∧ d'.phase? = some .definition

theorem within_of_phase {d : Deed H} {p q : MutationPhase} (h : d.Within p)
    (hq : d.phase? = some q) : q = p := by
  cases d with
  | called r e f =>
    have hr : r = q := Option.some.inj hq
    rw [← hr]
    exact h
  | _ => cases hq

theorem not_inverted_of_within {before after : List (Deed H)}
    (hbefore : ∀ d ∈ before, d.Within .definition) (hafter : ∀ d ∈ after, d.Within .factory) :
    (before ++ after).Pairwise fun d d' => ¬ Inverted d d' := by
  refine List.pairwise_append.2 ⟨?_, ?_, ?_⟩
  · apply List.pairwise_of_forall_mem_list
    intro d hd d' _ h
    cases within_of_phase (hbefore d hd) h.1
  · apply List.pairwise_of_forall_mem_list
    intro d _ d' hd' h
    cases within_of_phase (hafter d' hd') h.2
  · intro d hd d' _ h
    cases within_of_phase (hbefore d hd) h.1

/-- No definition callback comes after a factory callback, whether the run succeeds or fails. If it
succeeds, the report tells the callbacks as they were made; those of the factory phase begin with
all definition mutators in the order of their definition callbacks, go on with the supplied
extensions that have a factory callback only, and end with what the factory phase fetched. -/
theorem definition_then_factory (call : Call H σ) (v : View) (hv : v.writable = true)
    (depth : Nat) (supplied : List (Extension H)) {w w' : World H σ}
    {result : Except ExtensionError Unit} {report : Report} {j : Journal H}
    (h : invoke call v depth supplied w = some ((result, report), w', j)) :
    ∃ body, j = [.scope (.pipeline v supplied report (error? result)) body] ∧
      (Journal.deeds body).Pairwise (fun d d' => ¬ Inverted d d') ∧
      (result = .ok () →
        report.definitionCalls = (Deed.succeeded .definition (Journal.deeds body)).map (·.name) ∧
        report.factoryCalls = (Deed.succeeded .factory (Journal.deeds body)).map (·.name) ∧
        ∃ (before after : List (Deed H)) (tail : List (Extension H)),
          Journal.deeds body = before ++ .entered .factoryCallbacks :: after ∧
          .entered .factoryCallbacks ∉ before ∧ tail.Perm (Deed.fetchedExtensions after) ∧
          report.factoryCalls = report.definitionCalls ++
            (supplied.filter fun e => e.views.factoryMutator && !e.views.definitionMutator).map
              (·.name) ++ tail.map (·.name)) := by
  obtain ⟨body, hj, hconduct⟩ := invoke_conduct h
  refine ⟨body, hj, ?_, ?_⟩
  · obtain ⟨before, after, hds, hbefore, hafter⟩ := hconduct.fair
    rw [hds]
    exact not_inverted_of_within hbefore.within hafter.within
  · rintro rfl
    generalize hds : Journal.deeds body = ds at hconduct
    cases hconduct with
    | degraded ts r ds hv' => cases hv.symm.trans hv'
    | complete c ts p ds _ hfirst hnames hclosing =>
      obtain ⟨hdefinition, hfactory⟩ := succeeded_fullDeeds c (supplied.filter isRegular) ts
      have hreport := fullState_report c (supplied.filter isRegular) ts p
      refine ⟨?_, ?_, c.deeds, factoryDeeds c (supplied.filter isRegular) ts ++ ds,
        ts.flatMap Tier.extensions, ?_, ?_, ?_, ?_⟩
      · rw [hreport.1, Deed.succeeded_append, hdefinition, (hclosing.succeeded .definition).1,
          List.append_nil]
      · rw [hreport.2, Deed.succeeded_append, hfactory, (hclosing.succeeded .factory).1,
          List.append_nil]
      · simp [fullDeeds]
      · exact (Course.fair_deeds hnames.of_append_left).not_entered
      · simpa [factoryDeeds, (hclosing.succeeded .factory).2] using
          (fetchedExtensions_tiers ts).symm
      · rw [hreport.1, hreport.2, List.map_append, List.map_append]
        rfl

end Pipeline

/-- The two phases of the sample run. -/
theorem Scenario.sampleRun_phases :
    ∃ report w' body,
      sampleRun = some ((.ok (), report), w',
        [.scope (.pipeline (.direct Setup.base) sampleSupplied report none) body]) ∧
      (Journal.deeds body).Pairwise (fun d d' => ¬ Pipeline.Inverted d d') ∧
      report.factoryCalls = (Deed.succeeded .factory (Journal.deeds body)).map (·.name) := by
  obtain ⟨report, w', j, hrun⟩ := sampleRun_ok
  obtain ⟨body, rfl, hphases, hreport⟩ := Pipeline.definition_then_factory (behaviour.call 3)
    (.direct Setup.base) rfl 3 sampleSupplied hrun
  exact ⟨report, w', body, hrun, hphases, (hreport rfl).2.1⟩

end Startup
