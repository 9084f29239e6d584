import Startup.Proofs.Lockstep.Views
import Startup.Proofs.Pipeline.Conduct

/-!
The pipeline of a registry whose definitions cannot be changed. Such a run has no definition phase;
it hands all supplied extensions to the factory phase as they are. A run that may change definitions
but finds no definition mutator does go through the definition phase: it separates the supplied
extensions, asks three times for mutators, and ends with one empty round. Nothing of this leaves a
mark, and what is left of the supplied extensions are those whose callback the other run makes, too.
From there on the two runs do the same.

Main statement: `degraded_agrees`.
-/

namespace Startup

variable {H : Host} {σ : Type}

/-! ## The states of the two runs -/

/-- `r` is the report of a run that may change definitions but did not, and `r'` that of a run which
may not. They differ in no more than that. -/
structure Report.DegradesTo (r r' : Report) : Prop where
  definitionCalls : r.definitionCalls = [] ∧ r'.definitionCalls = []
  factoryCalls : r.factoryCalls = r'.factoryCalls
  phase : r.phase = r'.phase
  rounds : r.rounds = 1 ∧ r'.rounds = 0
  degraded : r.degraded = false ∧ r'.degraded = true

theorem Report.DegradesTo.eq {r r' : Report} (h : r.DegradesTo r') :
    r' = { r with rounds := 0, degraded := true } := by
  obtain ⟨definitionCalls, factoryCalls, rounds, phase, degraded⟩ := r'
  obtain ⟨⟨hcalls, rfl⟩, rfl, rfl, ⟨-, rfl⟩, ⟨-, rfl⟩⟩ := h
  rw [hcalls]

structure Invocation.DegradesTo (s s' : Invocation) : Prop where
  processed : s.processed = s'.processed
  report : s.report.DegradesTo s'.report

/-- Two stages echo each other in all such states. -/
def Stage.Echoes {α : Type} (x x' : Stage H σ α) : Prop :=
  ∀ s s', s.DegradesTo s' →
    Run.Echoes (fun p p' => p.1 = p'.1 ∧ p.2.DegradesTo p'.2) (x.on s) (x'.on s')

namespace Stage.Echoes

variable {α β : Type}

theorem pure (a : α) : Echoes (Pure.pure a : Stage H σ α) (Pure.pure a) :=
  fun _ _ hs => .pure ⟨rfl, hs⟩

theorem throw (e : ExtensionError) :
    Echoes (MonadExcept.throw e : Stage H σ α) (MonadExcept.throw e) :=
  fun _ _ hs => .pure ⟨rfl, hs⟩

theorem bind {x x' : Stage H σ α} {f f' : α → Stage H σ β} (hx : x.Echoes x')
    (hf : ∀ a, (f a).Echoes (f' a)) : (x >>= f).Echoes (x' >>= f') := by
  intro s s' hs
  rw [on_bind, on_bind]
  apply (hx s s' hs).bind
  rintro ⟨_ | a, s₁⟩ ⟨_, s₁'⟩ ⟨rfl, hs₁⟩
  · exact .pure ⟨rfl, hs₁⟩
  · exact hf a s₁ s₁' hs₁

theorem always {x x' : Run H σ α} (hx : x.Echoes Eq x') :
    (Stage.always x).Echoes (Stage.always x') := by
  intro s s' hs
  rw [on_always, on_always]
  exact hx.bind_same fun _ => .pure ⟨rfl, hs⟩

theorem attempt {x x' : Attempt H σ DependencyError α} (hx : x.run.Echoes Eq x'.run) :
    (Stage.attempt x).Echoes (Stage.attempt x') := by
  intro s s' hs
  rw [on_attempt, on_attempt]
  exact hx.bind_same fun _ => .pure ⟨rfl, hs⟩

/-- After a look at the state it is enough to echo each other in the states that are seen. -/
theorem get_bind {f f' : Invocation → Stage H σ α}
    (hf : ∀ s s', s.DegradesTo s' →
      Run.Echoes (fun p p' => p.1 = p'.1 ∧ p.2.DegradesTo p'.2) ((f s).on s) ((f' s').on s')) :
    (get >>= f).Echoes (get >>= f') := by
  intro s s' hs
  simp only [on_bind, on_get, pure_bind]
  exact hf s s' hs

theorem enter (p : Phase) : (Stage.enter p : Stage H σ Unit).Echoes (Stage.enter p) := by
  intro s s' hs
  rw [on_enter, on_enter, hs.report.phase]
  split
  · exact .pure ⟨rfl, hs⟩
  · apply (Run.Echoes.record _ _).bind_same
    intro _
    exact .pure ⟨rfl, hs.processed, { hs.report with phase := rfl }⟩

end Stage.Echoes

namespace Pipeline

open Stage.Echoes (attempt get_bind)

/-! ## The factory phase -/

section FactoryPhase

variable {v v' : View} (hv : v'.Forwards v) {call : Call H σ} (hcall : call.Unaware v v')
include hv hcall

theorem callFactory_echoes (e : Extension H) :
    (callFactory call v e).Echoes (callFactory call v' e) := by
  unfold callFactory
  split
  · have hcallback : Run.Echoes Eq
        (Run.within (fun x => .mutation .factory e (outcome x))
          (Callback.perform call (.mutateFactory e v)))
        (Run.within (fun x => .mutation .factory e (outcome x))
          (Callback.perform call (.mutateFactory e v'))) :=
      Run.Echoes.within (fun _ _ _ => rfl) (hcall.perform_mutateFactory hv e)
    apply (Stage.Echoes.always hcallback).bind
    rintro (f | _)
    · exact .throw _
    · intro s s' hs
      have hcalls := congrArg (· ++ [e.name]) hs.report.factoryCalls
      exact .pure ⟨rfl, hs.processed, { hs.report with factoryCalls := hcalls }⟩
  · exact .always (.refl _)

theorem callFactories_echoes (es : List (Extension H)) :
    (callFactories call v es).Echoes (callFactories call v' es) := by
  induction es with
  | nil => exact .pure ()
  | cons e rest ih => exact (callFactory_echoes hv hcall e).bind fun _ => ih

/-- An extension without a factory callback may as well be left out. -/
theorem callFactories_supplied {es : List (Extension H)}
    (hes : ∀ e ∈ es, e.views.definitionMutator = false) :
    (callFactories call v (es.filter isRegular)).Echoes (callFactories call v' es) := by
  induction es with
  | nil => exact .pure ()
  | cons e rest ih =>
    have hview := hes e List.mem_cons_self
    have hrest := ih fun x hx => hes x (List.mem_cons_of_mem e hx)
    cases hfactory : e.views.factoryMutator with
    | true =>
      rw [List.filter_cons_of_pos (by simp [isRegular, hview, hfactory])]
      exact (callFactory_echoes hv hcall e).bind fun _ => hrest
    | false =>
      rw [List.filter_cons_of_neg (by simp [isRegular, hfactory])]
      have hnothing : (Pure.pure () : Stage H σ Unit).Echoes (callFactory call v' e) := by
        intro s s' hs w
        simp only [callFactory, hview, hfactory, Bool.or_self, Bool.false_eq_true, if_false]
        exact .some ⟨⟨rfl, hs⟩, rfl, rfl⟩
      have hboth := hnothing.bind fun _ => hrest
      rw [pure_bind] at hboth
      exact hboth

theorem runFactoryTier_echoes (names : List ComponentName) :
    (runFactoryTier call v names).Echoes (runFactoryTier call v' names) := by
  unfold runFactoryTier
  apply (attempt (hv.fetchAll _ names)).bind
  intro tier
  exact (Stage.Echoes.always (hv.sort tier)).bind fun sorted => callFactories_echoes hv hcall sorted

theorem mutateFactory_echoes : (mutateFactory call v).Echoes (mutateFactory call v') := by
  unfold mutateFactory
  apply (Stage.Echoes.enter _).bind
  intro _
  apply (Stage.Echoes.always (hv.names _ _ _)).bind
  intro names
  apply get_bind
  intro s s' hs
  rw [hs.processed]
  refine Stage.Echoes.bind (attempt (hv.divide _ _ names)) (fun tiers => ?_) s s' hs
  apply (Stage.Echoes.always (.refl _)).bind
  intro _
  apply (Stage.Echoes.always (hv.sort tiers.priority)).bind
  intro sorted
  apply (callFactories_echoes hv hcall sorted).bind
  intro _
  exact (runFactoryTier_echoes hv hcall _).bind fun _ => runFactoryTier_echoes hv hcall _

end FactoryPhase

/-! ## A definition phase without mutators -/

end Pipeline

/-- In a world, a stage succeeds, changes nothing in it and makes no callback. -/
def Stage.Passes {α : Type} (x : Stage H σ α) (w : World H σ) (s : Invocation) (a : α)
    (s' : Invocation) : Prop :=
  ∃ j, x.on s w = some ((.ok a, s'), w, j) ∧ Journal.calls j = []

namespace Stage.Passes

variable {α α' β β' : Type} {w : World H σ} {s s' s₁ s₁' s₂ : Invocation}

theorem pure (a : α) : (Pure.pure a : Stage H σ α).Passes w s a s := ⟨[], rfl, rfl⟩

theorem modify (f : Invocation → Invocation) :
    (MonadState.modifyGet fun s => ((), f s) : Stage H σ Unit).Passes w s () (f s) :=
  ⟨[], rfl, rfl⟩

theorem bind {x : Stage H σ α} {f : α → Stage H σ β} {a : α} {b : β}
    (hx : x.Passes w s a s₁) (hf : (f a).Passes w s₁ b s₂) : (x >>= f).Passes w s b s₂ := by
  obtain ⟨j, hrun, hj⟩ := hx
  obtain ⟨j', hrun', hj'⟩ := hf
  have hcalls : Journal.calls (j ++ j') = [] := by
    rw [Journal.calls_append, hj, hj', List.append_nil]
  exact ⟨j ++ j', bind_eq_ok.2 ⟨a, s₁, w, j, j', hrun, hrun', rfl⟩, hcalls⟩

theorem always {x : Run H σ α} {a : α} {j : Journal H} (hx : x w = some (a, w, j))
    (hj : Journal.calls j = []) : (Stage.always x).Passes w s a s := by
  refine ⟨j, ?_, hj⟩
  rw [on_always]
  exact Run.bind_eq_some.2 ⟨a, w, j, [], hx, rfl, (List.append_nil j).symm⟩

theorem enter (p : Phase) :
    (Stage.enter p : Stage H σ Unit).Passes w s () (Pipeline.inPhase s p) := by
  unfold Passes
  rw [on_enter]
  by_cases h : s.report.phase = p
  · subst h
    exact ⟨[], by rw [if_pos rfl]; rfl, rfl⟩
  · exact ⟨[.fact (.phaseChanged s.report.phase p)], by rw [if_neg h]; rfl, rfl⟩

/-- Two stages that leave no mark, and then two that echo each other in the states that these lead
to. -/
theorem bind_echo {x : Stage H σ α} {x' : Stage H σ α'} {f : α → Stage H σ β}
    {f' : α' → Stage H σ β'} {a : α} {a' : α'}
    {Q : Except ExtensionError β × Invocation → Except ExtensionError β' × Invocation → Prop}
    (hx : x.Passes w s a s₁) (hx' : x'.Passes w s' a' s₁')
    (hf : Option.Rel (Echo Q) ((f a).on s₁ w) ((f' a').on s₁' w)) :
    Option.Rel (Echo Q) ((x >>= f).on s w) ((x' >>= f').on s' w) := by
  obtain ⟨j, hrun, hj⟩ := hx
  obtain ⟨j', hrun', hj'⟩ := hx'
  rw [on_bind, on_bind]
  have hecho : Option.Rel (Echo fun p p' => p = (.ok a, s₁) ∧ p' = (.ok a', s₁'))
      (x.on s w) (x'.on s' w) := by
    rw [hrun, hrun']
    exact .some ⟨⟨rfl, rfl⟩, rfl, hj'.trans hj.symm⟩
  apply Run.Echoes.bind_at hecho
  rintro _ _ w₁ j₁ hfirst ⟨rfl, rfl⟩
  obtain rfl : w = w₁ := by
    rw [hrun] at hfirst
    cases hfirst
    rfl
  exact hf

end Stage.Passes

namespace Pipeline

open Stage.Echoes (get_bind)
open Stage.Passes (always enter modify bind_echo)

section DefinitionPhase

variable {call : Call H σ} {v : View} {w : World H σ} {s : Invocation}

theorem record_passes (f : Fact H) : (Stage.always (Run.record f)).Passes w s () s :=
  always rfl rfl

theorem separate_passes {es : List (Extension H)}
    (hes : ∀ e ∈ es, e.views.definitionMutator = false) :
    (separate call v es).Passes w s ([], es.filter isRegular) s := by
  induction es with
  | nil => exact .pure _
  | cons e rest ih =>
    have hview := hes e List.mem_cons_self
    have hrest := ih fun x hx => hes x (List.mem_cons_of_mem e hx)
    unfold separate
    simp only [hview, Bool.false_eq_true, if_false]
    cases hfactory : e.views.factoryMutator with
    | true =>
      rw [List.filter_cons_of_pos (by simp [isRegular, hview, hfactory])]
      exact hrest.bind (.pure _)
    | false =>
      rw [List.filter_cons_of_neg (by simp [isRegular, hfactory])]
      exact (record_passes _).bind hrest

theorem runTier_passes : (runTier call v []).Passes w s [] s := by
  have hsort : (Stage.always (v.sort ([] : List (Extension H)))).Passes w s [] s := always rfl rfl
  exact hsort.bind (.bind (.pure ()) (.pure _))

variable (hw : (w.registries.get v.registry).namesFor .definitionMutator true = [])
include hw

theorem collectNow_passes (wanted : ComponentName → Stage H σ Bool) :
    (collectNow call v wanted).Passes w s [] s := by
  have hnames : (Stage.always (v.names .definitionMutator true false)).Passes w s
      ((w.registries.get v.registry).namesFor .definitionMutator true) s := always rfl rfl
  rw [hw] at hnames
  exact hnames.bind (.pure _)

theorem openingTiers_passes {supplied : List (Extension H)}
    (hsupplied : ∀ e ∈ supplied, e.views.definitionMutator = false) :
    (openingTiers call v supplied).Passes w s ([], supplied.filter isRegular)
      (inPhase s .fixedPointTier) := by
  unfold openingTiers
  apply (enter .separatingSupplied).bind
  apply (separate_passes hsupplied).bind
  apply (enter .priorityTier).bind
  apply (collectNow_passes hw (isPriority v)).bind
  apply runTier_passes.bind
  apply (enter .orderedTier).bind
  apply (collectNow_passes hw (isOrdered v)).bind
  apply runTier_passes.bind
  exact (enter .fixedPointTier).bind (.pure _)

/-- There is one round, which finds nothing. -/
theorem fixedPoint_passes (rounds : Nat) :
    (fixedPoint call v (rounds + 1)).Passes w s []
      { s with report := { s.report with rounds := s.report.rounds + 1 } } := by
  have hround : (round call v).Passes w s none
      { s with report := { s.report with rounds := s.report.rounds + 1 } } := by
    unfold round
    apply (modify _).bind
    exact (collectNow_passes hw isNew).bind (.pure _)
  exact hround.bind (.pure _)

theorem mutateDefinitions_passes (rounds : Nat) {supplied : List (Extension H)}
    (hsupplied : ∀ e ∈ supplied, e.views.definitionMutator = false) :
    (mutateDefinitions call v (rounds + 1) supplied).Passes w {}
      ([], supplied.filter isRegular) { report := { phase := .fixedPointTier, rounds := 1 } } :=
  (openingTiers_passes hw hsupplied).bind ((fixedPoint_passes hw rounds).bind (.pure _))

end DefinitionPhase

/-! ## The two runs -/

/-- What a run does first if definitions cannot be changed. -/
def degrade : Stage H σ Unit := do
  Stage.updateReport ({ · with degraded := true })
  Stage.always (Run.record .degraded)

/-- Where definitions cannot be changed, the factory phase is all there is. -/
theorem steps_eq_degrade {call : Call H σ} {v : View} (hv : v.writable = false) (depth : Nat)
    (supplied : List (Extension H)) :
    steps call v depth supplied = degrade >>= fun _ => factoryPhase call v ([], supplied) := by
  unfold steps
  rw [if_neg (by simp [hv])]
  simp only [degrade, factoryPhase, callFactories, pure_bind, bind_assoc]

theorem degrade_passes {w : World H σ} :
    (degrade : Stage H σ Unit).Passes w {} () { report := { degraded := true } } :=
  (modify _).bind (record_passes _)

theorem finish_echoes (r : Except ExtensionError Unit) :
    (finish r : Stage H σ Unit).Echoes (finish r) := by
  cases r with
  | ok _ =>
    apply (Stage.Echoes.enter _).bind
    intro _
    apply get_bind
    intro s s' hs
    exact Stage.Echoes.always (Run.Echoes.record _ _) s s' hs
  | error e =>
    apply get_bind
    intro s s' hs
    refine Stage.Echoes.bind (.enter _) (fun _ => ?_) s s' hs
    exact .always (Run.Echoes.record _ _)

section Invocation

variable {v v' : View} (hv : v'.Forwards v) (hwritable : v.writable = true)
  (hreadOnly : v'.writable = false) {call : Call H σ} (hcall : call.Unaware v v')
  {supplied : List (Extension H)} (hsupplied : ∀ e ∈ supplied, e.views.definitionMutator = false)
  {w : World H σ} (hw : (w.registries.get v.registry).namesFor .definitionMutator true = [])
include hv hwritable hreadOnly hcall hsupplied hw

theorem steps_echo (rounds rounds' : Nat) :
    Option.Rel (Echo fun p p' => p.1 = p'.1 ∧ p.2.DegradesTo p'.2)
      ((steps call v (rounds + 1) supplied).on {} w)
      ((steps call v' rounds' supplied).on {} w) := by
  rw [steps_eq hwritable, steps_eq_degrade hreadOnly]
  apply bind_echo (mutateDefinitions_passes hw rounds hsupplied) degrade_passes
  unfold factoryPhase
  -- the runs come from different phases, and are in the same one from here on
  apply bind_echo (enter .factoryCallbacks) (enter .factoryCallbacks)
  have hrest : (callFactories call v [] >>= fun _ =>
      callFactories call v (supplied.filter isRegular) >>= fun _ =>
        mutateFactory call v >>= fun _ => Stage.always v.clearCache).Echoes
      (callFactories call v' [] >>= fun _ => callFactories call v' supplied >>= fun _ =>
        mutateFactory call v' >>= fun _ => Stage.always v'.clearCache) := by
    apply (callFactories_echoes hv hcall []).bind
    intro _
    apply (callFactories_supplied hv hcall hsupplied).bind
    intro _
    exact (mutateFactory_echoes hv hcall).bind fun _ => .always hv.clearCache
  apply hrest
  exact ⟨rfl, ⟨⟨rfl, rfl⟩, rfl, rfl, ⟨rfl, rfl⟩, ⟨rfl, rfl⟩⟩⟩

theorem invoke_echo (rounds rounds' : Nat) :
    Option.Rel (Echo fun p p' => p.1 = p'.1 ∧ p.2.DegradesTo p'.2)
      (invoke call v (rounds + 1) supplied w) (invoke call v' rounds' supplied w) := by
  refine Run.Echoes.within_at (fun _ _ _ => rfl) ?_
  apply Run.Echoes.bind_at (Run.Echoes.record _ _ w)
  rintro _ _ w₁ j hstarted -
  cases hstarted
  apply Run.Echoes.bind_at
    (steps_echo hv hwritable hreadOnly hcall hsupplied hw rounds rounds')
  rintro ⟨result, s⟩ ⟨_, s'⟩ w₂ _ - ⟨rfl, hs⟩
  apply Run.Echoes.bind_at (finish_echoes result s s' hs w₂)
  rintro ⟨_, s₁⟩ ⟨_, s₁'⟩ w₃ _ - ⟨-, hs₁⟩
  exact .some ⟨⟨rfl, hs₁.report⟩, rfl, rfl⟩

end Invocation

/-- To run the pipeline on a view that does not let definitions be changed comes to the same as to
run it on a view that does, if there is nothing that would change them: no definition mutator is
registered with the registry, and none is supplied. (The callbacks have to be unaware of the
difference: a callback that is given a view makes the same use of either. What the views let happen
apart from changes of definitions is the same, comparators included, and one of them may be the
registry itself.) Both runs end or neither does. If they end, they do so in the same world, with the
same result, and the same callbacks were made in the same order and failed alike. No definition
callback stands in either report, and the same factory callbacks do; the reports differ in nothing
but in that the one run notes an empty round and the other that it was degraded. -/
theorem degraded_agrees {b : Behaviour H σ} {v v' : View} (hv : v'.Forwards v)
    (hwritable : v.writable = true) (hreadOnly : v'.writable = false) (hb : b.Unaware v v')
    {supplied : List (Extension H)} (hsupplied : ∀ e ∈ supplied, e.views.definitionMutator = false)
    {w : World H σ} (hw : (w.registries.get v.registry).namesFor .definitionMutator true = [])
    (depth rounds rounds' : Nat) :
    Option.Rel (Echo fun p p' => p.1 = p'.1 ∧ p.2.DegradesTo p'.2)
      (invoke (b.call depth) v (rounds + 1) supplied w)
      (invoke (b.call depth) v' rounds' supplied w) :=
  invoke_echo hv hwritable hreadOnly (hb.call hv depth) hsupplied hw rounds rounds'

end Pipeline

/-! ### A callback that fails in both runs -/

namespace Scenario

open Program (request)

/-- Factory mutators get hold of the adjuster through the view that they are given. The adjuster
itself then fails. -/
def jamming : Behaviour Scripted Memory
  | .create d _ => do
    let id ← request .fresh
    return .ok
      { id, typeName := d.type.name, value := .unit, listener? := none
        extension? := some (supplied id d.name.text { factoryMutator := true }) }
  | .mutateFactory e v => do
    let _ ← request (.resolve v ⟨"adjuster"⟩)
    return if e.name = "adjuster" then .error (.plain "jammed") else .ok ()
  | .before _ _ i _ | .after _ _ i _ => return .ok i
  | .merged .. | .mutateDefinitions .. => return .ok ()
  | .event .. => return ()

theorem jamming_unaware (v v' : View) : jamming.Unaware v v' where
  create _ := .ask _ fun _ => .pure _
  mutateFactory _ := .resolve _ fun _ => .pure _
  before _ _ _ := .pure _
  after _ _ _ := .pure _

/-- The adjuster is registered. -/
def jammedWorld : World Scripted Memory :=
  (Setup.world {}).setRegistry Setup.base (({} : Registry Scripted).define adjuster.toDefinition)

/-- An extension that has a factory callback, and one that is of no use. -/
def jammedSupplied : List (Extension Scripted) :=
  [supplied 100 "regular" { factoryMutator := true }, supplied 101 "idle" {}]

def jammedRun (v : View) : Option ((Except ExtensionError Unit × Report) ×
    World Scripted Memory × Journal Scripted) :=
  Pipeline.invoke (jamming.call 2) v 1 jammedSupplied jammedWorld

/-- A view that notes every use and does not let definitions be changed. -/
def readOnlyView : View := { registry := Setup.base, observed := true, writable := false }

theorem jammedRun_report :
    (jammedRun (.direct Setup.base)).map (fun p => (p.1.1.isOk, p.1.2)) =
      some (false, { factoryCalls := ["regular"], rounds := 1, phase := .aborted }) := by
  decide +kernel

/-- The supplied extension creates the adjuster, and the adjuster fails, in both runs. -/
theorem jammedRun_agrees : ∃ a r r' w j j',
    jammedRun (.direct Setup.base) = some ((a, r), w, j) ∧
      jammedRun readOnlyView = some ((a, r'), w, j') ∧ a.isOk = false ∧
      r = { factoryCalls := ["regular"], rounds := 1, phase := .aborted } ∧
      r' = { factoryCalls := ["regular"], degraded := true, phase := .aborted } ∧
      Journal.calls j' = Journal.calls j := by
  have hsupplied : ∀ e ∈ jammedSupplied, e.views.definitionMutator = false := by decide
  have hw : (jammedWorld.registries.get Setup.base).namesFor .definitionMutator true = [] := by
    decide +kernel
  have hforwards : readOnlyView.Forwards (.direct Setup.base) := ⟨rfl, rfl⟩
  have hruns : Option.Rel (Echo fun p p' => p.1 = p'.1 ∧ p.2.DegradesTo p'.2)
      (jammedRun (.direct Setup.base)) (jammedRun readOnlyView) :=
    Pipeline.degraded_agrees hforwards rfl rfl (jamming_unaware _ _) hsupplied hw 2 0 1
  obtain ⟨⟨⟨a, r⟩, w, j⟩, hrun, hreport⟩ := Option.map_eq_some_iff.1 jammedRun_report
  rw [hrun] at hruns
  generalize jammedRun readOnlyView = o at hruns ⊢
  cases hruns with
  | @some _ p' hecho =>
    obtain ⟨⟨a', r'⟩, w', j'⟩ := p'
    obtain rfl : a = a' := hecho.answer.1
    obtain rfl : w' = w := hecho.world
    have hr : r.DegradesTo r' := hecho.answer.2
    have hok : a.isOk = false := congrArg Prod.fst hreport
    have hr₁ : r = { factoryCalls := ["regular"], rounds := 1, phase := .aborted } :=
      congrArg Prod.snd hreport
    subst hr₁
    exact ⟨a, _, r', w', j, j', hrun, rfl, hok, rfl, hr.eq, hecho.calls⟩

end Scenario

end Startup
