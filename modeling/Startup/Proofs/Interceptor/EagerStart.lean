import Startup.Proofs.Interceptor.StartEvent
import Startup.Proofs.Registry.Chain
import Startup.Proofs.Registry.Coherent
import Startup.Proofs.Registry.Queries

/-!
The singletons that a start-up creates ahead of use. After the interceptors are registered, all
singletons that are defined and not lazy are resolved, in the order of registration. Some of them
exist by then, others are created on behalf of those that come earlier.

Main statement: `start_covers_eager`. If a start-up succeeds and no callback installs interceptors,
every creation of that step is under the chain that the registration left, all of whose members it
calls before and after initialization; each name is resolved, in order and with success, and has its
singleton in the end, unless its definition was changed since.
-/

namespace Startup

variable {H : Host} {σ : Type}

/-! ## Resolutions one after the other -/

namespace View

variable {call : Call H σ} {v : View} {w w' : World H σ} {j : Journal H}

/-- The entry of a resolution that succeeded. -/
def Answers (v : View) (n : ComponentName) (e : Event H) : Prop :=
  ∃ i body, e = .scope (.resolution v n (.ok i)) body

theorem resolveAll_eq_ok {names : List ComponentName}
    (h : (v.resolveAll call names).run w = some (.ok (), w', j)) :
    List.Forall₂ v.Answers names j := by
  induction names generalizing w j with
  | nil =>
    obtain ⟨-, -, rfl⟩ := Run.pure_eq_some.1 h
    exact .nil
  | cons n rest ih =>
    obtain ⟨i, w₁, j₁, j₂, hresolve, hrest, rfl⟩ := Attempt.bind_eq_ok h
    obtain ⟨body, -, rfl⟩ := Run.within_eq_some.1 hresolve
    exact .cons ⟨i, body, rfl⟩ (ih hrest)

theorem resolveAll_delegates (v : View) (names : List ComponentName) :
    Run.Delegates (v.resolveAll call names).run := by
  induction names with
  | nil => exact Attempt.delegates_pure (.ok ())
  | cons n rest ih => exact Attempt.delegates_bind (v.resolve_delegates n) fun _ => ih

/-- A preinstantiation that succeeds resolves the names that are listed when it begins. -/
theorem preinstantiate_eq_ok (h : (v.preinstantiate call).run w = some (.ok (), w', j)) :
    ∃ body,
      ((direct v.registry).resolveAll call (w.registries.get v.registry).eagerNames).run w =
        some (.ok (), w', body) ∧
      j = [.fact (.preinstantiating (w.registries.get v.registry).eagerNames.length),
        .scope (.preinstantiation v.registry (w.registries.get v.registry).eagerNames none)
          body] := by
  rw [preinstantiate_run, Run.ask_bind] at h
  obtain ⟨_, w₁, j₁, j₂, hnote, hall, rfl⟩ := Run.bind_eq_some.1 h
  cases hnote
  rw [Attempt.within, Attempt.run_of] at hall
  obtain ⟨body, hbody, rfl⟩ := Run.within_eq_some.1 hall
  exact ⟨body, hbody, rfl⟩

end View

/-- In a journal with one entry for each name, there is that of a given name. -/
theorem Journal.occurs_of_forall₂ {R : ComponentName → Event H → Prop}
    {names : List ComponentName} {j : Journal H} {n : ComponentName} (h : List.Forall₂ R names j)
    (hn : n ∈ names) : ∃ e past, R n e ∧ Occurs e past j := by
  induction h with
  | nil => cases hn
  | @cons k e names j he _ ih =>
    rcases List.mem_cons.1 hn with rfl | hn
    · exact ⟨e, [], he, .here j⟩
    · obtain ⟨e', past, he', hoccurs⟩ := ih hn
      exact ⟨e', e.moments ++ past, he', .later e hoccurs⟩

/-! ## What a resolution leaves in the cache -/

namespace Ledger

variable {r : ObjectId} {l : Ledger H} {n : ComponentName} {i : Instance H}

/-- After a resolution that succeeded there is a singleton, if the definition is that of a
singleton. -/
theorem Resolves.cached {v : View} {d : Definition H} {body : Journal H}
    (h : l.Resolves r v n (.ok i) body) (hl : l.registry.Coherent) (hv : v.registry = r)
    (hlaw : l.Lawful r (Event.moments (.scope (.resolution v n (.ok i)) body)))
    (hd : l.registry.definitions.get? n = some d) (hsingle : d.isSingleton = true) :
    (l.after r (Event.moments (.scope (.resolution v n (.ok i)) body))).registry.singletons.get?
      n = some i := by
  have hcase := h
  cases h with
  | found hi ha =>
    cases ha
    show (l.next r (.opens (.resolution v n (.ok i)))).registry.singletons.get? n = some i
    rw [next_resolution, if_pos hv, Registry.prepare_of_some hi]
    exact hi
  | unknown _ _ ha | circular _ _ _ ha => cases ha
  | created _ hlook =>
    rw [hl.lookup n, hd] at hlook
    cases hlook
    exact hcase.answer_kept hlaw hsingle

end Ledger

/-! ## The step of a start-up -/

/-- What the creation of the singletons is, if the registry is `s` when it begins: `names` are the
names that are resolved, `step` is what happens, and `since` is what comes after it. -/
structure Covered (r : ObjectId) (s : Registry H) (names : List ComponentName)
    (step since : Journal H) : Prop where
  /-- The names are those of the definitions of singletons that are not lazy, in order. -/
  order : names.Sublist s.definitions.keys
  eager : ∀ n, n ∈ names ↔
    ∃ d, s.definitions.get? n = some d ∧ d.isSingleton = true ∧ d.isLazy = false
  resolved : List.Forall₂ (View.direct r).Answers names step
  /-- Each creation is under the chain of the beginning. One that succeeds has shown the definition
  to those that care, made the instance and handed it along the whole chain, twice. -/
  created : ∀ past n d outer chain result body,
    Journal.Occurs (.scope (.creation r n d outer chain result) body) past step →
      chain = s.interceptors ∧
      ∀ i, result = .ok i →
        Creation.Performed r n d ((s.interceptors.filter (·.views.mergeAware)).map .merged ++
          .create :: (s.interceptors.map .before ++ s.interceptors.map .after)) none body
            (.ok (some i))
  /-- In the end there is a singleton of each name whose definition has not been changed. -/
  cached : ∀ n ∈ names, Unrevised r n (Journal.moments (step ++ since)) →
    ∃ i, ((Ledger.of s).after r (Journal.moments (step ++ since))).registry.singletons.get? n =
      some i

/-- To resolve the eager names of a registry covers them. -/
theorem covered_of_resolveAll {call : Call H σ} {r : ObjectId} {w w' : World H σ}
    {step since : Journal H} (hc : Closed call (fun {α} (x : Run H σ α) => Accounts r x))
    (hrun : ((View.direct r).resolveAll call (w.registries.get r).eagerNames).run w =
      some (.ok (), w', step))
    (hlaw : (Ledger.of (w.registries.get r)).Lawful r (Journal.moments (step ++ since)))
    (hchain : (w.registries.get r).Intercepting) (hcoherent : (w.registries.get r).Coherent)
    (hquiet : installs r (Journal.called step) = []) :
    Covered r (w.registries.get r) (w.registries.get r).eagerNames step since := by
  have hresolved := View.resolveAll_eq_ok hrun
  have htells := (hc.resolveAll (.direct r) _).tells (.of (w.registries.get r)) _ _ _ _ hrun rfl
  have hstep := hlaw
  rw [Journal.moments_append, Ledger.lawful_append] at hstep
  have hnone := (View.resolveAll_delegates _ _ _ _ _ _ hrun).installs hquiet
  refine ⟨Registry.eagerNames_sublist _, fun n => Registry.mem_eagerNames_iff, hresolved, ?_, ?_⟩
  · intro past n d outer chain result body hoccurs
    have hopens := ((hstep.1.at_entry hoccurs).2.1 rfl).2.2.2.2
    have hpast : installs r past = [] := by
      obtain ⟨future, hsplit⟩ := hoccurs.split
      rw [hsplit, List.append_assoc, installs_append] at hnone
      exact (List.append_eq_nil_iff.1 hnone).1
    rw [(hstep.1.at_entry hoccurs).1.interceptors_of_none hpast] at hopens
    refine ⟨hopens, ?_⟩
    rintro i rfl
    have hturns := htells past _ body hoccurs rfl
    rw [hopens] at hturns
    rw [← Creation.turns_of_interceptors hchain]
    exact hturns
  · intro n hn hunrevised
    obtain ⟨e, past, ⟨i, body, rfl⟩, hoccurs⟩ := Journal.occurs_of_forall₂ hresolved hn
    obtain ⟨d, hd, hsingle, -⟩ := Registry.mem_eagerNames_iff.1 hn
    have hresolves := htells past _ body hoccurs rfl
    obtain ⟨hpast, hentry⟩ := hstep.1.at_entry hoccurs
    obtain ⟨future, hsplit⟩ := hoccurs.split
    rw [Journal.moments_append, hsplit, List.append_assoc, List.append_assoc] at hunrevised hlaw ⊢
    obtain ⟨hbefore, hafter⟩ := unrevised_append.1 hunrevised
    have hdefined : ((Ledger.of (w.registries.get r)).after r past).registry.definitions.get? n =
        some d := (Ledger.get?_after hbefore).trans hd
    have hcached := hresolves.cached (hcoherent.after hpast) rfl hentry hdefined hsingle
    -- nothing that comes after the resolution evicts the singleton
    have hrest := (Ledger.lawful_append.1 (Ledger.lawful_append.1 hlaw).2).2
    have hkept := hrest.keeps (fun m hm hevicts =>
      (unrevised_append.1 hafter).2 m hm hevicts.revises) hcached
    rw [Ledger.after_append, Ledger.after_append]
    exact ⟨i, hkept.1⟩

/-- A start-up that creates singletons ahead of use resolves their names. -/
theorem Container.populate_eq_ok {call : Call H σ} {v : View} {settings : StartSettings}
    {w w' : World H σ} {j : Journal H}
    (h : (Container.populate call v settings).run w = some (.ok (), w', j))
    (hpreinstantiate : settings.preinstantiate = true) :
    ∃ body,
      ((View.direct v.registry).resolveAll call (w.registries.get v.registry).eagerNames).run w =
        some (.ok (), w', body) ∧
      j = [.fact (.preinstantiating (w.registries.get v.registry).eagerNames.length),
        .scope (.preinstantiation v.registry (w.registries.get v.registry).eagerNames none)
          body] := by
  rw [Container.populate, if_pos hpreinstantiate] at h
  exact View.preinstantiate_eq_ok (Attempt.blame_eq_ok h)

/-- A start-up that creates singletons ahead of use. (A registry that was empty once is coherent,
and all members of its chain are interceptors.) If the start-up succeeds, and no interceptor is
installed inside of a callback, then the step in which singletons are created covers those that are
defined and not lazy when it begins, whoever has registered them: with the chain that the
registration of the interceptors has left, each one in the order of registration, and for good as
far as no definition is changed in this step or while the listeners are told. -/
theorem start_covers_eager (b : Behaviour H σ) (depth : Nat) (v : View) (settings : StartSettings)
    (supplied : List (Extension H)) {w w' : World H σ} {box : Container H} {j : Journal H}
    (hrun : (Container.start (b.call depth) v depth settings supplied).run w =
      some (.ok box, w', j))
    (hpreinstantiate : settings.preinstantiate = true)
    (hchain : (w.registries.get v.registry).Intercepting)
    (hcoherent : (w.registries.get v.registry).Coherent)
    (hquiet : installs v.registry (Journal.called j) = []) :
    ∃ mutating registering step telling : Journal H,
      let before := mutating ++ [.scope (.registration v box.context none) registering]
      let s := ((Ledger.of (w.registries.get v.registry)).after v.registry
        (Journal.moments before)).registry
      j = [.scope (.bootstrap v none) (.fact .bootstrapStarted :: (before ++
        .fact (.preinstantiating s.eagerNames.length) ::
        .scope (.preinstantiation v.registry s.eagerNames none) step ::
        (telling ++ [.fact .bootstrapDone])))] ∧
      ((Ledger.of s).after v.registry (Journal.moments (step ++ telling))).registry =
        w'.registries.get v.registry ∧
      Covered v.registry s s.eagerNames step telling := by
  obtain ⟨w₁, preparing, telling, hprepare, htell, rfl⟩ := Container.start_steps hrun
  obtain ⟨report, u₁, u₂, mutating, registering, populating, hmutate, hregister, hpopulate, -,
    rfl⟩ := Container.prepare_eq_ok hprepare
  obtain ⟨step, hstep, rfl⟩ := Container.populate_eq_ok hpopulate hpreinstantiate
  have haccounts := Accounts.behaviour (r := v.registry) b depth
  have hrounds := haccounts.fixedPoint v (fun _ => Accounts.exceeded) depth
  have hmutated := (haccounts.mutate v hrounds supplied).tracks
    (.of (w.registries.get v.registry)) _ _ _ _ hmutate rfl
  have hbefore := hmutated.append ((haccounts.registerInterceptors v box.context).tracks _ _ _ _ _
    hregister hmutated.registry)
  have hresolved := (haccounts.resolveAll (.direct v.registry) _).tracks
    (.of (u₂.registries.get v.registry)) _ _ _ _ hstep rfl
  have hsince := hresolved.append ((haccounts.announcement settings box).tracks _ _ _ _ _ htell
    hresolved.registry)
  have hall := hbefore.lawful.intercepting hchain
  have hremembered := hcoherent.after hbefore.lawful
  rw [hbefore.registry] at hall hremembered
  have hcalled : installs v.registry (Journal.called step) = [] := by
    simp only [Journal.called, Event.called, Scope.isCall, Journal.called_append, installs_append,
      List.append_eq_nil_iff, Bool.false_eq_true, if_false] at hquiet
    obtain ⟨⟨-, ⟨-, -, -, hcalled, -⟩, -⟩, -⟩ := hquiet
    exact hcalled
  refine ⟨mutating, registering, step, telling, ?_⟩
  intro before s
  have hs : s = u₂.registries.get v.registry := hbefore.registry
  clear_value s
  subst hs
  refine ⟨?_, hsince.registry,
    covered_of_resolveAll haccounts hstep hsince.lawful hall hremembered hcalled⟩
  simp [before]

/-! ### A dependency that a mutator has registered -/

namespace Scenario

/-- The component `late`, which is defined by the mutator, is created on behalf of `x`. -/
def eagerWorld : World Scripted Memory :=
  let registering := Step.mk {} (.perform .quiet (.register (wired .singleton "late" [])))
  let mutator := extensionSpec "m" .definitionMutator .unordered { definitionMutator := true }
    [registering]
  let watcher := extensionSpec "i" .lifecycleInterceptor .unordered { interceptor := true } []
  (Setup.world {}).setRegistry Setup.base
    ((((({} : Registry Scripted).define mutator.toDefinition).define
      (wired .singleton "x" ["late"]).toDefinition).define watcher.toDefinition).define
        (wired .transient "t" []).toDefinition)

/-- Start a container on that registry. -/
def eagerRun : Option (Finished (Except InfrastructureError (Container Scripted))) :=
  (Container.start (behaviour.call 3) (.direct Setup.base) 3 {} []).run eagerWorld

/-- What a start-up leaves: the names of the singletons, those of the interceptors, and those of the
interceptors that were installed inside of callbacks. -/
def leftovers (p : Finished (Except InfrastructureError (Container Scripted))) :
    Bool × List String × List String × List String :=
  (p.1.isOk, (p.2.1.registries.get Setup.base).singletons.keys.map (·.text), chainNames p.2.1,
    (installs Setup.base (Journal.called p.2.2)).map (·.name))

theorem leftovers_eagerRun :
    eagerRun.map leftovers = some (true, ["m", "i", "late", "x"],
      ["eligibility-checker", "i", "inner-component-listener-detector"], []) := by
  decide +kernel

theorem eagerWorld_coherent :
    (eagerWorld.registries.get Setup.base).Intercepting ∧
      (eagerWorld.registries.get Setup.base).Coherent :=
  ⟨fun _ he => (by cases he), fun _ _ hd => (by cases hd)⟩

/-- All components that are defined and eager are covered, also the one that came late. -/
theorem eagerRun_covered : ∃ box w' j, eagerRun = some (.ok box, w', j) ∧
    (w'.registries.get Setup.base).singletons.keys.map (·.text) = ["m", "i", "late", "x"] ∧
    ∃ mutating registering step telling : Journal Scripted,
      let before := mutating ++ [.scope (.registration (.direct Setup.base) box.context none)
        registering]
      let s := ((Ledger.of (eagerWorld.registries.get Setup.base)).after Setup.base
        (Journal.moments before)).registry
      j = [.scope (.bootstrap (.direct Setup.base) none) (.fact .bootstrapStarted :: (before ++
        .fact (.preinstantiating s.eagerNames.length) ::
        .scope (.preinstantiation Setup.base s.eagerNames none) step ::
        (telling ++ [.fact .bootstrapDone])))] ∧
      ((Ledger.of s).after Setup.base (Journal.moments (step ++ telling))).registry =
        w'.registries.get Setup.base ∧
      Covered Setup.base s s.eagerNames step telling := by
  obtain ⟨⟨result, w', j⟩, hrun, hleft⟩ := Option.map_eq_some_iff.1 leftovers_eagerRun
  simp only [leftovers, Prod.mk.injEq, List.map_eq_nil_iff] at hleft
  obtain ⟨hok, hsingletons, -, hquiet⟩ := hleft
  obtain ⟨hchain, hcoherent⟩ := eagerWorld_coherent
  cases result with
  | error e => cases hok
  | ok box =>
    exact ⟨box, w', j, hrun, hsingletons, start_covers_eager behaviour 3 (.direct Setup.base) {} []
      hrun rfl hchain hcoherent hquiet⟩

end Scenario

end Startup
