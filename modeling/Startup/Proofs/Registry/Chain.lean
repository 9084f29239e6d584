import Startup.Proofs.Registry.Identity

/-!
The interceptors of one creation. The chain of a registry may change at any time, also while a
component is being created: a callback may install an interceptor or move one to the end, and it
may create other components, under whatever chain there is by then.

Main statement: `creation_one_chain`. Every creation calls the chain that was installed when it
began, and the factory, in one fixed order, and hands the instance along; where a call fails it is
the last one, the error names it, and the creation adds nothing to the singletons.
-/

namespace Startup

variable {H : Host} {σ : Type}

/-- All members of the chain are interceptors. -/
def Registry.Intercepting (s : Registry H) : Prop :=
  ∀ e ∈ s.interceptors, e.views.interceptor = true

/-- To install an interceptor adds no other kind of extension. -/
theorem Registry.Intercepting.install {s : Registry H} (h : s.Intercepting) {e : Extension H}
    (he : e.views.interceptor = true) : (s.install e).Intercepting := by
  intro x hx
  rcases List.mem_append.1 hx with hold | hnew
  · exact h x (List.mem_filter.1 hold).1
  · rw [List.mem_singleton.1 hnew]
    exact he

namespace Ledger

variable {r : ObjectId} {l : Ledger H}

/-- The chain changes only where an interceptor is installed. -/
theorem Step.intercepting {m : Moment H} {s : Registry H} (h : l.Step r m s)
    (hl : l.registry.Intercepting) : s.Intercepting := by
  cases h with
  | installed e position he => exact hl.install he
  | resolution =>
    rw [Registry.Intercepting, Registry.interceptors_prepare]
    exact hl
  | ended =>
    rw [Registry.Intercepting, Registry.interceptors_conclude]
    exact hl
  | _ => exact hl

/-- Nothing but interceptors ever gets into a chain. -/
theorem Lawful.intercepting {ms : List (Moment H)} (hlaw : l.Lawful r ms)
    (h : l.registry.Intercepting) : (l.after r ms).registry.Intercepting := by
  induction ms generalizing l with
  | nil => exact h
  | cons m ms ih =>
    obtain ⟨hm, hrest⟩ := hlaw
    exact ih hrest ((step hm).intercepting h)

/-- The end of a creation that failed adds nothing to the singletons. -/
theorem Lawful.singletons_failed {n : ComponentName} {d : Definition H}
    {outer : List ComponentName} {chain : List (Extension H)} {e : DependencyError}
    {body : Journal H}
    (hlaw : l.Lawful r (Event.moments
      (.scope (.creation r n d outer chain (.error e)) body))) :
    (l.after r (Event.moments
      (.scope (.creation r n d outer chain (.error e)) body))).registry.singletons =
        (l.after r (.opens (.creation r n d outer chain (.error e)) ::
          Journal.moments body)).registry.singletons := by
  rw [Event.moments, ← List.cons_append, lawful_append] at hlaw
  rw [Event.moments, ← List.cons_append, after_append, after_single,
    next_closes_creation hlaw.2.1]
  exact Registry.singletons_conclude (.inr rfl)

/-- A resolution that creates its component fails just when the creation does, with its error. -/
theorem Resolves.error_iff {v : View} {n : ComponentName} {d : Definition H}
    {outer : List ComponentName} {chain : List (Extension H)}
    {answer result : Except DependencyError (Instance H)} {inner : Journal H}
    (h : l.Resolves r v n answer [.scope (.creation r n d outer chain result) inner])
    (e : DependencyError) : answer = .error e ↔ result = .error e := by
  cases h with
  | created _ _ _ _ ha =>
    rw [ha]
    exact Registry.conclude_eq_error

end Ledger

/-! ## Runs -/

/-- The creations of any registry in any run, if its chain consists of interceptors before it.
Whatever the callbacks of a creation do to the chain, and whatever else they create: the creation
makes the turns of the chain that was installed when it began, with the definition it began with,
and nothing else. If it succeeds it has made all of them. If it fails, the turn that was made last
has failed; the error names the component and the culprit, nothing is added to the singletons, and
whoever asked for the component is given that error. -/
theorem creation_one_chain {α : Type} (b : Behaviour H σ) (depth : Nat) (x : Program H σ α)
    (r : ObjectId) {w w' : World H σ} {a : α} {j : Journal H}
    (hchain : (w.registries.get r).Intercepting) (hrun : b.run depth x w = some (a, w', j)) :
    let ledger := fun past => (Ledger.of (w.registries.get r)).after r past
    (ledger (Journal.moments j)).registry = w'.registries.get r ∧
      (∀ past n d outer chain result body,
        Journal.Occurs (.scope (.creation r n d outer chain result) body) past j →
          chain = (ledger past).registry.interceptors ∧
          (ledger past).registry.merged.get? n = some d ∧
          Creation.turns chain = (chain.filter (·.views.mergeAware)).map .merged ++
            .create :: (chain.map .before ++ chain.map .after) ∧
          Creation.Performed r n d (Creation.turns chain) none body (result.map some) ∧
          (∀ i, result = .ok i → body.length = (Creation.turns chain).length) ∧
          ∀ e, result = .error e →
            (∃ done t rest i made entry f, Creation.turns chain = done ++ t :: rest ∧
              body = made ++ [entry] ∧ made.length = done.length ∧
              Creation.Performed r n d done none made (.ok i) ∧
              t.Leaves r n d i entry (.error f) ∧ e = t.blame n f) ∧
            (ledger (past ++ Event.moments
              (.scope (.creation r n d outer chain result) body))).registry.singletons =
                (ledger (past ++ .opens (.creation r n d outer chain result) ::
                  Journal.moments body)).registry.singletons) ∧
      ∀ past v n d outer chain answer result body,
        Journal.Occurs (.scope (.resolution v n answer)
          [.scope (.creation r n d outer chain result) body]) past j → v.registry = r →
            ∀ e, answer = .error e ↔ result = .error e := by
  intro ledger
  obtain ⟨hlaw, hregistry, htells⟩ := Ledger.of_run b depth x r hrun
  refine ⟨hregistry, fun past n d outer chain result body hoccurs => ?_,
    fun past v n d outer chain answer result body hoccurs hv =>
      (htells past _ _ hoccurs hv).error_iff⟩
  have hturns := htells past _ _ hoccurs rfl
  obtain ⟨hpast, hentry⟩ := hlaw.at_entry hoccurs
  obtain ⟨hmerged, -, -, -, rfl⟩ := hentry.1 rfl
  have hall : (ledger past).registry.Intercepting := hpast.intercepting hchain
  refine ⟨rfl, hmerged, Creation.turns_of_interceptors hall, hturns, ?_, ?_⟩
  · rintro i rfl
    exact hturns.length_of_ok
  · rintro e rfl
    obtain ⟨done, t, rest, i, made, entry, f, hplan, hbody, hdone, ht, he⟩ :=
      hturns.split_of_error
    refine ⟨⟨done, t, rest, i, made, entry, f, hplan, hbody, hdone.length_of_ok, hdone, ht, he⟩,
      ?_⟩
    simp only [ledger, Ledger.after_append]
    exact hentry.singletons_failed

/-! ### A chain that grows during a creation -/

namespace Scenario

/-- An interceptor with a script that is run before initialization. -/
def interceptor (name : String) (before : List Step) : InstanceSpec :=
  .extension name .unordered { interceptor := true } false [] [] before [] [] []

/-- Create a component under an interceptor that installs another one and then fails. -/
def createFailing : Program Scripted Memory (Except DependencyError (Instance Scripted)) := do
  let late := Step.mk {} (.perform .quiet (.install (.made (interceptor "late" []))))
  let early := interceptor "early" [late, .mk {} (.fail "no")]
  let _ ← (Act.perform (.direct Setup.base) (.install (.made early))).run
  let _ ← Program.request (.register Setup.base (labelled "it" []).toDefinition)
  Program.request (.resolve (.direct Setup.base) ⟨"a"⟩)

/-- The names of the interceptors of a registry. -/
def chainNames (w : World Scripted Memory) : List String :=
  (w.registries.get Setup.base).interceptors.map (·.name)

/-- The chain is longer after the creation, which failed under the interceptor that it began with;
so did every creation of that run. -/
theorem createFailing_one_chain :
    ∃ p, behaviour.run 3 createFailing (Setup.world {}) = some p ∧ p.1.isOk = false ∧
      chainNames p.2.1 = ["early", "late"] ∧
      ∀ past n d outer chain result body,
        Journal.Occurs (.scope (.creation Setup.base n d outer chain result) body) past p.2.2 →
          Creation.Performed Setup.base n d
            ((chain.filter (·.views.mergeAware)).map .merged ++
              .create :: (chain.map .before ++ chain.map .after)) none body (result.map some) := by
  have hfailed : (behaviour.run 3 createFailing (Setup.world {})).map
      (fun p => (p.1.isOk, chainNames p.2.1)) = some (false, ["early", "late"]) := by
    decide +kernel
  obtain ⟨⟨a, w', j⟩, hrun, heq⟩ := Option.map_eq_some_iff.1 hfailed
  obtain ⟨hanswer, hnames⟩ := Prod.mk.inj heq
  obtain ⟨-, hcreations, -⟩ :=
    creation_one_chain behaviour 3 createFailing Setup.base (fun e he => by cases he) hrun
  refine ⟨(a, w', j), hrun, hanswer, hnames, fun past n d outer chain result body hoccurs => ?_⟩
  obtain ⟨-, -, hturns, hperformed, -⟩ := hcreations past n d outer chain result body hoccurs
  rw [← hturns]
  exact hperformed

end Scenario

end Startup
