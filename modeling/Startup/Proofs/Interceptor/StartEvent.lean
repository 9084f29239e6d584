import Startup.Proofs.Interceptor.LiveListeners
import Startup.Proofs.Registry.Identity

/-!
Who learns that the start-up is complete. A start-up runs the mutators, registers the interceptors,
creates the singletons, and then tells the listeners. The detector comes into the chain as the last
interceptor: the singletons that were created by then, for the mutators or as interceptors or on
behalf of these, are no concern of it.

Main statement: `start_told`. The event goes once to each listener of the new context. A singleton
in the cache was created before the detector was installed, or else the detector was asked in its
creation, and it is told, provided that the interceptors behind the detector have kept the listener
and that none had been known under its name.
-/

namespace Startup

variable {H : Host} {σ : Type}

/-! ## Chains with the detector -/

/-- What is in a chain stays there, wherever others come to stand, unless something else is
installed as the same object. -/
theorem Ledger.Lawful.mem_after {r : ObjectId} {l : Ledger H} {ms : List (Moment H)}
    {e : Extension H} (hlaw : l.Lawful r ms) (hdistinct : Distinct l.registry.interceptors)
    (he : e ∈ l.registry.interceptors) (hgenuine : ∀ x ∈ installs r ms, x.id = e.id → x = e) :
    e ∈ (l.after r ms).registry.interceptors := by
  obtain ⟨x, hx, hid⟩ := exists_mem_keepLast (List.mem_append_left (installs r ms) he)
  have hsame : x = e := by
    rcases List.mem_append.1 (mem_of_mem_keepLast hx) with hold | hnew
    · have hfilter : x ∈ l.registry.interceptors.filter (fun y => y.id = e.id) :=
        List.mem_filter.2 ⟨hold, decide_eq_true hid⟩
      rw [hdistinct.filter_id he] at hfilter
      exact List.mem_singleton.1 hfilter
    · exact hgenuine x hnew hid
  rw [hlaw.chain hdistinct]
  exact hsame ▸ hx

namespace Detects

variable {r id c : ObjectId} {φ : Marks} {l : Ledger H} {j body : Journal H}
  {past : List (Moment H)} {m : Making H}

/-- A creation is under the chain that is there when it begins. -/
theorem chain_eq (h : Detects r id c φ l j)
    (hoccurs : Journal.Occurs (.scope (m.scope r) body) past j) :
    m.chain = (l.after r past).registry.interceptors :=
  ((h.at_entry hoccurs).opens rfl).2.2.2.2

/-- As long as nothing is installed behind the detector, it ends the chain of every creation. -/
theorem chain_ends (h : Detects r id c φ l j)
    (hoccurs : Journal.Occurs (.scope (m.scope r) body) past j)
    (hends : Detector.Ends id l.registry.interceptors) (hpast : installs r past = []) :
    Detector.Ends id m.chain := by
  rw [h.chain_eq hoccurs, (h.lawful.at_entry hoccurs).1.interceptors_of_none hpast]
  exact hends

/-- Whatever is installed, the detector is in the chain of every creation. -/
theorem chain_among (h : Detects r id c φ l j)
    (hoccurs : Journal.Occurs (.scope (m.scope r) body) past j)
    (hdistinct : Distinct l.registry.interceptors)
    (hends : Detector.Ends id l.registry.interceptors)
    (hgenuine : ∀ x ∈ installs r past, x.id = id → x = Detector.extension id) :
    Detector.Among id m.chain := by
  obtain ⟨pre, hchain, -⟩ := hends
  have hpast := (h.lawful.at_entry hoccurs).1
  have hin : Detector.extension id ∈ l.registry.interceptors := by
    rw [hchain]
    exact List.mem_append_right _ List.mem_cons_self
  rw [h.chain_eq hoccurs]
  exact .of_mem (hpast.distinct hdistinct) (hpast.mem_after hdistinct hin hgenuine)

/-- In the creation of a singleton the detector is asked about some instance. If that has a listener
and none was offered under the name so far, then it is the first one. -/
theorem first_offer {i : Instance H} {around : Option (Scope H)}
    (h : Detects r id c φ l j)
    (hreserved : Journal.reserved r id c around j = true)
    (hoccurs : Journal.Occurs (.scope (m.scope r) body) past j)
    (hchain : Detector.Among id m.chain) (hmade : m.result = .ok i)
    (hsingle : m.definition.isSingleton = true) :
    ∃ p, Asks r id m body p ∧ (Detector.Ends id m.chain → p = i) ∧
      (offered c m.name past = [] → ∀ k, p.listener? = some k →
        (offered c m.name (Journal.moments j)).head? = some k) := by
  obtain ⟨p, hasks, hlast, hoffers⟩ := h.attended hoccurs hchain hreserved hmade
  refine ⟨p, hasks, hlast, fun hnone k hk => ?_⟩
  have hentry : offered c m.name (Event.moments (.scope (m.scope r) body)) = [k] := by
    rw [← List.append_nil (Event.moments _)]
    refine (offered_scope c m.name _ body).trans (hoffers.trans ?_)
    rw [if_pos hsingle, hk]
    rfl
  obtain ⟨future, hsplit⟩ := hoccurs.split
  rw [hsplit, offered_append, offered_append, hnone, hentry]
  rfl

end Detects

/-! ## Singletons that were created -/

/-- A singleton that is there in the end came from a creation, if there was none in the beginning
and none is put in by hand. -/
theorem Ledger.Lawful.made {r : ObjectId} {s : Registry H} {ms : List (Moment H)}
    (hlaw : (Ledger.of s).Lawful r ms) (hempty : s.singletons = ∅)
    (hkept : ∀ n i, .fact (.instanceKept r n i) ∉ ms) {n : ComponentName} {i : Instance H}
    (hi : ((Ledger.of s).after r ms).registry.singletons.get? n = some i) :
    ∃ m : Making H, m.name = n ∧ m.definition.isSingleton = true ∧ m.result = .ok i ∧
      .closes (m.scope r) ∈ ms := by
  rcases hlaw.gained hi with ⟨hold, -⟩ | ⟨before, x, since, rfl, hgains, -⟩
  · have hnone : s.singletons.get? n = some i := hold
    rw [hempty] at hnone
    cases hnone
  · have hx : x ∈ before ++ x :: since := List.mem_append_right _ List.mem_cons_self
    cases hgains with
    | byHand => exact absurd hx (hkept n i)
    | @made d outer chain hd => exact ⟨⟨n, d, outer, chain, .ok i⟩, rfl, hd, rfl, hx⟩

/-! ## The steps of a start-up -/

namespace Container

variable {call : Call H σ} {v : View} {depth : Nat} {settings : StartSettings}
  {supplied : List (Extension H)} {w w' : World H σ} {box : Container H} {j : Journal H}

/-- The steps of a start-up that succeeds: the mutators, the registration, the singletons. -/
theorem prepare_eq_ok
    (h : (prepare call v depth settings supplied).run w = some (.ok box, w', j)) :
    ∃ report w₁ w₂ mutating registering populating,
      (mutate call v depth supplied).run w = some (.ok report, w₁, mutating) ∧
      (v.registerInterceptors call box.context).run { w₁ with next := w₁.next + 1 } =
        some (.ok box.registration, w₂,
          [.scope (.registration v box.context none) registering]) ∧
      (populate call v settings).run w₂ = some (.ok (), w', populating) ∧
      box.context = w₁.next ∧
      j = mutating ++ .scope (.registration v box.context none) registering :: populating := by
  obtain ⟨report, w₁, j₁, k₁, hmutate, h₁, rfl⟩ := Attempt.bind_eq_ok h
  obtain ⟨_, w₂, j₂, k₂, hcontext, h₂, rfl⟩ := Attempt.always_bind_eq_some.1 h₁
  cases hcontext
  obtain ⟨reg, w₃, j₃, k₃, hregister, h₃, rfl⟩ := Attempt.bind_eq_ok h₂
  obtain ⟨_, w₄, j₄, k₄, hpopulate, hpure, rfl⟩ := Attempt.bind_eq_ok h₃
  cases hpure
  have hregistered := Attempt.blame_eq_ok hregister
  obtain ⟨body, -, rfl⟩ := Registration.registerInterceptors_eq_some hregistered
  exact ⟨report, w₁, w₃, j₁, _, j₄, hmutate, hregistered, hpopulate, rfl,
    by rw [List.append_nil]; rfl⟩

/-- A start-up that succeeds is prepared and then announced, if that is wanted. -/
theorem start_steps
    (h : (start call v depth settings supplied).run w = some (.ok box, w', j)) :
    ∃ (w₁ : World H σ) (preparing telling : Journal H),
      (prepare call v depth settings supplied).run w = some (.ok box, w₁, preparing) ∧
      announce call settings box w₁ = some ((), w', telling) ∧
      j = [.scope (.bootstrap v none) (.fact .bootstrapStarted :: (preparing ++ (telling ++
        [.fact .bootstrapDone])))] := by
  rw [start, Attempt.within, Attempt.run_of] at h
  obtain ⟨j', hbody, rfl⟩ := Run.within_eq_some.1 h
  obtain ⟨_, w₁, j₁, k₁, hstarted, h₁, rfl⟩ := Run.bind_eq_some.1 hbody
  cases hstarted
  obtain ⟨result, w₂, j₂, k₂, hsteps, h₂, rfl⟩ := Run.bind_eq_some.1 h₁
  obtain ⟨_, w₃, j₃, k₃, hnoted, hpure, rfl⟩ := Run.bind_eq_some.1 h₂
  cases hpure
  cases hnoted
  obtain ⟨made, w₄, j₄, k₄, hprepare, h₄, rfl⟩ := Attempt.bind_eq_ok hsteps
  obtain ⟨_, w₅, j₅, k₅, htell, h₅, rfl⟩ := Attempt.always_bind_eq_some.1 h₄
  obtain ⟨_, w₆, j₆, k₆, hdone, hend, rfl⟩ := Attempt.always_bind_eq_some.1 h₅
  cases hdone
  cases hend
  exact ⟨w₄, j₄, j₅, hprepare, htell, by simp only [List.append_nil]; rfl⟩

theorem start_eq_ok
    (h : (start call v depth settings supplied).run w = some (.ok box, w', j))
    (hannounce : settings.announce = true) :
    ∃ (w₁ : World H σ) (preparing told : Journal H) (count : Nat),
      (prepare call v depth settings supplied).run w = some (.ok box, w₁, preparing) ∧
      List.Forall₂ (Informs (.refreshed count)) (w₁.contexts.get box.context).values told ∧
      j = [.scope (.bootstrap v none) (.fact .bootstrapStarted :: (preparing ++
        [.scope (.publication box.context (.refreshed count) (w₁.contexts.get box.context).values)
          told, .fact .bootstrapDone]))] := by
  obtain ⟨w₁, preparing, telling, hprepare, htell, rfl⟩ := start_steps h
  rw [announce, if_pos hannounce, Run.ask_bind] at htell
  obtain ⟨told, rfl, hinforms⟩ := Context.publish_eq_some htell
  exact ⟨w₁, preparing, told, _, hprepare, hinforms, rfl⟩

/-- A start-up that is prepared. After the registration the detector is in its place, and what comes
then tells of it. The context is a new one and has the listeners that were offered to it. -/
theorem prepare_seated (b : Behaviour H σ)
    (h : (prepare (b.call depth) v depth settings supplied).run w = some (.ok box, w', j)) :
    ∃ (id : ObjectId) (seen : World H σ) (mutating registering populating : Journal H),
      let before := mutating ++ [.scope (.registration v box.context none) registering]
      let l := Ledger.of (w.registries.get v.registry)
      j = before ++ populating ∧ box.registration.detector = Detector.extension id ∧
      l.Lawful v.registry (Journal.moments j) ∧
      (l.after v.registry (Journal.moments before)).registry = seen.registries.get v.registry ∧
      Detector.Ends id (seen.registries.get v.registry).interceptors ∧
      Detects v.registry id box.context (seen.marks id) (.of (seen.registries.get v.registry))
        populating ∧
      w.next ≤ box.context ∧ Books box.context w w' j := by
  obtain ⟨report, w₁, w₂, mutating, registering, populating, hmutate, hregister, hpopulate,
    hcontext, rfl⟩ := prepare_eq_ok h
  obtain ⟨id, hdetector, hseated⟩ := Registration.seated hregister
  have haccounts := Accounts.behaviour (r := v.registry) b depth
  have hrounds := haccounts.fixedPoint v (fun _ => Accounts.exceeded) depth
  have hheeds : Closed (b.call depth) (fun {α} (x : Run H σ α) => Heeds id box.context x) :=
    Heeds.behaviour b depth
  have hheeded := hheeds.fixedPoint v (fun _ => Heeds.exceeded) depth
  have hlaw := ((haccounts.prepare v hrounds settings supplied).tracks
    (.of (w.registries.get v.registry)) _ _ _ _ h rfl).lawful
  have hmutated := ((haccounts.mutate v hrounds supplied).tracks
    (.of (w.registries.get v.registry)) _ _ _ _ hmutate rfl).registry
  have hregistered := ((haccounts.registerInterceptors v box.context).tracks _ _ _ _ _ hregister
    hmutated).registry
  rw [← Ledger.after_append, ← Journal.moments_append] at hregistered
  refine ⟨id, w₂, mutating, registering, populating, ?_, hdetector, hlaw, hregistered,
    hseated.chain, ?_, ?_, ?_⟩
  · rw [List.append_assoc, List.singleton_append]
  · exact .of_run (haccounts.populate v settings) (hheeds.populate v settings) hpopulate
      hseated.known hseated.context
  · rw [hcontext]
    exact (hheeds.mutate v hheeded supplied _ _ _ _ hmutate).next
  · exact (hheeds.prepare v hheeded settings supplied _ _ _ _ h).books

/-- What is known of the listeners when the event goes out. The start-up ended with `box` and found
the registry in the state `s`; `before` goes as far as the registration of the interceptors, `since`
is what came after it, and `book` has the listeners of the context. -/
structure Announced (r : ObjectId) (s : Registry H) (box : Container H) (before since : Journal H)
    (book : Context H) : Prop where
  names : book.keys.Nodup
  /-- A name has a listener that was offered under it, if there was one. -/
  known : ∀ n, (∀ l, book.get? n = some l →
      l ∈ offered box.context n (Journal.moments (before ++ since))) ∧
    (book.get? n = none → offered box.context n (Journal.moments (before ++ since)) = [])
  /-- A singleton in the cache was created in the start-up. If that was after the registration, the
  detector was asked about an instance in the course of it, which is the singleton itself as long as
  nothing is installed behind the detector. If the singleton has the listener of that instance, and
  none had been offered under the name by then, its listener is the one that is told. -/
  cached : ∀ n i,
    ((Ledger.of s).after r (Journal.moments (before ++ since))).registry.singletons.get? n =
        some i →
      ∃ m : Making H, m.name = n ∧ m.definition.isSingleton = true ∧ m.result = .ok i ∧
        (.closes (m.scope r) ∈ Journal.moments before ∨
          ∃ past body, Journal.Occurs (.scope (m.scope r) body) past since ∧
            ∃ p, Detects.Asks r box.registration.detector.id m body p ∧
              (installs r past = [] → p = i) ∧
              (i.listener? = p.listener? →
                offered box.context n (Journal.moments before ++ past) = [] →
                  ∀ l, i.listener? = some l → book.get? n = some l))

/-- The listeners that a prepared start-up has registered, and the singletons that it left. -/
theorem prepare_announced (b : Behaviour H σ) {around : Option (Scope H)}
    (h : (prepare (b.call depth) v depth settings supplied).run w = some (.ok box, w', j))
    (hempty : (w.registries.get v.registry).singletons = ∅)
    (hchain : (w.registries.get v.registry).interceptors = [])
    (hnew : ∀ c, w.next ≤ c → w.contexts.get c = ∅)
    (hkept : ∀ n i, .fact (.instanceKept v.registry n i) ∉ Journal.moments j)
    (hgenuine : ∀ e ∈ installs v.registry (Journal.moments j),
      e.id = box.registration.detector.id → e = box.registration.detector)
    (hreserved :
      Journal.reserved v.registry box.registration.detector.id box.context around j = true) :
    ∃ mutating registering since : Journal H,
      let before := mutating ++ [.scope (.registration v box.context none) registering]
      j = before ++ since ∧
      box.Announced v.registry (w.registries.get v.registry) before since
        (w'.contexts.get box.context) := by
  obtain ⟨id, seen, mutating, registering, since, rfl, hdetector, hlaw, hseen, hends, hdetects,
    hnewer, hbooks⟩ := prepare_seated b h
  refine ⟨mutating, registering, since, rfl, ?_⟩
  generalize mutating ++ [.scope (.registration v box.context none) registering] = before at *
  have hid : box.registration.detector.id = id := by rw [hdetector]; rfl
  have hafter : Journal.reserved v.registry id box.context around since = true :=
    hid ▸ (Journal.reserved_append.1 hreserved).2
  have hdistinct : Distinct (seen.registries.get v.registry).interceptors := by
    rw [Journal.moments_append, Ledger.lawful_append] at hlaw
    rw [← hseen]
    refine hlaw.1.distinct ?_
    show Distinct (w.registries.get v.registry).interceptors
    rw [hchain]
    exact List.Pairwise.nil
  have hfirst : ∀ n, (w'.contexts.get box.context).get? n =
      (offered box.context n (Journal.moments (before ++ since))).head? := by
    intro n
    rw [hbooks n, hnew box.context hnewer]
    rfl
  refine ⟨OrderedMap.keys_nodup _, fun n => ⟨fun l hl => ?_, fun hnone => ?_⟩, ?_⟩
  · rw [hfirst n] at hl
    exact List.mem_of_mem_head? hl
  · rw [hfirst n] at hnone
    exact List.head?_eq_none_iff.1 hnone
  · intro n i hi
    obtain ⟨m, rfl, hsingle, hmade, hcloses⟩ := hlaw.made hempty hkept hi
    refine ⟨m, rfl, hsingle, hmade, ?_⟩
    rw [Journal.moments_append] at hcloses
    rcases List.mem_append.1 hcloses with hbefore | hsince
    · exact .inl hbefore
    · obtain ⟨past, body, hoccurs⟩ := Journal.occurs_of_closes since hsince
      have hamong : Detector.Among id m.chain := by
        refine hdetects.chain_among hoccurs hdistinct hends fun x hx hxid => ?_
        rw [← hdetector]
        refine hgenuine x ?_ (hid ▸ hxid)
        rw [Journal.moments_append, installs_append]
        exact List.mem_append_right _ (hoccurs.installs_subset v.registry hx)
      obtain ⟨p, hasks, hlast, hoffer⟩ :=
        hdetects.first_offer hafter hoccurs hamong hmade hsingle
      refine .inr ⟨past, body, hoccurs, p, hid ▸ hasks, fun hpast => ?_, fun hsame hnone l hl => ?_⟩
      · exact hlast (hdetects.chain_ends hoccurs hends hpast)
      · rw [offered_append, List.append_eq_nil_iff] at hnone
        rw [hfirst, Journal.moments_append, offered_append, hnone.1, List.nil_append]
        exact hoffer hnone.2 l (hsame ▸ hl)

end Container

/-- The event at the end of a start-up. The registry has no singletons and no interceptors in the
beginning, and contexts that are still to come have no listeners; nobody puts a singleton in by
hand, the new context and the detector are used by nobody else, and nothing else is installed as the
same object as the detector. If the start-up succeeds, the event goes to the listeners of the
context in the order in which they were registered, to each of them once; every name under which
listeners were offered has one of them. Each singleton in the cache was created in the start-up.
Those that were there before the detector was installed are not promised anything: they were created
for the mutators or as interceptors, or on behalf of these. In the creation of each of the others
the detector was asked, whatever had been installed behind it, and the singleton is told if it has
the listener that the detector saw and if none had been known under its name. -/
theorem start_told (b : Behaviour H σ) (depth : Nat) (v : View) (settings : StartSettings)
    (supplied : List (Extension H)) {w w' : World H σ} {box : Container H} {j : Journal H}
    (hrun : (Container.start (b.call depth) v depth settings supplied).run w =
      some (.ok box, w', j))
    (hannounce : settings.announce = true)
    (hempty : (w.registries.get v.registry).singletons = ∅)
    (hchain : (w.registries.get v.registry).interceptors = [])
    (hnew : ∀ c, w.next ≤ c → w.contexts.get c = ∅)
    (hkept : ∀ n i, .fact (.instanceKept v.registry n i) ∉ Journal.moments j)
    (hgenuine : ∀ e ∈ installs v.registry (Journal.moments j),
      e.id = box.registration.detector.id → e = box.registration.detector)
    (hreserved :
      Journal.reserved v.registry box.registration.detector.id box.context none j = true) :
    ∃ (mutating registering since told : Journal H) (count : Nat) (book : Context H),
      let before := mutating ++ [.scope (.registration v box.context none) registering]
      j = [.scope (.bootstrap v none) (.fact .bootstrapStarted :: (before ++ since ++
        [.scope (.publication box.context (.refreshed count) book.values) told,
          .fact .bootstrapDone]))] ∧
      List.Forall₂ (Informs (.refreshed count)) book.values told ∧
      box.Announced v.registry (w.registries.get v.registry) before since book := by
  obtain ⟨w₁, preparing, told, count, hprepare, hinforms, rfl⟩ :=
    Container.start_eq_ok hrun hannounce
  have hpart (rest : Journal H) : Journal.moments preparing ⊆
      Journal.moments [.scope (.bootstrap v none) (.fact .bootstrapStarted :: (preparing ++ rest))]
      := by
    intro x hx
    rw [Journal.moments_scope, Journal.moments, Journal.moments_append]
    exact List.mem_cons_of_mem _ (List.mem_append_left _
      (List.mem_append_right _ (List.mem_append_left _ hx)))
  have hinstalls : ∀ e ∈ installs v.registry (Journal.moments preparing),
      e.id = box.registration.detector.id → e = box.registration.detector :=
    fun e he => hgenuine e (List.filterMap_subset _ (hpart _) he)
  have hbody := (Journal.reserved_scope.1 (Bool.and_eq_true_iff.1 hreserved).1).2
  have hprepared := (Journal.reserved_append.1 (Bool.and_eq_true_iff.1 hbody).2).1
  obtain ⟨mutating, registering, since, rfl, hannounced⟩ :=
    Container.prepare_announced b hprepare hempty hchain hnew
      (fun n i hmem => hkept n i (hpart _ hmem)) hinstalls hprepared
  exact ⟨mutating, registering, since, told, count, w₁.contexts.get box.context, rfl, hinforms,
    hannounced⟩

/-! ### A mutator that listens, and interceptors behind the detector -/

namespace Scenario

/-- A definition mutator that listens, too. -/
def listeningMutator : DefinitionSpec :=
  .mk "m" .extension [.definitionMutator] .unordered .application .singleton false [] []
    (.extension "m" .unordered { definitionMutator := true } true [] [] [] [] [] [])

/-- A registry with that mutator and a component that listens. -/
def listeningWorld : World Scripted Memory :=
  (Setup.world {}).setRegistry Setup.base
    ((({} : Registry Scripted).define listeningMutator.toDefinition).define
      (listenerSpec "n" "n").toDefinition)

/-- A component whose factory installs an interceptor that leaves instances alone. -/
def extending : DefinitionSpec :=
  .mk "x" .plain [] .unordered .application .singleton false []
    [.mk {} (.perform .quiet (.install (.made (.minimal "late" { interceptor := true }))))]
    (.plain "x")

/-- The same with that component between the two, so that the listener is created when another
interceptor stands behind the detector. -/
def extendedWorld : World Scripted Memory :=
  (Setup.world {}).setRegistry Setup.base
    (((({} : Registry Scripted).define listeningMutator.toDefinition).define
      extending.toDefinition).define (listenerSpec "n" "n").toDefinition)

/-- Start a container in a world. -/
def startingIn (w : World Scripted Memory) :
    Option (Finished (Except InfrastructureError (Container Scripted))) :=
  (Container.start (behaviour.call 3) (.direct Setup.base) 3 {} []).run w

/-- The same up to the announcement. -/
def preparingIn (w : World Scripted Memory) :
    Option (Finished (Except InfrastructureError (Container Scripted))) :=
  (Container.prepare (behaviour.call 3) (.direct Setup.base) 3 {} []).run w

/-- The names under which singletons were put in by hand. -/
def keptByHand (j : Journal Scripted) : List ComponentName :=
  (Journal.moments j).filterMap fun
    | .fact (.instanceKept _ n _) => some n
    | _ => none

theorem not_kept_of_keptByHand {j : Journal Scripted} (h : keptByHand j = []) (r : ObjectId)
    (n : ComponentName) (i : Instance Scripted) :
    .fact (.instanceKept r n i) ∉ Journal.moments j :=
  fun hmem => nomatch List.filterMap_eq_nil_iff.1 h _ hmem

/-- Whether an extension is a detector in all but its identity. -/
def looksDetecting (e : Extension Scripted) : Bool :=
  e.name == Detector.extensionName && e.tier == .unordered &&
    e.views == { interceptor := true, mergeAware := true } && e.body matches .detector

theorem eq_of_looksDetecting {e : Extension Scripted} (h : looksDetecting e = true) :
    e = Detector.extension e.id := by
  obtain ⟨id, name, tier, views, body⟩ := e
  cases body with
  | detector =>
    simp only [looksDetecting, Bool.and_eq_true, beq_iff_eq] at h
    obtain ⟨⟨⟨rfl, rfl⟩, rfl⟩, -⟩ := h
    rfl
  | _ => simp [looksDetecting] at h

/-- What is to be seen of a start-up. -/
structure Opening where
  reserved : Bool
  /-- Whatever is installed as the detector is the detector. -/
  genuine : Bool
  kept : List ComponentName
  /-- The chain in the end. -/
  chain : List String
  /-- The listener of the singleton "n". -/
  live : Option ObjectId
  informed : List ObjectId
  deriving DecidableEq

def Opening.of (box : Container Scripted) (w : World Scripted Memory) (j : Journal Scripted) :
    Opening where
  reserved := Journal.reserved Setup.base box.registration.detector.id box.context none j
  genuine := looksDetecting box.registration.detector &&
    (installs Setup.base (Journal.moments j)).all fun e =>
      e.id != box.registration.detector.id || looksDetecting e
  kept := keptByHand j
  chain := chainNames w
  live := liveListener w "n"
  informed := informedObjects j

theorem Opening.eq_detector {box : Container Scripted} {w : World Scripted Memory}
    {j : Journal Scripted} (h : (Opening.of box w j).genuine = true) :
    ∀ e ∈ installs Setup.base (Journal.moments j),
      e.id = box.registration.detector.id → e = box.registration.detector := by
  intro e he hid
  obtain ⟨hdetector, hall⟩ := Bool.and_eq_true_iff.1 h
  have hlooks : looksDetecting e = true := by simpa [hid] using List.all_eq_true.1 hall e he
  rw [eq_of_looksDetecting hlooks, hid, ← eq_of_looksDetecting hdetector]

/-- A start-up that is as it is seen. -/
def OpensAs (w : World Scripted Memory) (o : Opening) : Prop :=
  ∃ box w' j, startingIn w = some (.ok box, w', j) ∧ Opening.of box w' j = o

theorem opensAs_of_report {w : World Scripted Memory} {o : Opening}
    (h : (startingIn w).map (fun p => p.1.toOption.map fun box => Opening.of box p.2.1 p.2.2) =
      some (some o)) : OpensAs w o := by
  obtain ⟨⟨result, w', j⟩, hrun, hreport⟩ := Option.map_eq_some_iff.1 h
  cases result with
  | error x => cases hreport
  | ok box => exact ⟨box, w', j, hrun, Option.some.inj hreport⟩

/-- The listener that is created behind the detector and another interceptor is told, and nobody
else. -/
theorem startingRun_told : ∃ box w' j, startingIn extendedWorld = some (.ok box, w', j) ∧
    chainNames w' = ["eligibility-checker", "inner-component-listener-detector", "late"] ∧
    liveListener w' "n" = some 8 ∧ informedObjects j = [8] ∧
    ∃ (mutating registering since told : Journal Scripted) (count : Nat) (book : Context Scripted),
      let before := mutating ++ [.scope (.registration (.direct Setup.base) box.context none)
        registering]
      j = [.scope (.bootstrap (.direct Setup.base) none) (.fact .bootstrapStarted ::
        (before ++ since ++ [.scope (.publication box.context (.refreshed count) book.values) told,
          .fact .bootstrapDone]))] ∧
      List.Forall₂ (Informs (.refreshed count)) book.values told ∧
      box.Announced Setup.base (extendedWorld.registries.get Setup.base) before since book := by
  obtain ⟨box, w', j, hrun, hreport⟩ : OpensAs extendedWorld
      { reserved := true, genuine := true, kept := [], live := some 8, informed := [8]
        chain := ["eligibility-checker", "inner-component-listener-detector", "late"] } :=
    opensAs_of_report (by decide +kernel)
  exact ⟨box, w', j, hrun, congrArg Opening.chain hreport, congrArg Opening.live hreport,
    congrArg Opening.informed hreport,
    start_told behaviour 3 (.direct Setup.base) {} [] hrun rfl rfl rfl (fun _ _ => rfl)
      (not_kept_of_keptByHand (congrArg Opening.kept hreport) Setup.base)
      (Opening.eq_detector (congrArg Opening.genuine hreport))
      (congrArg Opening.reserved hreport)⟩

/-- A component whose factory installs an interceptor that puts another listener in the place of the
one that is created under the name "n". -/
def swapping : DefinitionSpec :=
  .mk "x" .plain [] .unordered .application .singleton false []
    [.mk {} (.perform .quiet (.install (.made (.extension "late" .unordered { interceptor := true }
      false [] [] [] [.mk { only? := some ["n"] } (.swap (.listener "n" []))] [] []))))]
    (.plain "x")

def swappingWorld : World Scripted Memory :=
  (Setup.world {}).setRegistry Setup.base
    ((({} : Registry Scripted).define swapping.toDefinition).define
      (listenerSpec "n" "n").toDefinition)

/-- A start-up in a world succeeds and leaves a singleton in the cache that listens and is not
told. -/
def LeavesUntold (w : World Scripted Memory) (name : String) : Prop :=
  ∃ box w₁ w' preparing j i l,
    ({} : StartSettings).announce = true ∧
    (w.registries.get Setup.base).singletons = ∅ ∧
    (w.registries.get Setup.base).interceptors = [] ∧
    preparingIn w = some (.ok box, w₁, preparing) ∧
    startingIn w = some (.ok box, w', j) ∧
    (∀ n k, .fact (.instanceKept Setup.base n k) ∉ Journal.moments j) ∧
    (w₁.registries.get Setup.base).singletons.get? ⟨name⟩ = some i ∧ i.listener? = some l ∧
    l.id ∉ informedObjects j

theorem leavesUntold_of_report {w : World Scripted Memory} {name : String} {o : Opening}
    {k : ObjectId} (hempty : (w.registries.get Setup.base).singletons = ∅)
    (hchain : (w.registries.get Setup.base).interceptors = []) (hopens : OpensAs w o)
    (hkept : o.kept = [])
    (hlive : (preparingIn w).map (fun p => liveListener p.2.1 name) = some (some k))
    (huntold : k ∉ o.informed) : LeavesUntold w name := by
  obtain ⟨box, w', j, hrun, rfl⟩ := hopens
  obtain ⟨w₁, preparing, -, -, hprepare, -⟩ := Container.start_eq_ok hrun rfl
  rw [preparingIn, hprepare] at hlive
  obtain ⟨i, hi, hlistener⟩ := Option.bind_eq_some_iff.1 (Option.some.inj hlive)
  obtain ⟨l, hl, rfl⟩ := Option.map_eq_some_iff.1 hlistener
  exact ⟨box, w₁, w', preparing, j, i, l, rfl, hempty, hchain, hprepare, hrun,
    not_kept_of_keptByHand hkept Setup.base, hi, hl, huntold⟩

/-- Who is not told although it is in the cache and listens when the event goes out: a mutator that
was created before the detector was installed, and a component that got another listener from an
interceptor behind the detector. -/
theorem cached_listener_not_told :
    LeavesUntold listeningWorld "m" ∧ LeavesUntold swappingWorld "n" := by
  constructor
  · exact leavesUntold_of_report (k := 2) rfl rfl (opensAs_of_report (o :=
      { reserved := true, genuine := true, kept := [], live := some 6, informed := [6]
        chain := ["eligibility-checker", "inner-component-listener-detector"] })
      (by decide +kernel)) rfl (by decide +kernel) (by decide)
  · exact leavesUntold_of_report (k := 8) rfl rfl (opensAs_of_report (o :=
      { reserved := true, genuine := true, kept := [], live := some 8, informed := [7]
        chain := ["eligibility-checker", "inner-component-listener-detector", "late"] })
      (by decide +kernel)) rfl (by decide +kernel) (by decide)

end Scenario

end Startup
