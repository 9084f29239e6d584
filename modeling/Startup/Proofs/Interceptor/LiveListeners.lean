import Startup.Proofs.Interceptor.Detection
import Startup.Proofs.Interceptor.FinalChain

/-!
Which listener of a component is told of events. The detector offers the listener of every singleton
that is created; the context keeps the first one of each name. A definition that is replaced or
removed takes its singleton out of the cache, but the listener stays with the context.

Main statement: `first_listener_told`. After a registration an event goes to the listeners of the
context, each once, and the listener of a name is that of the first singleton that was created
under it.
-/

namespace Startup

variable {H : Host} {σ : Type}

/-! ## Creations and their listeners -/

/-- The listener of the singleton of `n` whose creation in registry `r` ends at a moment. -/
def Moment.born? (r : ObjectId) (n : ComponentName) : Moment H → Option (Listener H)
  | .closes (.creation r' m d outer chain result) =>
    if r' = r ∧ m = n then (Making.mk m d outer chain result).listener? else none
  | _ => none

/-- The listeners of the singletons that were created under a name, in the order of time. -/
def born (r : ObjectId) (n : ComponentName) (ms : List (Moment H)) : List (Listener H) :=
  ms.filterMap (Moment.born? r n)

/-- The creations that a journal tells of all had the same chain. -/
def Attended (r : ObjectId) (chain : List (Extension H)) (j : Journal H) : Prop :=
  ∀ m : Making H, .opens (m.scope r) ∈ Journal.moments j → m.chain = chain

section Born

variable {r : ObjectId} {n : ComponentName}

theorem born_append (ms ms' : List (Moment H)) :
    born r n (ms ++ ms') = born r n ms ++ born r n ms' := List.filterMap_append

/-- A scope that creates nothing under the name adds nothing. -/
theorem born_scope {s : Scope H} (hs : s.creates? r ≠ some n) (j : Journal H) :
    born r n (Journal.moments [.scope s j]) = born r n (Journal.moments j) := by
  refine Journal.filterMap_moments_scope rfl ?_ j
  cases s with
  | creation r' m d outer chain result =>
    refine if_neg fun h => hs ?_
    rw [Scope.creates?, if_pos h.1, h.2]
  | _ => rfl

theorem born_facts {j : Journal H} (hj : ∀ e ∈ j, ∃ f, e = .fact f) :
    born r n (Journal.moments j) = [] := by
  induction j with
  | nil => rfl
  | cons e rest ih =>
    obtain ⟨⟨f, rfl⟩, hrest⟩ := List.forall_mem_cons.1 hj
    rw [Journal.moments, born_append, ih hrest]
    rfl

/-- A scope that creates a component is the entry of a creation. -/
theorem Scope.making_of_creates {s : Scope H} (hs : s.creates? r = some n) :
    ∃ m : Making H, s = m.scope r ∧ m.name = n := by
  cases s with
  | creation r' k d outer chain result =>
    simp only [Scope.creates?] at hs
    split at hs <;> rename_i hr
    · cases hs
      exact ⟨⟨_, d, outer, chain, result⟩, by rw [hr]; rfl, rfl⟩
    · cases hs
  | _ => cases hs

/-- What has a listener ends a creation of the name. -/
theorem Moment.closes_of_born {x : Moment H} {l : Listener H} (hx : x.born? r n = some l) :
    ∃ m : Making H, x = .closes (m.scope r) ∧ m.name = n ∧ m.listener? = some l := by
  cases x with
  | closes s =>
    cases s with
    | creation r' k d outer chain result =>
      simp only [Moment.born?] at hx
      split at hx <;> rename_i hsame
      · obtain ⟨rfl, rfl⟩ := hsame
        exact ⟨⟨k, d, outer, chain, result⟩, rfl, rfl, hx⟩
      · cases hx
    | _ => cases hx
  | _ => cases hx

end Born

mutual

theorem Event.occurs_of_closes (e : Event H) {s : Scope H} (hs : .closes s ∈ e.moments) :
    ∃ past body, Journal.Occurs (.scope s body) past [e] := by
  cases e with
  | fact f => cases List.mem_singleton.1 hs
  | scope t inner =>
    rw [Event.moments] at hs
    rcases List.mem_cons.1 hs with heq | hs
    · cases heq
    · rcases List.mem_append.1 hs with hinside | hend
      · obtain ⟨past, body, hoccurs⟩ := Journal.occurs_of_closes inner hinside
        exact ⟨_, body, .inside t [] hoccurs⟩
      · cases List.mem_singleton.1 hend
        exact ⟨[], inner, .here []⟩

/-- What ends stands in the journal with all that happened in it. -/
theorem Journal.occurs_of_closes (j : List (Event H)) {s : Scope H}
    (hs : .closes s ∈ Journal.moments j) : ∃ past body, Journal.Occurs (.scope s body) past j := by
  cases j with
  | nil => cases hs
  | cons e rest =>
    rw [Journal.moments] at hs
    rcases List.mem_append.1 hs with hfirst | hlater
    · obtain ⟨past, body, hoccurs⟩ := e.occurs_of_closes hfirst
      exact ⟨past, body, hoccurs.append_right rest⟩
    · obtain ⟨past, body, hoccurs⟩ := Journal.occurs_of_closes rest hlater
      exact ⟨_, body, .later e hoccurs⟩

end

namespace Ledger.Lawful

variable {r : ObjectId} {l : Ledger H} {n : ComponentName} {j : Journal H}

/-- In its own creation no component is created. -/
theorem born_eq_nil (hlaw : l.Lawful r (Journal.moments j)) (hn : n ∈ l.registry.inCreation) :
    born r n (Journal.moments j) = [] := by
  refine List.filterMap_eq_nil_iff.2 fun x hx => Option.eq_none_iff_forall_ne_some.2 fun k hk => ?_
  obtain ⟨m, rfl, rfl, -⟩ := Moment.closes_of_born hk
  obtain ⟨past, body, hoccurs⟩ := Journal.occurs_of_closes j hx
  obtain ⟨future, hsplit⟩ := hoccurs.split
  rw [Event.moments, List.append_assoc, List.cons_append] at hsplit
  obtain ⟨ss, hinside⟩ := Journal.inside_journal j past _ hsplit
  have hstack := (hlaw.inCreation_inside hinside).1
  rw [hsplit, lawful_append] at hlaw
  have hnew := hlaw.2.1.creates_new (if_pos rfl)
  exact hnew (hstack ▸ List.mem_append_left _ hn)

/-- Where nothing is installed, the chain stays. -/
theorem interceptors_of_none {ms : List (Moment H)} (hlaw : l.Lawful r ms)
    (hms : installs r ms = []) :
    (l.after r ms).registry.interceptors = l.registry.interceptors := by
  induction ms generalizing l with
  | nil => rfl
  | cons x ms ih =>
    obtain ⟨hx, hrest⟩ := hlaw
    obtain ⟨hnone, hnones⟩ := List.forall_mem_cons.1 (List.filterMap_eq_nil_iff.1 hms)
    have hstep := (step hx).interceptors
    rw [hnone] at hstep
    rw [after_cons, ih hrest (List.filterMap_eq_nil_iff.2 hnones), hstep]

/-- Where nothing is installed, all creations have the chain that was there in the beginning. -/
theorem attended (hlaw : l.Lawful r (Journal.moments j))
    (hj : installs r (Journal.moments j) = []) : Attended r l.registry.interceptors j := by
  intro m hm
  obtain ⟨past, future, hsplit⟩ := List.append_of_mem hm
  rw [hsplit] at hlaw hj
  rw [installs_append, List.append_eq_nil_iff] at hj
  obtain ⟨hpast, hopens, -⟩ := lawful_append.1 hlaw
  rw [(hopens rfl).2.2.2.2, hpast.interceptors_of_none hj.1]

end Ledger.Lawful

/-! ## What is offered is what was created -/

namespace Detects

variable {r id c : ObjectId} {n : ComponentName} {chain : List (Extension H)}

/-- What a creation offers under the name of its component, and what it brings forth. -/
theorem offered_creation {m : Making H} {body : Journal H} {φ : Marks} {l : Ledger H}
    {around : Option (Scope H)} (h : Detects r id c φ l [.scope (m.scope r) body])
    (hends : Detector.Ends id m.chain)
    (hreserved : Journal.reserved r id c around [.scope (m.scope r) body] = true) :
    offered c m.name (Journal.moments body) =
      born r m.name (Journal.moments [.scope (m.scope r) body]) := by
  have hn : m.name ∈ (l.next r (.opens (m.scope r))).registry.inCreation := by
    rw [(Ledger.step h.opens).inCreation_opens, Making.scope, Scope.creates?, if_pos rfl]
    exact List.mem_append_right _ List.mem_cons_self
  have hend : Moment.born? r m.name (.closes (m.scope r)) = m.listener? := if_pos ⟨rfl, rfl⟩
  rw [h.created (.here []) hends hreserved, Journal.moments_scope, ← List.cons_append,
    born_append, ← List.singleton_append, born_append, h.inside.lawful.born_eq_nil hn]
  show _ = [] ++ [] ++ List.filterMap _ [_]
  cases hl : m.listener? with
  | none => rw [List.filterMap_cons_none (hend.trans hl)]; rfl
  | some k => rw [List.filterMap_cons_some (hend.trans hl)]; rfl

mutual

theorem offered_event (e : Event H) {φ : Marks} {l : Ledger H} {around : Option (Scope H)}
    (hends : Detector.Ends id chain) (h : Detects r id c φ l [e])
    (hchain : Attended r chain [e]) (hreserved : e.reserved r id c around = true)
    (haway : Away r id n around) : offered c n e.moments = born r n e.moments := by
  cases e with
  | fact f => exact List.filterMap_cons_none (haway.offer?_eq_none hreserved)
  | scope s body =>
    obtain ⟨hcalled, hbody⟩ := Journal.reserved_scope.1 hreserved
    have hmoments : Event.moments (.scope s body) = Journal.moments [.scope s body] :=
      (List.append_nil _).symm
    rw [hmoments, offered_scope]
    by_cases hcreates : s.creates? r = some n
    · obtain ⟨m, rfl, rfl⟩ := Scope.making_of_creates hcreates
      have hmade : m.chain = chain := hchain m List.mem_cons_self
      exact h.offered_creation (hmade ▸ hends) (Bool.and_eq_true_iff.2 ⟨hreserved, rfl⟩)
    · rw [born_scope hcreates]
      by_cases hhears : s.hears id = true
      · obtain ⟨hfacts, hoffers⟩ := h.heard_ne hhears (haway.asked?_ne hcalled)
        rw [hoffers, born_facts hfacts]
      · refine offered_eq_born body hends h.inside ?_ hbody ?_
        · intro m hm
          refine hchain m ?_
          rw [Journal.moments_scope]
          exact List.mem_cons_of_mem _ (List.mem_append_left _ hm)
        · rintro t ht
          cases ht
          exact ⟨Bool.eq_false_iff.2 hhears, hcreates⟩

/-- If all creations have a chain that ends with the detector, the listeners that are offered under
a name are those of the singletons that are created. -/
theorem offered_eq_born (j : List (Event H)) {φ : Marks} {l : Ledger H}
    {around : Option (Scope H)} (hends : Detector.Ends id chain) (h : Detects r id c φ l j)
    (hchain : Attended r chain j) (hreserved : Journal.reserved r id c around j = true)
    (haway : Away r id n around) :
    offered c n (Journal.moments j) = born r n (Journal.moments j) := by
  cases j with
  | nil => rfl
  | cons e rest =>
    rw [Journal.reserved, Bool.and_eq_true] at hreserved
    have hfirst : Attended r chain [e] := fun m hm => by
      rw [Journal.moments, Journal.moments, List.append_nil] at hm
      exact hchain m (List.mem_append_left _ hm)
    have hlater : Attended r chain rest := fun m hm => hchain m (List.mem_append_right _ hm)
    rw [Journal.moments, offered_append, born_append,
      offered_event e hends (left (k := rest) h) hfirst hreserved.1 haway,
      offered_eq_born rest hends (right (j := [e]) (k := rest) h) hlater hreserved.2 haway]

end

end Detects

/-! ## Broadcasts -/

/-- The entry of the call by which a listener is told of an event. -/
def Informs (x : ContainerEvent) (l : Listener H) (e : Event H) : Prop :=
  ∃ inner, e = .scope (.call (.event l x) ()) inner

namespace Context

variable {call : Call H σ} {x : ContainerEvent} {w w' : World H σ} {u : Unit} {j : Journal H}

theorem tell_eq_some {ls : List (Listener H)} (h : tell call x ls w = some (u, w', j)) :
    List.Forall₂ (Informs x) ls j := by
  induction ls generalizing w j with
  | nil =>
    obtain ⟨-, -, rfl⟩ := Run.pure_eq_some.1 h
    exact .nil
  | cons l rest ih =>
    obtain ⟨a, w₁, j₁, j₂, hcall, hrest, rfl⟩ := Run.bind_eq_some.1 h
    obtain ⟨inner, -, rfl⟩ := Run.within_eq_some.1 hcall
    exact .cons ⟨inner, rfl⟩ (ih hrest)

/-- A broadcast tells the listeners that are registered when it begins, in order. -/
theorem publish_eq_some {c : ObjectId} (h : publish call c x w = some (u, w', j)) :
    ∃ told, j = [.scope (.publication c x (w.contexts.get c).values) told] ∧
      List.Forall₂ (Informs x) (w.contexts.get c).values told := by
  rw [publish, Run.context, Run.ask_bind] at h
  obtain ⟨told, htell, rfl⟩ := Run.within_eq_some.1 h
  exact ⟨told, rfl, tell_eq_some htell⟩

end Context

/-! ## Runs -/

/-- The first of some values, with one more at the end. -/
theorem or_head?_append_cons {α : Type} (o : Option α) (l k : List α) (a : α) :
    o.or (l ++ a :: k).head? = some ((o.or l.head?).getD a) := by
  cases o with
  | some _ => rfl
  | none => cases l <;> rfl

/-- Any run after a registration, and a broadcast at its end. The context and the detector are used
by nobody else, and no interceptor is installed behind the detector. The event goes to the
listeners of the context in the order in which they were registered, to each of them once. The
listener of a name is the one that it had before, or else that of the first singleton that was
created under it since. So a singleton that was created since is told just if no other listener had
been known under its name: after a redefinition the listener of the first instance is told, and not
that of the instance that took its place in the cache. -/
theorem first_listener_told {α : Type} (b : Behaviour H σ) (depth : Nat) (x : Program H σ α)
    (v : View) (c : ObjectId) (e : ContainerEvent) {call : Call H σ} {w₀ w w' w'' : World H σ}
    {reg : Registration H} {a : α} {u : Unit} {j₀ j k : Journal H}
    (hregistered : (v.registerInterceptors call c).run w₀ = some (.ok reg, w, j₀))
    (hrun : b.run depth x w = some (a, w', j))
    (hlast : installs v.registry (Journal.moments j) = [])
    (hreserved : Journal.reserved v.registry reg.detector.id c none j = true)
    (hpublished : Context.publish (b.call depth) c e w' = some (u, w'', k)) :
    let book := w'.contexts.get c
    (∃ told, k = [.scope (.publication c e book.values) told] ∧
      List.Forall₂ (Informs e) book.values told) ∧
    book.keys.Nodup ∧
    (∀ n, book.get? n =
      ((w.contexts.get c).get? n).or (born v.registry n (Journal.moments j)).head?) ∧
    ∀ n d outer chain i l before since,
      Journal.moments j =
        before ++ .closes (.creation v.registry n d outer chain (.ok i)) :: since →
      d.isSingleton = true → i.listener? = some l →
        book.get? n =
          some ((((w.contexts.get c).get? n).or (born v.registry n before).head?).getD l) := by
  intro book
  obtain ⟨id, hdetector, hseated⟩ := Registration.seated hregistered
  have hid : reg.detector.id = id := by rw [hdetector]; rfl
  rw [hid] at hreserved
  have hheeds : Heeds id c (b.run depth x) := Heeds.program b depth x
  have hdetects := Detects.of_run (Accounts.program (r := v.registry) b depth x) hheeds hrun
    hseated.known hseated.context
  have hbook : ∀ n, book.get? n =
      ((w.contexts.get c).get? n).or (born v.registry n (Journal.moments j)).head? := by
    intro n
    rw [(hheeds w a w' j hrun).books n, hdetects.offered_eq_born j hseated.chain
      (hdetects.lawful.attended hlast) hreserved fun _ hs => nomatch hs]
  refine ⟨Context.publish_eq_some hpublished, book.keys_nodup, hbook, ?_⟩
  intro n d outer chain i l before since hsplit hd hl
  have hborn : Moment.born? v.registry n
      (.closes (.creation v.registry n d outer chain (.ok i))) = some l :=
    (if_pos ⟨rfl, rfl⟩).trans ((if_pos hd).trans hl)
  rw [hbook n, hsplit, born_append]
  show Option.or _ (_ ++ List.filterMap _ _).head? = _
  rw [List.filterMap_cons_some hborn, or_head?_append_cons]

/-! ### A definition that is replaced -/

namespace Scenario

/-- A component that listens. -/
def listenerSpec (name label : String) : DefinitionSpec :=
  .mk name .plain [] .unordered .application .singleton false [] [] (.listener label [])

/-- Create a listener, replace its definition, and create it again. -/
def createReplaced : Program Scripted Memory (Except DependencyError (Instance Scripted)) := do
  let _ ← Program.request (.register Setup.base (listenerSpec "n" "old").toDefinition)
  let _ ← Program.request (.resolve (.direct Setup.base) ⟨"n"⟩)
  let _ ← Program.request (.register Setup.base (listenerSpec "n" "new").toDefinition)
  Program.request (.resolve (.direct Setup.base) ⟨"n"⟩)

/-- The listeners that are told of an event, by their objects. -/
def informedObjects (j : Journal Scripted) : List ObjectId :=
  (Journal.moments j).filterMap fun
    | .opens (.call (.event l _) _) => some l.id
    | _ => none

/-- The listener of the singleton of a name. -/
def liveListener (w : World Scripted Memory) (n : String) : Option ObjectId :=
  ((w.registries.get Setup.base).singletons.get? ⟨n⟩).bind fun i => i.listener?.map (·.id)

/-- What is to be seen of a listener that was created and replaced after a registration. -/
structure Replacement where
  detector : Option ObjectId
  /-- What is installed behind the detector. -/
  installed : List ObjectId
  reserved : Bool
  /-- The listeners of all singletons that were created. -/
  created : List ObjectId
  /-- The listener of the singleton in the cache. -/
  live : Option ObjectId
  informed : List ObjectId
  deriving DecidableEq

/-- A finished run in a scenario. -/
abbrev Finished (α : Type) := α × World Scripted Memory × Journal Scripted

/-- A registration, what is created after it, and a broadcast. -/
def replacementRun : Option (Finished (Except ExtensionError (Registration Scripted)) ×
    Finished (Except DependencyError (Instance Scripted)) × Finished Unit) :=
  (registeringIn (Setup.world {})).bind fun p =>
    (behaviour.run 3 createReplaced p.2.1).bind fun q =>
      (Context.publish (behaviour.call 3) Setup.context .closed q.2.1).map fun s => (p, q, s)

/-- What is to be seen of such a run. -/
def Replacement.of (reg? : Option (Registration Scripted)) (w : World Scripted Memory)
    (j k : Journal Scripted) : Replacement where
  detector := reg?.map (·.detector.id)
  installed := (installs Setup.base (Journal.moments j)).map (·.id)
  reserved := reg?.any fun reg =>
    Journal.reserved Setup.base reg.detector.id Setup.context none j
  created := (born Setup.base ⟨"n"⟩ (Journal.moments j)).map (·.id)
  live := liveListener w "n"
  informed := informedObjects k

theorem replacement_report :
    replacementRun.map (fun t => Replacement.of t.1.1.toOption t.2.1.2.1 t.2.1.2.2 t.2.2.2.2) =
      some { detector := some 3, installed := [], reserved := true, created := [4, 5],
             live := some 5, informed := [4] } := by
  decide +kernel

/-- The run, taken apart. -/
theorem replacementRun_eq_some : ∃ reg w j₀ a w' j w'' k,
    registeringIn (Setup.world {}) = some (.ok reg, w, j₀) ∧
    behaviour.run 3 createReplaced w = some (a, w', j) ∧
    Context.publish (behaviour.call 3) Setup.context .closed w' = some ((), w'', k) ∧
    Replacement.of (some reg) w' j k =
      { detector := some 3, installed := [], reserved := true, created := [4, 5],
        live := some 5, informed := [4] } := by
  obtain ⟨⟨⟨result, w, j₀⟩, ⟨a, w', j⟩, ⟨u, w'', k⟩⟩, hrun, hreport⟩ :=
    Option.map_eq_some_iff.1 replacement_report
  obtain ⟨p, hregistered, hrest⟩ := Option.bind_eq_some_iff.1 hrun
  obtain ⟨q, hcreated, hpublished⟩ := Option.bind_eq_some_iff.1 hrest
  obtain ⟨s, htold, heq⟩ := Option.map_eq_some_iff.1 hpublished
  cases heq
  cases result with
  | error x =>
    cases congrArg Replacement.detector hreport
  | ok reg => exact ⟨reg, w, j₀, a, w', j, w'', k, hregistered, hcreated, htold, hreport⟩

/-- The listener of the first definition is registered. -/
theorem replacementRun_first_told : ∃ reg w j₀ a w' j w'' k,
    registeringIn (Setup.world {}) = some (.ok reg, w, j₀) ∧
    behaviour.run 3 createReplaced w = some (a, w', j) ∧
    Context.publish (behaviour.call 3) Setup.context .closed w' = some ((), w'', k) ∧
    (∃ told, k = [.scope (.publication Setup.context .closed
      (w'.contexts.get Setup.context).values) told] ∧
      List.Forall₂ (Informs .closed) (w'.contexts.get Setup.context).values told) ∧
    ∀ n, (w'.contexts.get Setup.context).get? n = ((w.contexts.get Setup.context).get? n).or
      (born Setup.base n (Journal.moments j)).head? := by
  obtain ⟨reg, w, j₀, a, w', j, w'', k, hregistered, hcreated, hpublished, hreport⟩ :=
    replacementRun_eq_some
  have hlast : installs Setup.base (Journal.moments j) = [] :=
    List.map_eq_nil_iff.1 (congrArg Replacement.installed hreport)
  have hreserved : Journal.reserved Setup.base reg.detector.id Setup.context none j = true :=
    congrArg Replacement.reserved hreport
  obtain ⟨htold, -, hbook, -⟩ := first_listener_told behaviour 3 createReplaced
    (.direct Setup.base) Setup.context .closed hregistered hcreated hlast hreserved hpublished
  exact ⟨reg, w, j₀, a, w', j, w'', k, hregistered, hcreated, hpublished, htold, hbook⟩

/-- The singleton that replaced another one is in the cache and listens. It is not told; the one
that it replaced is. -/
theorem live_listener_not_told : ∃ reg w j₀ a w' j w'' k i l,
    registeringIn (Setup.world {}) = some (.ok reg, w, j₀) ∧
    behaviour.run 3 createReplaced w = some (a, w', j) ∧
    Context.publish (behaviour.call 3) Setup.context .closed w' = some ((), w'', k) ∧
    ((w.registries.get Setup.base).singletons.get? ⟨"n"⟩ = none) ∧
    (w'.registries.get Setup.base).singletons.get? ⟨"n"⟩ = some i ∧ i.listener? = some l ∧
    l.id = 5 ∧ informedObjects k = [4] := by
  obtain ⟨reg, w, j₀, a, w', j, w'', k, hregistered, hcreated, hpublished, hreport⟩ :=
    replacementRun_eq_some
  have hlive : liveListener w' "n" = some 5 := congrArg Replacement.live hreport
  obtain ⟨i, hi, hlistener⟩ := Option.bind_eq_some_iff.1 hlive
  obtain ⟨l, hl, hid⟩ := Option.map_eq_some_iff.1 hlistener
  have hnone : (registeringIn (Setup.world {})).map
      (fun p => ((p.2.1.registries.get Setup.base).singletons.get? ⟨"n"⟩).isNone) = some true := by
    decide +kernel
  rw [hregistered] at hnone
  exact ⟨reg, w, j₀, a, w', j, w'', k, i, l, hregistered, hcreated, hpublished,
    Option.isNone_iff_eq_none.1 (Option.some.inj hnone), hi, hl, hid,
    congrArg Replacement.informed hreport⟩

end Scenario

end Startup
