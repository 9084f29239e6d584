import Startup.Proofs.Lockstep.Views
import Startup.Proofs.Registry.Queries
import Startup.Proofs.Registry.Search

/-!
Singletons that are created ahead of use. They are created in the order in which their definitions
were registered, and in each creation the search goes on from where the last one left the
singletons. So the order decides which component is created for the sake of which other one, and
how often those are created that are no singletons. But it does not decide whether the creation
succeeds, nor what is kept in the end: both are read off the graph of the definitions, which has no
order.

Main statement: `preinstantiation_decides`.
-/

namespace Startup

open Relation (ReflTransGen TransGen)

variable {H : Host} {σ : Type}

/-! ## Plans -/

/-- Definitions under names that are distinct and not blank, and what the factory of each of them
resolves. The order of the definitions has no meaning. -/
structure Plan (H : Host) where
  definitions : List (Definition H)
  deps : ComponentName → List ComponentName
  distinct : (definitions.map (·.name)).Nodup
  named : ∀ d ∈ definitions, d.name.isBlank = false

namespace Plan

variable (p : Plan H)

def Defines (n : ComponentName) : Prop := ∃ d ∈ p.definitions, d.name = n

def DefinesSingleton (n : ComponentName) : Prop :=
  ∃ d ∈ p.definitions, d.name = n ∧ d.isSingleton = true

/-- To create `n` one needs `m`. -/
def DependsOn (n m : ComponentName) : Prop := p.Defines n ∧ m ∈ p.deps n

/-- A name that is needed for a singleton that is not lazy, or the name of such a singleton. -/
def Reaches (n : ComponentName) : Prop :=
  ∃ d ∈ p.definitions, d.isSingleton = true ∧ d.isLazy = false ∧
    ReflTransGen p.DependsOn d.name n

end Plan

/-! ## Registries that hold a plan -/

namespace Registry

/-- A registry that has got these definitions, and nothing else so far. -/
structure Holds (s : Registry H) (ds : List (Definition H)) : Prop where
  get?_iff : ∀ n d, s.definitions.get? n = some d ↔ d ∈ ds ∧ d.name = n
  uncached : s.singletons = ∅
  unobserved : s.interceptors = []
  idle : s.inCreation = []
  coherent : s.Coherent

namespace Holds

variable {s : Registry H} {ds : List (Definition H)}

theorem perm {ds' : List (Definition H)} (h : s.Holds ds) (hperm : ds.Perm ds') :
    s.Holds ds' where
  get?_iff n d := by rw [h.get?_iff n d, hperm.mem_iff]
  uncached := h.uncached
  unobserved := h.unobserved
  idle := h.idle
  coherent := h.coherent

/-- One definition more, under a new name. -/
theorem define (h : s.Holds ds) {d : Definition H} (hd : d.name ∉ ds.map (·.name)) :
    (s.define d).Holds (d :: ds) where
  get?_iff n d' := by
    simp only [Registry.define, OrderedMap.get?_insert, List.mem_cons]
    split <;> rename_i hn
    · subst hn
      constructor
      · rintro ⟨⟩
        exact ⟨.inl rfl, rfl⟩
      · rintro ⟨rfl | hmem, hname⟩
        · rfl
        · exact absurd (List.mem_map.2 ⟨d', hmem, hname⟩) hd
    · rw [h.get?_iff]
      constructor
      · exact fun h => ⟨.inr h.1, h.2⟩
      · rintro ⟨rfl | hmem, hname⟩
        · exact absurd hname hn
        · exact ⟨hmem, hname⟩
  uncached := by
    simp only [Registry.define, h.uncached]
    split
    · exact OrderedMap.erase_of_none rfl
    · rfl
  unobserved := h.unobserved
  idle := h.idle
  coherent := h.coherent.define d

theorem contains_iff (h : s.Holds ds) {n : ComponentName} :
    s.definitions.contains n = true ↔ n ∈ ds.map (·.name) := by
  rw [OrderedMap.contains, Option.isSome_iff_exists, List.mem_map]
  simp only [h.get?_iff]

theorem size_eq (h : s.Holds ds) (hdistinct : (ds.map (·.name)).Nodup) :
    s.definitions.size = ds.length := by
  have hperm : s.definitions.keys.Perm (ds.map (·.name)) := by
    refine (List.perm_ext_iff_of_nodup s.definitions.keys_nodup hdistinct).2 fun n => ?_
    exact (s.definitions.mem_keys_iff n).trans h.contains_iff
  have hlength := hperm.length_eq
  rwa [OrderedMap.keys, List.length_map, List.length_map] at hlength

/-! ### The graph -/

variable {p : Plan H}

theorem known_iff (h : s.Holds p.definitions) {n : ComponentName} : s.Known n ↔ p.Defines n := by
  rw [Known, h.contains_iff, h.uncached, Plan.Defines, List.mem_map]
  exact or_iff_right fun h => by cases h

theorem dependsOn_eq (h : s.Holds p.definitions) : s.DependsOn p.deps = p.DependsOn := by
  funext n m
  rw [Registry.DependsOn, Plan.DependsOn, h.contains_iff, h.uncached, Plan.Defines, List.mem_map]
  exact propext (and_iff_right rfl)

theorem demands_iff (h : s.Holds p.definitions) {n m : ComponentName} :
    s.Demands p.deps n m ↔ ReflTransGen p.DependsOn n m ∧ p.DefinesSingleton m := by
  rw [Demands, h.dependsOn_eq, Plan.DefinesSingleton]
  simp only [h.get?_iff, and_assoc]

theorem mem_eagerNames_iff (h : s.Holds ds) {n : ComponentName} :
    n ∈ s.eagerNames ↔
      ∃ d ∈ ds, d.name = n ∧ d.isSingleton = true ∧ d.isLazy = false := by
  rw [Registry.mem_eagerNames_iff]
  simp only [h.get?_iff, and_assoc]

theorem reaches_iff (h : s.Holds p.definitions) {n : ComponentName} :
    p.Reaches n ↔ ∃ m ∈ s.eagerNames, ReflTransGen p.DependsOn m n := by
  simp only [h.mem_eagerNames_iff, Plan.Reaches]
  constructor
  · rintro ⟨d, hd, hsingle, heager, hreach⟩
    exact ⟨d.name, ⟨d, hd, rfl, hsingle, heager⟩, hreach⟩
  · rintro ⟨m, ⟨d, hd, rfl, hsingle, heager⟩, hreach⟩
    exact ⟨d, hd, hsingle, heager, hreach⟩

/-- All is well below the names that are created ahead of use. -/
theorem grounded_iff (h : s.Holds p.definitions) :
    (∀ n ∈ s.eagerNames, s.Grounded p.deps n) ↔
      (∀ n, p.Reaches n → p.Defines n) ∧ ∀ n, p.Reaches n → ¬ TransGen p.DependsOn n n := by
  simp only [h.reaches_iff]
  constructor
  · intro hgrounded
    constructor
    · rintro n ⟨m, hm, hreach⟩
      rw [← h.known_iff]
      exact (hgrounded m hm).known n (by rwa [h.dependsOn_eq])
    · rintro n ⟨m, hm, hreach⟩
      rw [← h.dependsOn_eq] at hreach ⊢
      exact (hgrounded m hm).acyclic n hreach
  · rintro ⟨hdefined, hacyclic⟩ m hm
    constructor
    · intro n hreach
      rw [h.dependsOn_eq] at hreach
      exact h.known_iff.2 (hdefined n ⟨m, hm, hreach⟩)
    · intro n hreach
      rw [h.dependsOn_eq] at hreach ⊢
      exact hacyclic n ⟨m, hm, hreach⟩

end Holds

end Registry

/-! ### Registration -/

/-- Register definitions one after the other, until one is refused. -/
def Program.registerEach (r : ObjectId) :
    List (Definition H) → Program H σ (Except DependencyError Unit)
  | [] => .pure (.ok ())
  | d :: rest => .ask (.register r d) fun
    | .ok _ => registerEach r rest
    | .error e => .pure (.error e)

/-- Under new names that are not blank none is refused. -/
theorem Program.registerEach_holds (b : Behaviour H σ) (r : ObjectId)
    {ds old : List (Definition H)} (hdistinct : ((ds ++ old).map (·.name)).Nodup)
    (hnamed : ∀ d ∈ ds, d.name.isBlank = false) {w : World H σ}
    (hw : (w.registries.get r).Holds old) :
    ∃ w' j, (∀ depth, b.run depth (Program.registerEach r ds) w = some (.ok (), w', j)) ∧
      (w'.registries.get r).Holds (ds ++ old) := by
  induction ds generalizing old w with
  | nil => exact ⟨w, [], fun _ => rfl, hw⟩
  | cons d rest ih =>
    obtain ⟨hd, hrest⟩ := List.forall_mem_cons.1 hnamed
    have hmiddle : (rest ++ d :: old).Perm (d :: rest ++ old) := List.perm_middle
    have hnew : d.name ∉ old.map (·.name) := fun hmem => by
      rw [List.cons_append, List.map_cons, List.nodup_cons, List.map_append] at hdistinct
      exact hdistinct.1 (List.mem_append_right _ hmem)
    obtain ⟨j₁, hregister⟩ : ∃ j₁, Registry.register r d w =
        some (.ok (), w.setRegistry r ((w.registries.get r).define d), j₁) :=
      ⟨_, (Registry.register_run r d w).trans (if_neg (by simp [hd]))⟩
    have hdefined : ((w.setRegistry r ((w.registries.get r).define d)).registries.get r).Holds
        (d :: old) := by
      rw [World.get_setRegistry_self]
      exact hw.define hnew
    obtain ⟨w', j, hrun, hholds⟩ := ih ((hmiddle.map _).nodup_iff.2 hdistinct) hrest hdefined
    refine ⟨w', j₁ ++ j, fun depth => ?_, hholds.perm hmiddle⟩
    exact Run.bind_eq_some.2 ⟨.ok (), _, j₁, j, hregister, hrun depth, rfl⟩

/-! ## Names that are resolved one after the other -/

section Names

variable {r : ObjectId} {s : Registry H} {deps : ComponentName → List ComponentName}
  {b : Behaviour H σ} {k : Nat}

theorem resolveAll_settles
    (hwires : ∀ n d, s.definitions.get? n = some d →
      Program.Wires r (deps n) (b (.create d (.direct r))))
    {v : View} (hv : v.registry = r) (hk : s.definitions.size ≤ k) (names : List ComponentName)
    {w : World H σ} (hw : s.Searching deps [] (w.registries.get r)) :
    Settles k (fun depth => (v.resolveAll (b.call depth) names).run) w fun a =>
      WiredFrom r s deps [] (w.registries.get r).singletons names
        (a.mapError Failure.dependency) := by
  induction names generalizing w with
  | nil => exact Settles.pure (.nil hw)
  | cons n rest ih =>
    simp only [View.resolveAll, Attempt.run_bind]
    refine (resolution_settles_from hwires hv hw (Nat.le_add_left_of_le hk)).bind fun a w' hw' => ?_
    cases a with
    | error e => exact Settles.pure (.of_error hw')
    | ok i => exact (ih hw'.searching).mono fun a w'' hw'' => .cons hw' hw''

/-- Singletons are created ahead of use by resolving their names. -/
theorem preinstantiate_settles
    (hwires : ∀ n d, s.definitions.get? n = some d →
      Program.Wires r (deps n) (b (.create d (.direct r))))
    {v : View} (hv : v.registry = r) (hk : s.definitions.size ≤ k)
    {w : World H σ} (hw : s.Searching deps [] (w.registries.get r)) :
    Settles k (fun depth => (v.preinstantiate (b.call depth)).run) w fun a =>
      WiredFrom r s deps [] (w.registries.get r).singletons (w.registries.get r).eagerNames
        (a.mapError Failure.dependency) := by
  subst hv
  obtain ⟨a, w', j, hrun, hwired⟩ := (resolveAll_settles hwires
    (v := .direct v.registry) rfl hk (w.registries.get v.registry).eagerNames hw).within
      (s := fun a => .preinstantiation v.registry (w.registries.get v.registry).eagerNames
        (View.error? a))
  refine ⟨a, w', .fact (.preinstantiating (w.registries.get v.registry).eagerNames.length) :: j,
    fun depth hdepth => ?_, hwired⟩
  simp only [View.preinstantiate_run, Run.ask_bind]
  exact Run.bind_eq_some.2 ⟨(), w, _, j, rfl, hrun depth hdepth, rfl⟩

end Names

/-- Where all names have singletons, nothing is created and nothing is changed. -/
theorem View.resolveAll_cached (v : View) {names : List ComponentName} {w : World H σ}
    (hnames : ∀ n ∈ names, (w.registries.get v.registry).singletons.contains n = true) :
    ∃ j, Journal.calls j = [] ∧
      ∀ call, (v.resolveAll call names).run w = some (.ok (), w, j) := by
  induction names with
  | nil => exact ⟨[], rfl, fun _ => rfl⟩
  | cons n rest ih =>
    obtain ⟨hn, hrest⟩ := List.forall_mem_cons.1 hnames
    obtain ⟨i, hi⟩ := Option.isSome_iff_exists.1 hn
    obtain ⟨j, hcalls, hrun⟩ := ih hrest
    refine ⟨[.scope (.resolution v n (.ok i)) []] ++ j, ?_, fun call => ?_⟩
    · rw [Journal.calls_append, Journal.calls_scope, hcalls]
      rfl
    · rw [View.resolveAll, Attempt.run_bind]
      exact Run.bind_eq_some.2 ⟨.ok i, w, _, j, View.resolve_cached call hi, hrun call, rfl⟩

theorem View.preinstantiate_cached (v : View) {w : World H σ}
    (hcached : ∀ n ∈ (w.registries.get v.registry).eagerNames,
      (w.registries.get v.registry).singletons.contains n = true) :
    ∃ j, Journal.calls j = [] ∧
      ∀ call, (v.preinstantiate call).run w = some (.ok (), w, j) := by
  obtain ⟨j, hcalls, hrun⟩ := View.resolveAll_cached (.direct v.registry) hcached
  refine ⟨[.fact (.preinstantiating (w.registries.get v.registry).eagerNames.length)] ++
    [.scope (.preinstantiation v.registry (w.registries.get v.registry).eagerNames none) j],
    ?_, fun call => ?_⟩
  · rw [Journal.calls_append, Journal.calls_scope, hcalls]
    rfl
  · rw [View.preinstantiate_run, Run.ask_bind]
    refine Run.bind_eq_some.2 ⟨(), w, _, _, rfl, ?_, rfl⟩
    rw [Attempt.within, Attempt.run_of]
    exact Run.within_eq_some.2 ⟨j, hrun call, rfl⟩

/-! ## The order of registration -/

/-- The definitions of a plan, of which each factory resolves a list of names and does nothing else,
can be registered in any order in a registry that is empty. In a registry that holds them, with no
interceptors and no singletons yet, the creation ahead of use ends, in the same way whatever depth
is given beyond their number. Whatever the order was, it succeeds just when every name that is
reached from a singleton that is not lazy is defined, and none of them is reached from itself. Then
the singletons that there are in the end are those among the reached names that are defined as
singletons, lazy or not; and to do it again makes no callback and leaves the world as it is. -/
theorem preinstantiation_decides (p : Plan H) (b : Behaviour H σ) (r : ObjectId)
    (hwires : ∀ d ∈ p.definitions,
      Program.Wires r (p.deps d.name) (b (.create d (.direct r)))) :
    (∀ order : List (Definition H), order.Perm p.definitions →
      ∀ w : World H σ, (w.registries.get r).Holds [] →
        ∃ w' j, (∀ depth, b.run depth (Program.registerEach r order) w = some (.ok (), w', j)) ∧
          (w'.registries.get r).Holds p.definitions) ∧
    ∀ (w : World H σ) (v : View), (w.registries.get r).Holds p.definitions → v.registry = r →
      ∃ a w' j,
        (∀ depth, p.definitions.length ≤ depth →
          b.run depth (Program.request (.preinstantiate v)) w = some (a, w', j)) ∧
        (a = .ok () ↔
          (∀ n, p.Reaches n → p.Defines n) ∧
            ∀ n, p.Reaches n → ¬ TransGen p.DependsOn n n) ∧
        (a = .ok () →
          (∀ n, (w'.registries.get r).singletons.contains n = true ↔
            p.Reaches n ∧ p.DefinesSingleton n) ∧
          ∃ j', Journal.calls j' = [] ∧
            ∀ depth, b.run depth (Program.request (.preinstantiate v)) w' =
              some (.ok (), w', j')) := by
  constructor
  · intro order horder w hw
    have hdistinct : ((order ++ []).map Definition.name).Nodup := by
      rw [List.append_nil]
      exact (horder.map _).nodup_iff.2 p.distinct
    obtain ⟨w', j, hrun, hholds⟩ := Program.registerEach_holds b r hdistinct
      (fun d hd => p.named d (horder.mem_iff.1 hd)) hw
    rw [List.append_nil] at hholds
    exact ⟨w', j, hrun, hholds.perm horder⟩
  · intro w v hw hv
    subst hv
    have hresolves : ∀ n d, (w.registries.get v.registry).definitions.get? n = some d →
        Program.Wires v.registry (p.deps n) (b (.create d (.direct v.registry))) := by
      intro n d hd
      obtain ⟨hmem, rfl⟩ := (hw.get?_iff n d).1 hd
      exact hwires d hmem
    have hsettles := preinstantiate_settles hresolves rfl (hw.size_eq p.distinct).le
      (.start hw.unobserved hw.idle hw.coherent)
    obtain ⟨a, w', j, hrun, hwired⟩ := Settles.request (q := .preinstantiate v) hsettles
    refine ⟨a, w', j, hrun, ?_, ?_⟩
    · rw [← hw.grounded_iff]
      constructor
      · rintro rfl
        exact hwired.grounded () rfl
      · intro hgrounded
        cases a with
        | ok => rfl
        | error e =>
          obtain ⟨n, hn, e', -, hblames⟩ := hwired.blames (.dependency e) rfl
          exact absurd (hgrounded n hn) hblames.not_grounded
    · rintro rfl
      have hcomplete := hwired.complete () rfl
      constructor
      · intro n
        rw [hw.reaches_iff]
        constructor
        · intro hn
          obtain hold | ⟨m, hm, hmn⟩ := hwired.grows.demanded n hn
          · rw [hw.uncached] at hold
            cases hold
          · obtain ⟨hreach, hsingle⟩ := hw.demands_iff.1 hmn
            exact ⟨⟨m, hm, hreach⟩, hsingle⟩
        · rintro ⟨⟨m, hm, hreach⟩, hsingle⟩
          exact hcomplete m hm n (hw.demands_iff.2 ⟨hreach, hsingle⟩)
      · have hsame : (w'.registries.get v.registry).eagerNames =
            (w.registries.get v.registry).eagerNames := by
          rw [Registry.eagerNames, hwired.searching.definitions, Registry.eagerNames]
        obtain ⟨j', hcalls, hagain⟩ := View.preinstantiate_cached v (w := w') fun n hn => by
          rw [hsame] at hn
          obtain ⟨d, hd, hname, hsingle, -⟩ := hw.mem_eagerNames_iff.1 hn
          exact hcomplete n hn n (hw.demands_iff.2 ⟨.refl, d, hd, hname, hsingle⟩)
        refine ⟨j', hcalls, fun depth => ?_⟩
        exact Run.bind_eq_some.2 ⟨.ok (), w', j', [], hagain _, rfl, (List.append_nil j').symm⟩

/-! ### Lazy components -/

namespace Scenario

/-- One component is created ahead of use, and with it a transient one and a lazy one. Another lazy
one is left out, so it does not matter that it needs what is not there. -/
def unhurried : Plan Scripted where
  definitions :=
    [(wired .singleton "a" ["b", "c"]).toDefinition, (wired .transient "b" ["c"]).toDefinition,
      { (wired .singleton "c" []).toDefinition with isLazy := true },
      { (wired .singleton "d" ["missing"]).toDefinition with isLazy := true }]
  deps := dependenciesIn
    [{ name := "a", dependencies := ["b", "c"] }, { name := "b", dependencies := ["c"] },
      { name := "c", dependencies := [] }, { name := "d", dependencies := ["missing"] }]
  distinct := by decide
  named := by decide

theorem unhurried_wires : ∀ d ∈ unhurried.definitions, Program.Wires Setup.base
    (unhurried.deps d.name) (behaviour (.create d (.direct Setup.base))) := by
  simp only [unhurried, List.forall_mem_cons]
  exact ⟨wired_wires Setup.base .singleton "a" ["b", "c"],
    wired_wires Setup.base .transient "b" ["c"], wired_wires Setup.base .singleton "c" [],
    wired_wires Setup.base .singleton "d" ["missing"], List.forall_mem_nil _⟩

/-- Register definitions, then create what is not lazy. -/
def preinstantiated (order : List (Definition Scripted)) :
    Program Scripted Memory (Except DependencyError Unit) := do
  let _ ← Program.registerEach Setup.base order
  Program.request (.preinstantiate (.direct Setup.base))

theorem world_holds_nothing : ((Setup.world {}).registries.get Setup.base).Holds [] where
  get?_iff n d := by
    refine ⟨fun hd => ?_, fun hd => by cases hd.1⟩
    cases hd
  uncached := rfl
  unobserved := rfl
  idle := rfl
  coherent n d hd := by cases hd

/-- Whether they are registered from the first to the last or the other way round, the same
components are kept. -/
theorem unhurried_preinstantiated :
    ∃ p q, behaviour.run 4 (preinstantiated unhurried.definitions) (Setup.world {}) = some p ∧
      behaviour.run 4 (preinstantiated unhurried.definitions.reverse) (Setup.world {}) = some q ∧
      p.1 = .ok () ∧ q.1 = .ok () ∧
      (p.2.1.registries.get Setup.base).singletons.keys.map (·.text) = ["c", "a"] ∧
      ∀ n, (p.2.1.registries.get Setup.base).singletons.contains n =
        (q.2.1.registries.get Setup.base).singletons.contains n := by
  have hevaluated : (behaviour.run 4 (preinstantiated unhurried.definitions)
      (Setup.world {})).map (fun p =>
        (p.1.isOk, (p.2.1.registries.get Setup.base).singletons.keys.map (·.text))) =
          some (true, ["c", "a"]) := by
    decide +kernel
  obtain ⟨hregister, hpreinstantiate⟩ :=
    preinstantiation_decides unhurried behaviour Setup.base unhurried_wires
  have hany : ∀ order : List (Definition Scripted), order.Perm unhurried.definitions →
      ∃ p, behaviour.run 4 (preinstantiated order) (Setup.world {}) = some p ∧
        (p.1 = .ok () ↔ (∀ n, unhurried.Reaches n → unhurried.Defines n) ∧
          ∀ n, unhurried.Reaches n → ¬ TransGen unhurried.DependsOn n n) ∧
        (p.1 = .ok () → ∀ n, (p.2.1.registries.get Setup.base).singletons.contains n = true ↔
          unhurried.Reaches n ∧ unhurried.DefinesSingleton n) := by
    intro order horder
    obtain ⟨w, j, hrun, hholds⟩ := hregister order horder _ world_holds_nothing
    obtain ⟨a, w', j', hrun', hdecides, hkept⟩ :=
      hpreinstantiate w (.direct Setup.base) hholds rfl
    refine ⟨(a, w', j ++ j'), ?_, hdecides, fun ha => (hkept ha).1⟩
    have hbind := Program.run_bind (behaviour.call 4) 4 (Program.registerEach Setup.base order)
      fun _ => Program.request (.preinstantiate (.direct Setup.base))
    refine (congrFun hbind _).trans (Run.bind_eq_some.2 ?_)
    exact ⟨_, w, j, j', hrun 4, hrun' 4 (Nat.le_refl 4), rfl⟩
  obtain ⟨p, hp, hdecides, hkept⟩ := hany _ (.refl _)
  obtain ⟨q, hq, hdecides', hkept'⟩ := hany _ unhurried.definitions.reverse_perm
  rw [hp] at hevaluated
  obtain ⟨hisOk, hkeys⟩ := Prod.mk.inj (Option.some.inj hevaluated)
  have hok : p.1 = .ok () := by
    cases ha : p.1 with
    | ok => rfl
    | error e =>
      rw [ha] at hisOk
      cases hisOk
  have hok' : q.1 = .ok () := hdecides'.2 (hdecides.1 hok)
  refine ⟨p, q, hp, hq, hok, hok', hkeys, fun n => ?_⟩
  rw [Bool.eq_iff_iff, hkept hok n, hkept' hok' n]

end Scenario

end Startup
