import Mathlib.Logic.Relation
import Mathlib.Data.List.Chain
import Startup.Proofs.Settles
import Startup.Scenario.Basic

/-!
Components that are wired to others. A factory that does nothing but to resolve some components, one
after the other, gives its component dependencies; the definitions of a registry are then a graph of
names. A name with a singleton is a leaf of that graph, as nothing is created for it.

Main statements: `Registry.Grounded.of_singleton` and `Registry.Grounded.of_dependencies`, which say
when all is known below a name and nothing circular; `Registry.Blames.through`, how the blame for a
failure is passed on to the component that depends on it, and `Registry.Blames.not_grounded`, that
it is never wrong; `Scenario.wired_wires`, that a factory whose script resolves some names is wired
to them.
-/

namespace Startup

open Relation (ReflTransGen TransGen)

variable {H : Host} {σ : Type}

/-! ## Innermost errors -/

/-- The failure that is at the root of an error. -/
def DependencyError.innermost (e : DependencyError) : Failure := e.causes.getLastD (.dependency e)

theorem DependencyError.innermost_creationFailed (name : String) (e : DependencyError) :
    (creationFailed name (.dependency e)).innermost = e.innermost := by
  rw [innermost, causes, Failure.causes, List.getLastD_cons, innermost]

namespace Registry

/-! ## The graph of dependencies -/

variable {s : Registry H} {deps : ComponentName → List ComponentName}

/-- To get `n`, one has to create it from a definition whose factory asks for `m`. -/
def DependsOn (s : Registry H) (deps : ComponentName → List ComponentName)
    (n m : ComponentName) : Prop :=
  s.singletons.get? n = none ∧ s.definitions.contains n = true ∧ m ∈ deps n

/-- There is a singleton, or a definition to create one from. -/
def Known (s : Registry H) (n : ComponentName) : Prop :=
  s.singletons.contains n = true ∨ s.definitions.contains n = true

/-- All that is reached from `n` is known, and nothing of it is reached from itself. -/
structure Grounded (s : Registry H) (deps : ComponentName → List ComponentName)
    (n : ComponentName) : Prop where
  known : ∀ m, ReflTransGen (s.DependsOn deps) n m → s.Known m
  acyclic : ∀ m, ReflTransGen (s.DependsOn deps) n m → ¬ TransGen (s.DependsOn deps) m m

/-- A singleton depends on nothing, and so reaches nothing but itself. -/
theorem reached_of_singleton {n m : ComponentName} {i : Instance H}
    (hi : s.singletons.get? n = some i) (hm : ReflTransGen (s.DependsOn deps) n m) : m = n := by
  obtain rfl | ⟨k, ⟨hnone, -⟩, -⟩ := hm.cases_head
  · rfl
  · rw [hi] at hnone
    cases hnone

theorem Grounded.of_singleton {n : ComponentName} {i : Instance H}
    (hi : s.singletons.get? n = some i) : s.Grounded deps n := by
  constructor
  · intro m hm
    obtain rfl := reached_of_singleton hi hm
    exact .inl (OrderedMap.contains_of_some hi)
  · intro m hm hcycle
    obtain rfl := reached_of_singleton hi hm
    obtain ⟨k, ⟨hnone, -⟩, -⟩ := TransGen.head'_iff.1 hcycle
    rw [hi] at hnone
    cases hnone

/-- A cycle through a name is reached by one of its dependencies, so it is enough to look at
these. -/
theorem Grounded.of_dependencies {n : ComponentName} (hn : s.Known n)
    (h : ∀ m, s.DependsOn deps n m → s.Grounded deps m) : s.Grounded deps n := by
  constructor
  · intro m hm
    obtain rfl | ⟨k, hk, hkm⟩ := hm.cases_head
    · exact hn
    · exact (h k hk).known m hkm
  · intro m hm hcycle
    obtain rfl | ⟨k, hk, hkm⟩ := hm.cases_head
    · obtain ⟨k, hk, hback⟩ := TransGen.head'_iff.1 hcycle
      exact (h k hk).acyclic n hback hcycle
    · exact (h k hk).acyclic m hkm hcycle

/-! ## What a creation has to leave behind -/

/-- To create `n`, the singleton `m` has to be created as well: it is reached from `n`. -/
def Demands (s : Registry H) (deps : ComponentName → List ComponentName)
    (n m : ComponentName) : Prop :=
  ReflTransGen (s.DependsOn deps) n m ∧ ∃ d, s.definitions.get? m = some d ∧ d.isSingleton = true

theorem Demands.through {n k m : ComponentName} (h : s.Demands deps k m)
    (hk : s.DependsOn deps n k) : s.Demands deps n m :=
  ⟨h.1.head hk, h.2⟩

/-- What is demanded by a component is the component itself or demanded by a dependency. -/
theorem Demands.cases {n m : ComponentName} (h : s.Demands deps n m) :
    m = n ∨ ∃ k ∈ deps n, s.Demands deps k m := by
  obtain ⟨hreach, hsingle⟩ := h
  obtain rfl | ⟨k, hk, hkm⟩ := hreach.cases_head
  · exact .inl rfl
  · exact .inr ⟨k, hk.2.2, hkm, hsingle⟩

/-! ## Blame -/

/-- What an error says that was met on the way from the components in `stack` to `n`: a name that
is reached is not known, or the way goes on to a name that it has passed already. -/
inductive Blames (s : Registry H) (deps : ComponentName → List ComponentName)
    (stack : List ComponentName) (n : ComponentName) (e : DependencyError) : Prop
  | unknown (m : ComponentName) (hm : ReflTransGen (s.DependsOn deps) n m) (hunknown : ¬ s.Known m)
      (he : e.innermost = .dependency (.notRegistered m.text))
  | circular (rest way : List ComponentName) (last : ComponentName)
      (hchain : (n :: rest).IsChain (s.DependsOn deps)) (hway : stack ++ n :: rest = way ++ [last])
      (hlast : last ∈ way)
      (he : e.innermost = .dependency (.circular (Creation.cycleText (stack ++ n :: rest))))

/-- A component fails with what one of its dependencies fails with. -/
theorem Blames.through {stack : List ComponentName} {n m : ComponentName} {e : DependencyError}
    (h : s.Blames deps (stack ++ [n]) m e) (hm : s.DependsOn deps n m) :
    s.Blames deps stack n (.creationFailed n.text (.dependency e)) := by
  cases h with
  | unknown k hk hunknown he =>
    exact .unknown k (hk.head hm) hunknown
      ((DependencyError.innermost_creationFailed n.text e).trans he)
  | circular rest way last hchain hway hlast he =>
    rw [List.append_assoc, List.singleton_append] at hway he
    exact .circular (m :: rest) way last (.cons_cons hm hchain) hway hlast
      ((DependencyError.innermost_creationFailed n.text e).trans he)

/-- A walk that comes back to a name has met a cycle. -/
theorem cycle_of_walk {R : ComponentName → ComponentName → Prop} {n last : ComponentName}
    {rest way : List ComponentName} (hchain : (n :: rest).IsChain R)
    (hway : n :: rest = way ++ [last]) (hlast : last ∈ way) :
    ReflTransGen R n last ∧ TransGen R last last := by
  have hpairs : (n :: rest).Pairwise (TransGen R) :=
    List.isChain_iff_pairwise.1 (hchain.imp fun _ _ h => .single h)
  constructor
  · have hmem : last ∈ n :: rest := by simp [hway]
    rcases List.mem_cons.1 hmem with rfl | hrest
    · exact .refl
    · exact (List.rel_of_pairwise_cons hpairs hrest).to_reflTransGen
  · rw [hway, List.pairwise_append] at hpairs
    exact hpairs.2.2 last hlast last (List.mem_singleton_self last)

/-- Whatever is blamed for the failure of a name is there. -/
theorem Blames.not_grounded {n : ComponentName} {e : DependencyError}
    (h : s.Blames deps [] n e) : ¬ s.Grounded deps n := by
  intro hgrounded
  cases h with
  | unknown m hm hunknown => exact hunknown (hgrounded.known m hm)
  | circular rest way last hchain hway hlast =>
    obtain ⟨hreach, hcycle⟩ := cycle_of_walk hchain hway hlast
    exact hgrounded.acyclic last hreach hcycle

end Registry

/-! ## Programs that resolve a list of names -/

/-- A program that resolves these names in registry `r`, one after the other, whatever the host does
in between. The first error ends it; if there is none, it succeeds. -/
inductive Program.Wires (r : ObjectId) {α : Type} :
    List ComponentName → Program H σ (Except Failure α) → Prop
  | done (a : α) : Wires r [] (.pure (.ok a))
  | aside {names : List ComponentName} {q : Request H σ}
      {next : q.Answer → Program H σ (Except Failure α)} (hq : q.IsAside)
      (hnext : ∀ a, Wires r names (next a)) : Wires r names (.ask q next)
  | resolve {n : ComponentName} {names : List ComponentName} {v : View}
      {next : Except DependencyError (Instance H) → Program H σ (Except Failure α)}
      (hv : v.registry = r) (hok : ∀ i, Wires r names (next (.ok i)))
      (herror : ∀ e, next (.error e) = .pure (.error (.dependency e))) :
      Wires r (n :: names) (.ask (.resolve v n) next)

/-- One such program after the other. -/
theorem Program.Wires.bind {r : ObjectId} {α β : Type} {names more : List ComponentName}
    {x : Program H σ (Except Failure α)} {f : Except Failure α → Program H σ (Except Failure β)}
    (hx : x.Wires r names) (hf : ∀ a, (f (.ok a)).Wires r more)
    (herror : ∀ e, f (.error e) = .pure (.error e)) : (x.bind f).Wires r (names ++ more) := by
  induction hx with
  | done a => exact hf a
  | aside hq _ ih => exact .aside hq ih
  | resolve hv _ hnext ih =>
    refine .resolve hv ih fun e => ?_
    rw [hnext]
    exact herror _

/-! ## Factories of scenarios -/

namespace Scenario

/-- A component whose factory resolves some others before it makes an object. -/
def wired (lifetime : Lifetime) (name : String) (dependencies : List String) : DefinitionSpec :=
  .mk name .plain [] .unordered .application lifetime false []
    (dependencies.map fun n => .mk {} (.perform .quiet (.resolve n))) (.plain name)

namespace Act

variable {r : ObjectId} {α β : Type}

theorem wires_bind {names more : List ComponentName} {x : Act α} {f : α → Act β}
    (hx : x.run.Wires r names) (hf : ∀ a, (f a).run.Wires r more) :
    (x >>= f).run.Wires r (names ++ more) := by
  rw [ExceptT.run_bind]
  exact hx.bind hf fun _ => rfl

/-- What concerns nothing but the host may come first. -/
theorem wires_after {names : List ComponentName} {x : Act α} {f : α → Act β}
    (hx : x.run.Wires r []) (hf : ∀ a, (f a).run.Wires r names) : (x >>= f).run.Wires r names :=
  wires_bind hx hf

theorem wires_ask {q : Request Scripted Memory} (hq : q.IsAside) : (ask q).run.Wires r [] :=
  .aside hq .done

theorem wires_look (f : World Scripted Memory → α) : (look f).run.Wires r [] :=
  wires_ask trivial

theorem wires_remember (f : Memory → Memory) : (remember f).run.Wires r [] :=
  wires_ask trivial

theorem wires_plain (label : String) : (plain label).run.Wires r [] := by
  have hserial : nextSerial.run.Wires r [] :=
    wires_after (wires_remember _) fun _ => wires_after (wires_look _) fun m => .done m.serial
  have hfresh : (ask .fresh).run.Wires r [] := wires_ask trivial
  exact wires_after hserial fun _ => wires_after hfresh fun _ => .done _

theorem wires_perform {v : View} (hv : v.registry = r) (n : String) :
    (perform v (.resolve n)).run.Wires r [⟨n⟩] := by
  rw [perform]
  have hresolve : (dependency (Program.request (.resolve v ⟨n⟩))).run.Wires r [⟨n⟩] :=
    .resolve hv .done fun _ => rfl
  refine wires_bind hresolve fun i => ?_
  exact wires_after (wires_remember _) fun _ => .done _

/-- A step that resolves a component is always meant to be done. -/
theorem runScript_resolve (p : Place) (n : String) (rest : List Step) :
    runScript p none (.mk {} (.perform .quiet (.resolve n)) :: rest) = (do
      let _ ← registry p.view
      let _ ← perform p.view (.resolve n)
      runScript p none rest) := by
  rw [runScript]
  simp only [allowed, act, performAs, Option.all_none, bind_assoc, pure_bind, Bool.and_self,
    if_true]

theorem wires_runScript (c : Option ComponentName) (names : List String) :
    (runScript { view := .direct r, component? := c } none
      (names.map fun n => .mk {} (.perform .quiet (.resolve n)))).run.Wires r
        (names.map ComponentName.mk) := by
  induction names with
  | nil => exact .done none
  | cons n rest ih =>
    rw [List.map_cons, List.map_cons, runScript_resolve]
    have hn : (perform (.direct r) (.resolve n)).run.Wires r [⟨n⟩] :=
      wires_perform (v := .direct r) rfl n
    exact wires_after (wires_look _) fun _ => wires_bind hn fun _ => ih

end Act

/-- What a scripted factory resolves is what is written in its script. -/
theorem wired_wires (r : ObjectId) (lifetime : Lifetime) (name : String)
    (dependencies : List String) :
    Program.Wires r (dependencies.map ComponentName.mk)
      (behaviour (.create (wired lifetime name dependencies).toDefinition (.direct r))) := by
  have hscript := Act.wires_runScript (r := r) (some ⟨name⟩) dependencies
  have hnote : (Act.note (.created name)).run.Wires r [] := Act.wires_ask trivial
  have hmake : (Act.make (.direct r) (.plain name)).run.Wires r [] := Act.wires_plain name
  have hall := Act.wires_bind (Act.wires_bind hscript fun _ => .done ()) fun _ =>
    Act.wires_after hnote fun _ => hmake
  rw [List.append_nil, List.append_nil] at hall
  exact hall

end Scenario

end Startup
