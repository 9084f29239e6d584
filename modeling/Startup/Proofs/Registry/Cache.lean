import Startup.Proofs.Registry.Current
import Startup.Proofs.Registry.Wiring

/-!
The cache of definitions. A registry remembers the definitions that it looked up, and forgets one as
soon as it is replaced or removed. So it makes no difference whether a definition is remembered or
looked up again: of two runs, one of which clears caches wherever it likes, each goes through the
same states as the other, apart from what is remembered.

Main statement: `cache_transparent`. Clear caches any number of times, between operations or inside
of callbacks: answers, callbacks with their arguments, and all later states stay what they are. And
every creation is from the definition that was registered when the component was asked for.
-/

namespace Startup

variable {H : Host} {σ : Type}

/-! ## Worlds that differ in their caches -/

/-- A creation concludes in the same way whatever is remembered. -/
theorem Registry.conclude_clearCache (s : Registry H) (n : ComponentName) (d : Definition H)
    (a : Except DependencyError (Instance H)) :
    s.clearCache.conclude n d a = ((s.conclude n d a).1, (s.conclude n d a).2.clearCache) := by
  have hsettle (i : Instance H) : (s.clearCache.endCreation n).settle n i =
      (((s.endCreation n).settle n i).1, ((s.endCreation n).settle n i).2.clearCache) := by
    unfold settle
    rw [show (s.clearCache.endCreation n).singletons = (s.endCreation n).singletons from rfl]
    split <;> rfl
  cases a with
  | error e => rfl
  | ok i =>
    simp only [conclude, hsettle]
    split <;> rfl

/-- What the registries of the world remember is registered. -/
def World.Coherent (w : World H σ) : Prop := ∀ r, (w.registries.get r).Coherent

/-- Two coherent worlds that differ in nothing but the caches of their registries. -/
structure World.Matches (w w' : World H σ) : Prop where
  alike : w.Alike w'
  left : w.Coherent
  right : w'.Coherent

namespace World

variable {w w' : World H σ}

theorem Coherent.setRegistry (h : w.Coherent) (r : ObjectId) {s : Registry H} (hs : s.Coherent) :
    (w.setRegistry r s).Coherent := by
  intro r'
  rw [get_setRegistry]
  split
  · exact hs
  · exact h r'

theorem Alike.setRegistry (h : w.Alike w') (r : ObjectId) {s s' : Registry H}
    (hs : s.clearCache = s'.clearCache) : (w.setRegistry r s).Alike (w'.setRegistry r s') where
  next := h.next
  registries r' := by
    rw [get_setRegistry, get_setRegistry]
    split
    · exact hs
    · exact h.registries r'
  contexts := h.contexts
  checkers := h.checkers
  detectors := h.detectors
  memory := h.memory

namespace Matches

variable (h : w.Matches w') (r : ObjectId)
include h

/-- A question to a registry that its cache has no part in. -/
theorem ask {α : Type} {f : Registry H → α} (hf : ∀ s, f s.clearCache = f s) :
    f (w.registries.get r) = f (w'.registries.get r) :=
  h.alike.ask r hf

theorem setRegistry {s s' : Registry H} (hs : s.clearCache = s'.clearCache) (hl : s.Coherent)
    (hr : s'.Coherent) : (w.setRegistry r s).Matches (w'.setRegistry r s') :=
  ⟨h.alike.setRegistry r hs, h.left.setRegistry r hl, h.right.setRegistry r hr⟩

/-- A change of a registry for which the cache is of no account. -/
theorem change {f : Registry H → Registry H}
    (hf : ∀ s, (f s).clearCache = (f s.clearCache).clearCache)
    (hcoherent : ∀ s, s.Coherent → (f s).Coherent) :
    (w.setRegistry r (f (w.registries.get r))).Matches
      (w'.setRegistry r (f (w'.registries.get r))) := by
  refine h.setRegistry r ?_ (hcoherent _ (h.left r)) (hcoherent _ (h.right r))
  rw [hf, h.alike.registries r, ← hf]

/-- Both find the same definition, one perhaps in the cache and the other among all. -/
theorem lookup (n : ComponentName) :
    ((w.registries.get r).lookup n).1 = ((w'.registries.get r).lookup n).1 := by
  rw [(h.left r).lookup, (h.right r).lookup]
  exact h.ask r (f := fun s => s.definitions.get? n) fun _ => rfl

theorem after_lookup (n : ComponentName) :
    (w.setRegistry r ((w.registries.get r).lookup n).2).Matches
      (w'.setRegistry r ((w'.registries.get r).lookup n).2) := by
  refine h.change r (f := fun s => (s.lookup n).2) (fun s => ?_) fun s hs => hs.after_lookup n
  show (s.lookup n).2.clearCache = (s.clearCache.lookup n).2.clearCache
  rw [Registry.lookup_eq, Registry.lookup_eq (s := s.clearCache)]
  rfl

/-- To clear a cache on one side makes no difference. -/
theorem clear : w.Matches (w'.setRegistry r (w'.registries.get r).clearCache) where
  alike :=
    { h.alike with
      registries := fun r' => by
        rw [get_setRegistry]
        split
        · subst r'
          exact h.alike.registries r
        · exact h.alike.registries r' }
  left := h.left
  right := h.right.setRegistry r fun _ _ hd => by cases hd

end Matches

end World

/-! ## Runs that agree -/

/-- A moment at which a cache is cleared. -/
def Moment.isClearing : Moment H → Bool
  | .fact (.clearing _) | .fact (.cacheCleared ..) => true
  | _ => false

/-- All that happened but for the clearing of caches: the callbacks with their arguments and
answers, and everything that the library did. -/
def Journal.trace (j : Journal H) : List (Moment H) :=
  (Journal.moments j).filter fun m => !m.isClearing

theorem Journal.trace_append (j k : Journal H) : trace (j ++ k) = trace j ++ trace k := by
  rw [trace, moments_append, List.filter_append]
  rfl

theorem Journal.trace_scope (s : Scope H) (j : Journal H) :
    trace [.scope s j] = .opens s :: (trace j ++ [.closes s]) := by
  rw [trace, moments_scope, List.filter_cons_of_pos rfl, List.filter_append,
    List.filter_cons_of_pos rfl]
  rfl

/-- Two runs ended alike: with the same answer, in worlds that differ in their caches only, and
the same things happened on the way. -/
structure SameEnd {α : Type} (p p' : α × World H σ × Journal H) : Prop where
  answer : p.1 = p'.1
  world : p.2.1.Matches p'.2.1
  trace : Journal.trace p.2.2 = Journal.trace p'.2.2

/-- Two runs, begun in worlds that differ in their caches, end alike if they end at all. -/
def Run.Agrees {α : Type} (x x' : Run H σ α) : Prop :=
  ∀ w w', w.Matches w' → Option.Rel SameEnd (x w) (x' w')

namespace Run.Agrees

variable {α β : Type}

theorem pure (a : α) : Agrees (Pure.pure a : Run H σ α) (Pure.pure a) :=
  fun _ _ hw => .some ⟨rfl, hw, rfl⟩

theorem exceeded : Agrees (Run.exceeded : Run H σ α) Run.exceeded := fun _ _ _ => .none

theorem bind {x x' : Run H σ α} {f f' : α → Run H σ β} (hx : Agrees x x')
    (hf : ∀ a, Agrees (f a) (f' a)) : Agrees (x >>= f) (x' >>= f') := by
  intro w w' hw
  apply Run.rel_bind (hx w w' hw)
  · intro p p' _ hp
    rw [← hp.answer]
    exact hf p.1 p.2.1 p'.2.1 hp.world
  · intro p p' q q' hp hq
    have htrace : Journal.trace (p.2.2 ++ q.2.2) = Journal.trace (p'.2.2 ++ q'.2.2) := by
      rw [Journal.trace_append, Journal.trace_append, hp.trace, hq.trace]
    exact ⟨hq.answer, hq.world, htrace⟩

theorem ask {f : World H σ → α} (hf : ∀ w w', w.Matches w' → f w = f w') :
    Agrees (Run.ask f) (Run.ask f) := fun w w' hw => .some ⟨hf w w' hw, hw, rfl⟩

/-- After a look at the world it is enough to agree on what is seen in worlds that match. -/
theorem after_look {f : World H σ → α} {g g' : α → Run H σ β}
    (h : ∀ w w', w.Matches w' → Agrees (g (f w)) (g' (f w'))) :
    Agrees (Run.ask f >>= g) (Run.ask f >>= g') := by
  intro w w' hw
  rw [ask_bind, ask_bind]
  exact h w w' hw w w' hw

theorem fresh : Agrees (Run.fresh : Run H σ ObjectId) Run.fresh := fun _ _ hw =>
  .some ⟨hw.alike.next, ⟨{ hw.alike with next := congrArg (· + 1) hw.alike.next }, hw.left,
    hw.right⟩, rfl⟩

theorem record (f : Fact H) : Agrees (Run.record f : Run H σ Unit) (Run.record f) :=
  fun _ _ hw => .some ⟨rfl, hw, rfl⟩

theorem within (s : α → Scope H) {x x' : Run H σ α} (hx : Agrees x x') :
    Agrees (Run.within s x) (Run.within s x') := by
  intro w w' hw
  apply Run.rel_within (hx w w' hw)
  intro p p' hp
  constructor
  · exact hp.answer
  · exact hp.world
  · rw [Journal.trace_scope, Journal.trace_scope, hp.answer, hp.trace]

/-! ### Changes of a registry -/

theorem register (r : ObjectId) (d : Definition H) :
    Agrees (Registry.register r d : Run H σ _) (Registry.register r d) := by
  intro w w' hw
  rw [Registry.register_run, Registry.register_run]
  split
  · exact .some ⟨rfl, hw, rfl⟩
  · have hoverrides := hw.ask r (f := fun s => s.definitions.contains d.name) fun _ => rfl
    rw [hoverrides]
    exact .some ⟨rfl, hw.change r (f := (·.define d)) (fun _ => rfl) fun _ hs => hs.define d, rfl⟩

theorem remove (r : ObjectId) (n : ComponentName) :
    Agrees (Registry.remove r n : Run H σ _) (Registry.remove r n) := by
  intro w w' hw
  rw [Registry.remove_run, Registry.remove_run]
  rw [hw.ask r (f := fun s => s.definitions.get? n) fun _ => rfl]
  split
  · exact .some ⟨rfl, hw, rfl⟩
  · exact .some ⟨rfl, hw.change r (f := (·.undefine n)) (fun _ => rfl) fun _ hs => hs.undefine n,
      rfl⟩

theorem registerInstance (r : ObjectId) (n : ComponentName) (i : Instance H) :
    Agrees (Registry.registerInstance r n i : Run H σ _) (Registry.registerInstance r n i) := by
  intro w w' hw
  rw [Registry.registerInstance_run, Registry.registerInstance_run]
  rw [hw.ask r (f := fun s => s.singletons.contains n) fun _ => rfl]
  split
  · exact .some ⟨rfl, hw, rfl⟩
  · exact .some ⟨rfl, hw.change r (f := (·.keep n i)) (fun _ => rfl) fun _ hs => hs, rfl⟩

theorem install (v : View) (e : Extension H) :
    Agrees (v.install e : Run H σ Unit) (v.install e) := by
  intro w w' hw
  rw [View.install_run, View.install_run]
  split
  · rw [hw.ask v.registry (f := fun s => (s.install e).interceptors.length - 1) fun _ => rfl]
    exact .some ⟨rfl, hw.change v.registry (f := (·.install e)) (fun _ => rfl) fun _ hs => hs, rfl⟩
  · exact .some ⟨rfl, hw, rfl⟩

theorem clearCache (v : View) : Agrees (v.clearCache : Run H σ Unit) v.clearCache := by
  intro w w' hw
  rw [View.clearCache_run, View.clearCache_run]
  exact .some ⟨rfl, hw.change v.registry (f := (·.clearCache)) (fun _ => rfl)
    (fun _ _ _ _ hd => by cases hd), rfl⟩

/-- It makes no difference if a cache is cleared before the one run and not before the other. -/
theorem after_clearing {x x' : Run H σ α} (v : View) (hx : Agrees x x') :
    Agrees x (v.clearCache >>= fun _ => x') := by
  intro w w' hw
  have hrest := hx w _ (hw.clear v.registry)
  rw [bind_def, Run.bind, View.clearCache_run, Option.bind_some]
  generalize x w = o, x' (w'.setRegistry _ _) = o' at hrest ⊢
  cases hrest with
  | none => exact .none
  | some hp =>
    refine .some ⟨hp.answer, hp.world, ?_⟩
    rw [Journal.trace_append]
    exact hp.trace

/-! ### Creation -/

variable {call call' : Call H σ}

theorem create {r : ObjectId} {n : ComponentName} {d : Definition H}
    (hbuild : ∀ chain, Agrees (Creation.build call (.direct r) n d chain).run
      (Creation.build call' (.direct r) n d chain).run) :
    Agrees (Creation.create call r n d).run (Creation.create call' r n d).run := by
  intro w w' hw
  have hstack := hw.ask r (f := fun s => s.inCreation) fun _ => rfl
  have hchain := hw.ask r (f := fun s => s.interceptors) fun _ => rfl
  by_cases hin : n ∈ (w.registries.get r).inCreation
  · rw [Creation.create_refused call hin, Creation.create_refused call' (hstack ▸ hin), hstack]
    exact .some ⟨rfl, hw, rfl⟩
  · rw [Creation.create_begun call hin, Creation.create_begun call' (hstack ▸ hin), hstack, hchain]
    have hbegun := hw.change r (f := (·.beginCreation n)) (fun _ => rfl) fun _ hs => hs
    have hbuilt := within (.creation r n d (w'.registries.get r).inCreation
      (w'.registries.get r).interceptors) (hbuild (w'.registries.get r).interceptors) _ _ hbegun
    generalize Run.within _ _ (w.setRegistry r _) = o, Run.within _ _ (w'.setRegistry r _) = o'
      at hbuilt ⊢
    cases hbuilt with
    | none => exact .none
    | @some p p' hp =>
      rw [Option.map_some, Option.map_some, ← hp.answer]
      refine .some ⟨?_, ?_, hp.trace⟩
      · refine hp.world.ask r (f := fun s => (s.conclude n d p.1).1) fun s => ?_
        rw [Registry.conclude_clearCache]
      · refine hp.world.change r (f := fun s => (s.conclude n d p.1).2) (fun s => ?_) fun s hs => ?_
        · rw [Registry.conclude_clearCache]
          rfl
        · rw [Registry.conclude_eq]
          exact hs

theorem resolve (v : View) (n : ComponentName)
    (hbuild : ∀ d chain, Agrees (Creation.build call (.direct v.registry) n d chain).run
      (Creation.build call' (.direct v.registry) n d chain).run) :
    Agrees (v.resolve call n).run (v.resolve call' n).run := by
  intro w w' hw
  have hsingleton := hw.ask v.registry (f := fun s => s.singletons.get? n) fun _ => rfl
  have hlook := hw.lookup v.registry n
  cases hi : (w'.registries.get v.registry).singletons.get? n with
  | some i =>
    rw [View.resolve_cached call (hsingleton.trans hi), View.resolve_cached call' hi]
    exact .some ⟨rfl, hw, rfl⟩
  | none =>
    cases hd : ((w'.registries.get v.registry).lookup n).1 with
    | none =>
      rw [View.resolve_unknown call (hsingleton.trans hi) (hlook.trans hd),
        View.resolve_unknown call' hi hd]
      exact .some ⟨rfl, hw, rfl⟩
    | some d =>
      rw [View.resolve_defined call (hsingleton.trans hi) (hlook.trans hd),
        View.resolve_defined call' hi hd]
      exact within _ (create (hbuild d)) _ _ (hw.after_lookup v.registry n)

theorem apart : Apart World.Matches fun {α} (x x' : Run H σ α) => Agrees x x' where
  alike hw := hw.alike
  pure := pure
  bind := bind
  ask _ hf := ask hf
  fresh := fresh
  remember f _ _ hw := .some ⟨rfl, ⟨{ hw.alike with memory := congrArg f hw.alike.memory },
    hw.left, hw.right⟩, rfl⟩
  record f _ := record f
  within s _ _ _ hx := within s hx
  setContext c t _ _ hw := .some ⟨rfl, ⟨{ hw.alike with
    contexts := congrArg (·.set c t) hw.alike.contexts }, hw.left, hw.right⟩, rfl⟩
  setChecker i t _ _ hw := .some ⟨rfl, ⟨{ hw.alike with
    checkers := congrArg (·.set i t) hw.alike.checkers }, hw.left, hw.right⟩, rfl⟩
  setDetector i t _ _ hw := .some ⟨rfl, ⟨{ hw.alike with
    detectors := congrArg (·.set i t) hw.alike.detectors }, hw.left, hw.right⟩, rfl⟩

/-- All operations of the library agree, if the callbacks do. -/
theorem lockstep (hcall : ∀ cb, Agrees (call cb) (call' cb)) :
    Lockstep World.Matches call call' fun {α} (x x' : Run H σ α) => Agrees x x' :=
  apart.lockstep register remove registerInstance install clearCache (fun v n => resolve v n) hcall

end Run.Agrees

/-! ## Programs that clear caches -/

namespace Program

/-- The second program is the first one, but that it clears caches here and there. Neither goes by
what a cache holds: where they look at the world, they go on alike in worlds that are alike. -/
inductive Cleared {α : Type} : Program H σ α → Program H σ α → Prop
  | pure (a : α) : Cleared (.pure a) (.pure a)
  | look {β : Type} (f : World H σ → β) {next next' : β → Program H σ α}
      (h : ∀ w w', w.Alike w' → Cleared (next (f w)) (next' (f w'))) :
      Cleared (.ask (.look f) next) (.ask (.look f) next')
  | ask (q : Request H σ) (hq : q.Blind World.Alike) {next next' : q.Answer → Program H σ α}
      (h : ∀ a, Cleared (next a) (next' a)) : Cleared (.ask q next) (.ask q next')
  | clear (v : View) {x x' : Program H σ α} (h : Cleared x x') :
      Cleared x (.ask (.clearCache v) fun _ => x')

variable {α β : Type}

theorem Cleared.request (q : Request H σ) (hq : q.Blind World.Alike)
    {f f' : q.Answer → Program H σ α} (h : ∀ a, (f a).Cleared (f' a)) :
    (Program.request q >>= f).Cleared (Program.request q >>= f') :=
  .ask q hq h

theorem Cleared.bind {x x' : Program H σ α} {f f' : α → Program H σ β} (hx : x.Cleared x')
    (hf : ∀ a, (f a).Cleared (f' a)) : (x >>= f).Cleared (x' >>= f') := by
  simp only [bind_def]
  induction hx with
  | pure a => exact hf a
  | look f _ ih => exact .look f ih
  | ask q hq _ ih => exact .ask q hq ih
  | clear v _ ih => exact .clear v ih

theorem Cleared.agrees {x x' : Program H σ α} (h : x.Cleared x') {call call' : Call H σ}
    (hcall : ∀ cb, Run.Agrees (call cb) (call' cb)) (depth : Nat) :
    Run.Agrees (x.run call depth) (x'.run call' depth) := by
  induction h with
  | pure a => exact .pure a
  | look f _ ih => exact .after_look fun w w' hw => ih w w' hw.alike
  | ask q hq _ ih =>
    have hrequest := (Run.Agrees.lockstep hcall).request (fun _ => .exceeded) depth q
      (hq.mono fun _ _ hw => hw.alike)
    exact hrequest.bind ih
  | clear v _ ih => exact ih.after_clearing v

end Program

/-- The callbacks of two behaviours agree if the one is the other but for clearing of caches. -/
theorem Behaviour.agrees {b b' : Behaviour H σ} (h : ∀ cb, (b cb).Cleared (b' cb)) (depth : Nat)
    (cb : Callback H) : Run.Agrees (b.call depth cb) (b'.call depth cb) := by
  induction depth generalizing cb with
  | zero => exact .exceeded
  | succ depth ih => exact (h cb).agrees ih depth

/-- The cache of definitions is transparent. Let a program run among some callbacks, and let the
same program run among the same callbacks, but so that caches are cleared in addition, any number of
times, between operations and inside of callbacks. (What is remembered in the beginning is to be
registered, as it is in all registries that were empty once.) If the one run ends, the other does,
with the same answer, and in a world that differs in the caches only. The same callbacks were made,
with the same arguments and in the same order. In either run, every creation is from the definition
that was registered when the resolution of its name began. -/
theorem cache_transparent {b b' : Behaviour H σ} (hb : ∀ cb, (b cb).Cleared (b' cb)) (depth : Nat)
    {α : Type} {x x' : Program H σ α} (hx : x.Cleared x') {w : World H σ} (hw : w.Coherent) :
    Option.Rel SameEnd (b.run depth x w) (b'.run depth x' w) ∧
      (∀ r a w' j, b.run depth x w = some (a, w', j) →
        Journal.Current r (w.registries.get r) j) ∧
      ∀ r a w' j, b'.run depth x' w = some (a, w', j) →
        Journal.Current r (w.registries.get r) j := by
  refine ⟨?_, fun r a w' j hrun => ?_, fun r a w' j hrun => ?_⟩
  · exact hx.agrees (Behaviour.agrees hb depth) depth w w ⟨.of_eq rfl, hw, hw⟩
  · exact Journal.current_of_run b depth x r (hw r) hrun
  · exact Journal.current_of_run b' depth x' r (hw r) hrun

/-! ### A definition that is replaced inside of a callback -/

namespace Scenario

open Program (request Cleared)

/-- Create `b`, replace its definition, and create it again, with pauses in between. -/
def replaceBetween (pause : Program Scripted Memory Unit) (v : View) :
    Program Scripted Memory Unit := do
  let _ ← request (.resolve v ⟨"b"⟩)
  let _ ← pause
  let _ ← request (.register v.registry (wired .transient "b" ["c"]).toDefinition)
  let _ ← pause
  let _ ← request (.resolve v ⟨"b"⟩)

/-- The factory of `a` does that; those of other components do nothing but to pause. -/
def pausing (pause : Program Scripted Memory Unit) : Behaviour Scripted Memory
  | .create d v => do
    let _ ← if d.name = ⟨"a"⟩ then replaceBetween pause v else pause
    return .ok
      { id := 0, typeName := d.type.name, value := .unit, extension? := none, listener? := none }
  | .before _ _ i _ | .after _ _ i _ => return .ok i
  | .merged .. | .mutateDefinitions .. | .mutateFactory .. => return .ok ()
  | .event .. => return ()

/-- Create `a` and then, with a pause, `b` once more. -/
def createBoth (pause : Program Scripted Memory Unit) :
    Program Scripted Memory (Except DependencyError (Instance Scripted)) := do
  let _ ← request (.register Setup.base (wired .singleton "a" []).toDefinition)
  let _ ← request (.register Setup.base (wired .transient "b" []).toDefinition)
  let _ ← request (.resolve (.direct Setup.base) ⟨"a"⟩)
  let _ ← pause
  request (.resolve (.direct Setup.base) ⟨"b"⟩)

/-- To use a pause for clearing the cache. -/
def clearing : Program Scripted Memory Unit := request (.clearCache (.direct Setup.base))

section Pauses

variable {pause pause' : Program Scripted Memory Unit} (h : pause.Cleared pause')
include h

theorem replaceBetween_cleared (v : View) :
    (replaceBetween pause v).Cleared (replaceBetween pause' v) := by
  unfold replaceBetween
  refine .request _ (by trivial) fun _ => h.bind fun _ => ?_
  refine .request _ (by trivial) fun _ => h.bind fun _ => ?_
  exact .request _ (by trivial) fun _ => .pure ()

theorem pausing_cleared (cb : Callback Scripted) :
    (pausing pause cb).Cleared (pausing pause' cb) := by
  cases cb with
  | create d v =>
    rw [pausing, pausing]
    split
    · exact (replaceBetween_cleared h v).bind fun _ => .pure _
    · exact h.bind fun _ => .pure _
  | before | after | merged | mutateDefinitions | mutateFactory | event => exact .pure _

theorem createBoth_cleared : (createBoth pause).Cleared (createBoth pause') := by
  unfold createBoth
  refine .request _ (by trivial) fun _ => .request _ (by trivial) fun _ => ?_
  refine .request _ (by trivial) fun _ => h.bind fun _ => ?_
  exact .ask _ (by trivial) fun a => .pure a

end Pauses

theorem world_coherent (s : Setup) : s.world.Coherent := by
  intro r n d hd
  rw [Setup.world, Table.get_set] at hd
  split at hd <;> cases hd

/-- A run with pauses of a kind, in a new registry. -/
def pausedRun (pause : Program Scripted Memory Unit) :
    Option (Except DependencyError (Instance Scripted) × World Scripted Memory ×
      Journal Scripted) :=
  (pausing pause).run 3 (createBoth pause) (Setup.world {})

/-- The names of the definitions that are remembered. -/
def remembered (w : World Scripted Memory) : List String :=
  (w.registries.get Setup.base).merged.keys.map (·.text)

theorem remembered_pausedRun :
    (pausedRun (pure ())).map (fun p => (p.1.isOk, remembered p.2.1)) = some (true, ["a", "b"]) ∧
      (pausedRun clearing).map (fun p => (p.1.isOk, remembered p.2.1)) = some (true, []) := by
  decide +kernel

/-- The cache is cleared between the operations and in the callbacks, and even in that of the
component that is looked up last, so nothing is remembered in the end. There is no other difference
to the run in which nothing is cleared. -/
theorem pausedRun_transparent : ∃ a w w' j j',
    pausedRun (pure ()) = some (a, w, j) ∧ pausedRun clearing = some (a, w', j') ∧
      remembered w = ["a", "b"] ∧ remembered w' = [] ∧
      SameEnd (a, w, j) (a, w', j') ∧
      (∀ r, Journal.Current r ((Setup.world {}).registries.get r) j) ∧
      ∀ r, Journal.Current r ((Setup.world {}).registries.get r) j' := by
  have hpause : Cleared (pure ()) clearing := .clear _ (.pure ())
  obtain ⟨hends, hleft, hright⟩ := cache_transparent (pausing_cleared hpause) 3
    (createBoth_cleared hpause) (world_coherent {})
  obtain ⟨hplain, hcleared⟩ := remembered_pausedRun
  obtain ⟨⟨a, w, j⟩, hrun, hw⟩ := Option.map_eq_some_iff.1 hplain
  obtain ⟨⟨a', w', j'⟩, hrun', hw'⟩ := Option.map_eq_some_iff.1 hcleared
  have hend : SameEnd (a, w, j) (a', w', j') := by
    have hboth : Option.Rel SameEnd (pausedRun (pure ())) (pausedRun clearing) := hends
    rw [hrun, hrun'] at hboth
    cases hboth with
    | some h => exact h
  obtain rfl : a = a' := hend.answer
  exact ⟨a, w, w', j, j', hrun, hrun', (Prod.mk.inj hw).2, (Prod.mk.inj hw').2, hend,
    fun r => hleft r a w j hrun, fun r => hright r a w' j' hrun'⟩

end Scenario

end Startup
