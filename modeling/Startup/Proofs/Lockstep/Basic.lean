import Startup.Calling
import Startup.Registry.Creation

/-!
Two runs of the library side by side. The runs are given different callbacks, and they start in
different worlds. Of the worlds it is known only that they are alike: they differ in nothing but
what their registries remember of the definitions, so no operation of the library can tell them
apart by asking.

`Lockstep W call call' R` says that a relation `R` between runs holds of the primitive operations in
worlds that are related by `W`, of the callbacks that `call` and `call'` answer, and of sequences
whose parts are related. Then every operation of the library among the ones is related to the same
operation among the others.

Primitive is what changes a part of the world that others see: a registry, the two interceptors of
the library and what they answer, a context. Resolution is primitive as far as it only surrounds the
building of an instance, and a broadcast as far as it only surrounds the calls of listeners: what a
relation says about the creation of a component, or about who is told of an event, is said in one
place. A relation that does not look at interceptors and contexts is `Apart`, and for such a one
there is less to show.

Main statement: `Apart.lockstep`, what there is to show of a relation that does not look at
interceptors and contexts.
-/

namespace Startup

variable {H : Host} {σ : Type}

/-! ## Worlds that are alike -/

/-- Two worlds differ in nothing but the definitions that their registries remember. -/
structure World.Alike (w w' : World H σ) : Prop where
  next : w.next = w'.next
  registries : ∀ r, (w.registries.get r).clearCache = (w'.registries.get r).clearCache
  contexts : w.contexts = w'.contexts
  checkers : w.checkers = w'.checkers
  detectors : w.detectors = w'.detectors
  memory : w.memory = w'.memory

theorem World.Alike.of_eq {w w' : World H σ} (h : w = w') : w.Alike w' := by
  subst h
  exact ⟨rfl, fun _ => rfl, rfl, rfl, rfl, rfl⟩

/-- What does not depend on the cache is the same in worlds that are alike. -/
theorem World.Alike.ask {α : Type} {w w' : World H σ} (h : w.Alike w') (r : ObjectId)
    {f : Registry H → α} (hf : ∀ s, f s.clearCache = f s) :
    f (w.registries.get r) = f (w'.registries.get r) := by
  rw [← hf, h.registries r, hf]

/-! ## Two runs that may end -/

section Ends

variable {α α' β β' : Type} {w w' : World H σ}
  {P : α × World H σ × Journal H → α' × World H σ × Journal H → Prop}

/-- One pair of runs after another: what holds of their ends is put together from what holds of the
ends of each pair. -/
theorem Run.rel_bind {Q R : β × World H σ × Journal H → β' × World H σ × Journal H → Prop}
    {x : Run H σ α} {x' : Run H σ α'} {f : α → Run H σ β} {f' : α' → Run H σ β'}
    (hx : Option.Rel P (x w) (x' w'))
    (hf : ∀ p p', x w = some p → P p p' → Option.Rel Q (f p.1 p.2.1) (f' p'.1 p'.2.1))
    (hR : ∀ p p' q q', P p p' → Q q q' →
      R (q.1, q.2.1, p.2.2 ++ q.2.2) (q'.1, q'.2.1, p'.2.2 ++ q'.2.2)) :
    Option.Rel R ((x >>= f) w) ((x' >>= f') w') := by
  rw [bind_def, bind_def, Run.bind, Run.bind]
  generalize x w = o, x' w' = o' at hx hf
  cases hx with
  | none => exact .none
  | @some p p' hp =>
    have hrest := hf p p' rfl hp
    rw [Option.bind_some, Option.bind_some]
    generalize f p.1 p.2.1 = o, f' p'.1 p'.2.1 = o' at hrest
    cases hrest with
    | none => exact .none
    | @some q q' hq => exact .some (hR p p' q q' hp hq)

theorem Run.rel_within {Q : α × World H σ × Journal H → α' × World H σ × Journal H → Prop}
    {s : α → Scope H} {s' : α' → Scope H} {x : Run H σ α} {x' : Run H σ α'}
    (hx : Option.Rel P (x w) (x' w'))
    (hQ : ∀ p p', P p p' →
      Q (p.1, p.2.1, [.scope (s p.1) p.2.2]) (p'.1, p'.2.1, [.scope (s' p'.1) p'.2.2])) :
    Option.Rel Q (Run.within s x w) (Run.within s' x' w') := by
  rw [Run.within, Run.within]
  generalize x w = o, x' w' = o' at hx
  cases hx with
  | none => exact .none
  | @some p p' hp => exact .some (hQ p p' hp)

end Ends

/-! ## Facts and activities -/

/-- A fact that tells nothing of the state of a registry. -/
def Fact.IsAside : Fact H → Prop
  | .defined .. | .removed .. | .instanceKept .. | .installed .. | .cacheCleared .. => False
  | _ => True

/-- An activity that is no resolution and no creation. -/
def Scope.IsAside : Scope H → Prop
  | .resolution .. | .creation .. => False
  | _ => True

/-- An interceptor of the library itself. -/
def ExtensionBody.IsOwn : ExtensionBody H → Prop
  | .code _ => False
  | .checker | .detector => True

/-- A callback that the library answers itself, in one of its own interceptors. -/
def Callback.IsOwn : Callback H → Prop
  | .merged e .. | .before e .. | .after e .. => e.body.IsOwn
  | _ => False

/-- A fact that tells nothing of the state of a registry, and is no call to install something. -/
def Fact.IsApart : Fact H → Prop
  | .installing .. => False
  | f => f.IsAside

/-- A fact that tells nothing of a registry, an interceptor of the library or a context. -/
def Fact.IsPlain : Fact H → Prop
  | .bypassed .. | .listenerAdded .. | .listenerKnown .. | .listenerUnreachable _ => False
  | f => f.IsApart

/-- An activity that is no resolution, no creation, no broadcast and no call of the library's
interceptors. -/
def Scope.IsPlain : Scope H → Prop
  | .call cb _ => ¬ cb.IsOwn
  | .publication .. => False
  | s => s.IsAside

theorem Fact.IsApart.aside {f : Fact H} (h : f.IsApart) : f.IsAside := by
  cases f <;> first | exact h | trivial

theorem Fact.IsPlain.apart {f : Fact H} (h : f.IsPlain) : f.IsApart := by
  cases f <;> first | exact h | trivial

theorem Scope.IsPlain.aside {s : Scope H} (h : s.IsPlain) : s.IsAside := by
  cases s <;> first | exact h | trivial

/-! ## Relations between runs -/

/-- A relation between runs that sequences inherit. The runs ask what has the same answer in related
worlds. -/
structure Paired (W : World H σ → World H σ → Prop)
    (R : {α : Type} → Run H σ α → Run H σ α → Prop) : Prop where
  alike : ∀ {w w' : World H σ}, W w w' → w.Alike w'
  pure : ∀ {α : Type} (a : α), R (pure a) (pure a)
  bind : ∀ {α β : Type} {x x' : Run H σ α} {f f' : α → Run H σ β}, R x x' →
    (∀ a, R (f a) (f' a)) → R (x >>= f) (x' >>= f')
  ask : ∀ {α : Type} (f : World H σ → α), (∀ w w', W w w' → f w = f w') →
    R (Run.ask f) (Run.ask f)
  fresh : R Run.fresh Run.fresh
  remember : ∀ f : σ → σ, R (Run.change fun w => { w with memory := f w.memory })
    (Run.change fun w => { w with memory := f w.memory })

/-- A relation that holds of the primitive operations and of the callbacks. -/
structure Lockstep (W : World H σ → World H σ → Prop) (call call' : Call H σ)
    (R : {α : Type} → Run H σ α → Run H σ α → Prop) : Prop extends Paired W R where
  record : ∀ f : Fact H, f.IsPlain → R (Run.record f) (Run.record f)
  within : ∀ {α : Type} (s : α → Scope H) {x x' : Run H σ α}, (∀ a, (s a).IsPlain) → R x x' →
    R (Run.within s x) (Run.within s x')
  register : ∀ r d, R (Registry.register r d) (Registry.register r d)
  remove : ∀ r n, R (Registry.remove r n) (Registry.remove r n)
  registerInstance : ∀ r n i, R (Registry.registerInstance r n i) (Registry.registerInstance r n i)
  install : ∀ v e, R (View.install v e) (View.install v e)
  clearCache : ∀ v, R (View.clearCache v) (View.clearCache v)
  resolve : ∀ v n,
    (∀ d chain, R (Creation.build call (.direct v.registry) n d chain).run
      (Creation.build call' (.direct v.registry) n d chain).run) →
    R (View.resolve call v n).run (View.resolve call' v n).run
  newChecker : ∀ target, R (Checker.create target) (Checker.create target)
  newDetector : ∀ context, R (Detector.create context) (Detector.create context)
  own : ∀ cb : Callback H, cb.IsOwn → R (cb.perform call) (cb.perform call')
  addListener : ∀ c n l, R (Context.addListener c n l) (Context.addListener c n l)
  publish : ∀ c e, (∀ ls, R (Context.tell call e ls) (Context.tell call' e ls)) →
    R (Context.publish call c e) (Context.publish call' c e)
  call : ∀ cb, R (call cb) (call' cb)

/-- A relation that holds of everything that leaves the registries alone. -/
structure Apart (W : World H σ → World H σ → Prop)
    (R : {α : Type} → Run H σ α → Run H σ α → Prop) : Prop extends Paired W R where
  record : ∀ f : Fact H, f.IsApart → R (Run.record f) (Run.record f)
  within : ∀ {α : Type} (s : α → Scope H) {x x' : Run H σ α}, (∀ a, (s a).IsAside) → R x x' →
    R (Run.within s x) (Run.within s x')
  setContext : ∀ c s, R (Run.setContext c s) (Run.setContext c s)
  setChecker : ∀ i s, R (Run.setChecker i s) (Run.setChecker i s)
  setDetector : ∀ i s, R (Run.setDetector i s) (Run.setDetector i s)

/-! ## Attempts and questions -/

namespace Paired

variable {W : World H σ → World H σ → Prop} {R : {α : Type} → Run H σ α → Run H σ α → Prop}
  (h : Paired W R)
include h

section Attempts

variable {ε ε' α β : Type}

theorem attempt_pure (a : α) :
    R (Pure.pure a : Attempt H σ ε α).run (Pure.pure a : Attempt H σ ε α).run := h.pure _

theorem attempt_throw (e : ε) :
    R (throw e : Attempt H σ ε α).run (throw e : Attempt H σ ε α).run := h.pure _

theorem attempt_bind {x x' : Attempt H σ ε α} {f f' : α → Attempt H σ ε β} (hx : R x.run x'.run)
    (hf : ∀ a, R (f a).run (f' a).run) : R (x >>= f).run (x' >>= f').run := by
  rw [Attempt.run_bind, Attempt.run_bind]
  refine h.bind hx fun r => ?_
  cases r with
  | ok a => exact hf a
  | error e => exact h.pure _

theorem map {x x' : Run H σ α} (f : α → β) (hx : R x x') : R (f <$> x) (f <$> x') := by
  rw [← bind_pure_comp, ← bind_pure_comp]
  exact h.bind hx fun _ => h.pure _

theorem always {x x' : Run H σ α} (hx : R x x') :
    R (Attempt.always x : Attempt H σ ε α).run (Attempt.always x' : Attempt H σ ε α).run :=
  h.map _ hx

theorem blame {f : ε → ε'} {x x' : Attempt H σ ε α} (hx : R x.run x'.run) :
    R (x.blame f).run (x'.blame f).run :=
  h.map _ hx

end Attempts

/-- A question to a registry whose answer does not depend on the cache. -/
theorem question {α : Type} (r : ObjectId) {f : Registry H → α} (hf : ∀ s, f s.clearCache = f s) :
    R (Run.registry r >>= fun s => Pure.pure (f s)) (Run.registry r >>= fun s => Pure.pure (f s)) :=
  h.ask (fun w => f (w.registries.get r)) fun _ _ hw => (h.alike hw).ask r hf

theorem isMatch (v : View) (n : ComponentName) (c : Capability) :
    R (v.isMatch n c) (v.isMatch n c) :=
  h.question v.registry fun _ => rfl

theorem role? (v : View) (n : ComponentName) : R (v.role? n) (v.role? n) :=
  h.question v.registry fun _ => rfl

theorem interceptorCount (v : View) : R v.interceptorCount v.interceptorCount :=
  h.question v.registry fun _ => rfl

theorem comparator? (v : View) : R v.comparator? v.comparator? :=
  h.question v.registry fun _ => rfl

theorem context (c : ObjectId) : R (Run.context c) (Run.context c) :=
  h.ask _ fun _ _ hw => by rw [(h.alike hw).contexts]

theorem checker (i : ObjectId) : R (Run.checker i) (Run.checker i) :=
  h.ask _ fun _ _ hw => by rw [(h.alike hw).checkers]

theorem detector (i : ObjectId) : R (Run.detector i) (Run.detector i) :=
  h.ask _ fun _ _ hw => by rw [(h.alike hw).detectors]

end Paired

/-! ## The interceptors of the library -/

/-- What the library answers itself: the checker is asked about finished instances, the detector is
shown definitions and asked about finished instances, and all else is handed on as it came. -/
theorem Callback.perform_own {R : {α : Type} → Run H σ α → Run H σ α → Prop}
    (call call' : Call H σ)
    (hbefore : ∀ e v i n,
      R (Run.within (fun a => .call (.before e v i n) a) (Pure.pure (.ok i)))
        (Run.within (fun a => .call (.before e v i n) a) (Pure.pure (.ok i))))
    (hpassed : ∀ id name tier views d n,
      R (perform call (.merged ⟨id, name, tier, views, .checker⟩ d n))
        (perform call' (.merged ⟨id, name, tier, views, .checker⟩ d n)))
    (hchecked : ∀ id name tier views v i n,
      R (perform call (.after ⟨id, name, tier, views, .checker⟩ v i n))
        (perform call' (.after ⟨id, name, tier, views, .checker⟩ v i n)))
    (hshown : ∀ id name tier views d n,
      R (perform call (.merged ⟨id, name, tier, views, .detector⟩ d n))
        (perform call' (.merged ⟨id, name, tier, views, .detector⟩ d n)))
    (hasked : ∀ id name tier views v i n,
      R (perform call (.after ⟨id, name, tier, views, .detector⟩ v i n))
        (perform call' (.after ⟨id, name, tier, views, .detector⟩ v i n)))
    (cb : Callback H) (hcb : cb.IsOwn) : R (cb.perform call) (cb.perform call') := by
  cases cb with
  | create | mutateDefinitions | mutateFactory | event => exact hcb.elim
  | merged e d n =>
    obtain ⟨id, name, tier, views, _ | _ | _⟩ := e
    · exact hcb.elim
    · exact hpassed id name tier views d n
    · exact hshown id name tier views d n
  | before e v i n =>
    obtain ⟨id, name, tier, views, _ | _ | _⟩ := e
    · exact hcb.elim
    · exact hbefore ⟨id, name, tier, views, .checker⟩ v i n
    · exact hbefore ⟨id, name, tier, views, .detector⟩ v i n
  | after e v i n =>
    obtain ⟨id, name, tier, views, _ | _ | _⟩ := e
    · exact hcb.elim
    · exact hchecked id name tier views v i n
    · exact hasked id name tier views v i n

namespace Paired

variable {W : World H σ → World H σ → Prop} {R : {α : Type} → Run H σ α → Run H σ α → Prop}
  (h : Paired W R)
include h

theorem checker_after
    (hrecord : ∀ id n typeName installed target,
      R (Run.record (.bypassed id n typeName installed target))
        (Run.record (.bypassed id n typeName installed target)))
    (hset : ∀ id s, R (Run.setChecker id s) (Run.setChecker id s))
    (id : ObjectId) (v : View) (i : Instance H) (n : ComponentName) :
    R (Checker.after id v i n) (Checker.after id v i n) := by
  refine h.bind (h.role? v n) fun role => ?_
  split
  · refine h.bind (h.interceptorCount v) fun installed => h.bind (h.checker id) fun c => ?_
    split
    · exact h.bind (hrecord _ _ _ _ _) fun _ => hset _ _
    · exact h.pure _
  · exact h.pure _

section Detector

variable (hset : ∀ id s, R (Run.setDetector id s) (Run.setDetector id s))
include hset

theorem detector_merged (id : ObjectId) (d : Definition H) (n : ComponentName) :
    R (Detector.merged id d n) (Detector.merged id d n) :=
  h.bind (h.detector id) fun _ => hset _ _

theorem detector_after
    (hrecord : ∀ n, R (Run.record (.listenerUnreachable n)) (Run.record (.listenerUnreachable n)))
    (hadd : ∀ c n l, R (Context.addListener c n l) (Context.addListener c n l))
    (id : ObjectId) (i : Instance H) (n : ComponentName) :
    R (Detector.after id i n) (Detector.after id i n) := by
  unfold Detector.after
  split
  · exact h.pure _
  · refine h.bind (h.detector id) fun s => ?_
    split
    · exact hadd _ _ _
    · exact h.bind (hrecord _) fun _ => hset _ _
    · exact h.pure _

end Detector

end Paired

namespace Apart

variable {W : World H σ → World H σ → Prop} {R : {α : Type} → Run H σ α → Run H σ α → Prop}
  (h : Apart W R)
include h

theorem addListener (c : ObjectId) (n : ComponentName) (l : Listener H) :
    R (Context.addListener c n l) (Context.addListener c n l) := by
  refine h.bind (h.context c) fun s => ?_
  split
  · exact h.record _ trivial
  · exact h.bind (h.record _ trivial) fun _ => h.setContext _ _

theorem newChecker (target : Nat) : R (Checker.create target) (Checker.create target) :=
  h.bind h.fresh fun _ => h.bind (h.setChecker _ _) fun _ => h.pure _

theorem newDetector (context : ObjectId) : R (Detector.create context) (Detector.create context) :=
  h.bind h.fresh fun _ => h.bind (h.setDetector _ _) fun _ => h.pure _

theorem publish {call call' : Call H σ} (c : ObjectId) (e : ContainerEvent)
    (htell : ∀ ls, R (Context.tell call e ls) (Context.tell call' e ls)) :
    R (Context.publish call c e) (Context.publish call' c e) :=
  h.bind (h.context c) fun _ => h.within _ (fun _ => trivial) (htell _)

/-- What the library's own interceptors answer. -/
theorem own (call call' : Call H σ) (cb : Callback H) (hcb : cb.IsOwn) :
    R (cb.perform call) (cb.perform call') := by
  have hcall {cb : Callback H} {x x' : Run H σ cb.Answer} (hx : R x x') :
      R (Run.within (fun a => .call cb a) x) (Run.within (fun a => .call cb a) x') :=
    h.within _ (fun _ => trivial) hx
  refine Callback.perform_own call call' (fun _ _ _ _ => hcall (h.pure _))
    (fun _ _ _ _ _ _ => hcall (h.pure _)) ?_ ?_ ?_ cb hcb
  · intro id name tier views v i n
    have hafter := h.checker_after (fun _ _ _ _ _ => h.record _ trivial) h.setChecker id v i n
    exact hcall (h.bind hafter fun _ => h.pure _)
  · intro id name tier views d n
    exact hcall (h.bind (h.detector_merged h.setDetector id d n) fun _ => h.pure _)
  · intro id name tier views v i n
    have hafter := h.detector_after h.setDetector (fun _ => h.record _ trivial) h.addListener id i n
    exact hcall (h.bind hafter fun _ => h.pure _)

/-- Operations on registries, and callbacks, are all that is left to relate. -/
theorem lockstep {call call' : Call H σ}
    (hregister : ∀ r d, R (Registry.register r d) (Registry.register r d))
    (hremove : ∀ r n, R (Registry.remove r n) (Registry.remove r n))
    (hinstance : ∀ r n i, R (Registry.registerInstance r n i) (Registry.registerInstance r n i))
    (hinstall : ∀ v e, R (View.install v e) (View.install v e))
    (hclear : ∀ v, R (View.clearCache v) (View.clearCache v))
    (hresolve : ∀ v n,
      (∀ d chain, R (Creation.build call (.direct v.registry) n d chain).run
        (Creation.build call' (.direct v.registry) n d chain).run) →
      R (View.resolve call v n).run (View.resolve call' v n).run)
    (hcall : ∀ cb, R (call cb) (call' cb)) : Lockstep W call call' R where
  toPaired := h.toPaired
  record f hf := h.record f hf.apart
  within s _ _ hs hx := h.within s (fun a => (hs a).aside) hx
  register := hregister
  remove := hremove
  registerInstance := hinstance
  install := hinstall
  clearCache := hclear
  resolve := hresolve
  call := hcall
  newChecker := h.newChecker
  newDetector := h.newDetector
  own := h.own call call'
  addListener := h.addListener
  publish := h.publish

end Apart

end Startup
