import Startup.Proofs.Lockstep.Pipeline
import Startup.Program

/-!
Containers side by side, and whatever else a program may ask for: the registration of interceptors,
broadcasts, start-ups and builders.

Main statement: `Lockstep.request`, that all requests are related, unless one looks at a difference
between the worlds.
-/

namespace Startup

variable {H : Host} {σ : Type}

/-! ## Requests that see no difference -/

/-- A request that has the same answer in worlds that are related by `W`, if it is answered by a
look at the world at all. -/
def Request.Blind (W : World H σ → World H σ → Prop) : Request H σ → Prop
  | .look f => ∀ w w', W w w' → f w = f w'
  | _ => True

theorem Request.Blind.mono {W W' : World H σ → World H σ → Prop} {q : Request H σ}
    (h : q.Blind W) (hW : ∀ w w', W' w w' → W w w') : q.Blind W' := by
  cases q <;> first | exact fun w w' hw => h w w' (hW w w' hw) | trivial

theorem Request.blind_eq (q : Request H σ) : q.Blind (· = ·) := by
  cases q <;> first | exact fun w w' hw => congrArg _ hw | trivial

namespace Lockstep

variable {W : World H σ → World H σ → Prop} {call call' : Call H σ}
  {R : {α : Type} → Run H σ α → Run H σ α → Prop} (h : Lockstep W call call' R)
include h

/-! ## Registration and containers -/

section Containers

variable (v : View)

theorem installTier (t : TierClass) (tier : List (Extension H)) :
    R (Registration.installTier v t tier) (Registration.installTier v t tier) :=
  h.bind (h.sort v tier) fun sorted => h.bind (h.record _ trivial) fun _ =>
    h.bind (h.installAll v sorted) fun _ => h.pure _

theorem relocate (es : List (Extension H)) :
    R (Registration.relocate v es) (Registration.relocate v es) :=
  h.bind (h.sort v es) fun sorted => h.bind (h.record _ trivial) fun _ => h.installAll v sorted

theorem fetchTier (names : List ComponentName) :
    R (Registration.fetchTier call v names).run (Registration.fetchTier call' v names).run :=
  h.blame (h.fetchAll v _ names)

theorem installNamed (names : List ComponentName) :
    R (Registration.installNamed call v names).run
      (Registration.installNamed call' v names).run := by
  refine h.attempt_bind (h.blame (h.divide v _ _ names)) fun tiers => ?_
  refine h.attempt_bind (h.always (h.installTier v _ _)) fun _ => ?_
  refine h.attempt_bind (h.fetchTier v _) fun _ => ?_
  refine h.attempt_bind (h.always (h.installTier v _ _)) fun _ => ?_
  refine h.attempt_bind (h.fetchTier v _) fun _ => ?_
  exact h.attempt_bind (h.always (h.installTier v _ _)) fun _ => h.attempt_pure _

theorem registerInterceptors (context : ObjectId) :
    R (v.registerInterceptors call context).run (v.registerInterceptors call' context).run := by
  refine h.attempt_within (fun _ => trivial) ?_
  refine h.attempt_bind (h.always (h.names v _ _ _)) fun names => ?_
  refine h.attempt_bind (h.always (h.interceptorCount v)) fun count => ?_
  refine h.attempt_bind (h.always (h.record _ trivial)) fun _ => ?_
  refine h.attempt_bind (h.always (h.newChecker _)) fun checker => ?_
  refine h.attempt_bind (h.always (h.install v checker)) fun _ => ?_
  refine h.attempt_bind (h.installNamed v names) fun installed => ?_
  refine h.attempt_bind (h.always (h.relocate v _)) fun _ => ?_
  refine h.attempt_bind (h.always (h.newDetector _)) fun detector => ?_
  refine h.attempt_bind (h.always (h.install v detector)) fun _ => ?_
  refine h.attempt_bind (h.always (h.interceptorCount v)) fun total => ?_
  exact h.attempt_bind (h.always (h.record _ trivial)) fun _ => h.attempt_pure _

theorem tell (x : ContainerEvent) (ls : List (Listener H)) :
    R (Context.tell call x ls) (Context.tell call' x ls) := by
  induction ls with
  | nil => exact h.pure _
  | cons l rest ih => exact h.bind (h.perform _) fun _ => ih

theorem publication (c : ObjectId) (x : ContainerEvent) :
    R (Context.publish call c x) (Context.publish call' c x) :=
  h.publish c x (h.tell x)

theorem close (c : Container H) : R (c.close call) (c.close call') :=
  h.bind (h.record _ trivial) fun _ => h.publication _ _

theorem populate (settings : StartSettings) :
    R (Container.populate call v settings).run (Container.populate call' v settings).run := by
  unfold Container.populate
  split
  · exact h.blame (h.preinstantiate v)
  · exact h.always (h.record _ trivial)

/-- The number of components is no matter of the cache. -/
theorem componentCount (c : Container H) {w w' : World H σ} (hw : W w w') :
    c.componentCount w = c.componentCount w' :=
  (h.alike hw).ask c.view.registry
    (f := fun s => if c.view.writable then s.definitions.size else 0) fun _ => rfl

theorem announcement (settings : StartSettings) (c : Container H) :
    R (c.announce call settings) (c.announce call' settings) := by
  unfold Container.announce
  split
  · exact h.bind (h.ask _ fun _ _ => h.componentCount c) fun _ => h.publication _ _
  · exact h.pure _

section Start

variable {depth : Nat}
  (hrounds : ∀ s, R ((Pipeline.fixedPoint call v depth).on s)
    ((Pipeline.fixedPoint call' v depth).on s))
include hrounds

theorem mutate (supplied : List (Extension H)) :
    R (Container.mutate call v depth supplied).run
      (Container.mutate call' v depth supplied).run := by
  refine h.attempt_bind (h.always (h.pipeline v hrounds supplied)) fun p => ?_
  rcases p with ⟨_ | _, _⟩
  · exact h.attempt_throw _
  · exact h.attempt_pure _

theorem prepare (settings : StartSettings) (supplied : List (Extension H)) :
    R (Container.prepare call v depth settings supplied).run
      (Container.prepare call' v depth settings supplied).run := by
  refine h.attempt_bind (h.mutate v hrounds supplied) fun report => ?_
  refine h.attempt_bind (h.always h.fresh) fun context => ?_
  refine h.attempt_bind (h.blame (h.registerInterceptors v context)) fun registration => ?_
  exact h.attempt_bind (h.populate v settings) fun _ => h.attempt_pure _

theorem start (settings : StartSettings) (supplied : List (Extension H)) :
    R (Container.start call v depth settings supplied).run
      (Container.start call' v depth settings supplied).run := by
  refine h.attempt_within (fun _ => trivial) (h.bind (h.record _ trivial) fun _ => ?_)
  refine h.bind (h.attempt_bind (h.prepare v hrounds settings supplied) fun c => ?_) fun r => ?_
  · exact h.attempt_bind (h.always (h.announcement settings c)) fun _ =>
      h.attempt_bind (h.always (h.record _ trivial)) fun _ => h.attempt_pure _
  · cases r with
    | ok c => exact h.bind (h.pure _) fun _ => h.pure _
    | error e => exact h.bind (h.record _ trivial) fun _ => h.pure _

end Start

theorem builderStep (b : Builder H) (x : BuildStep H) :
    R (b.step x).run (b.step x).run := by
  cases x with
  | extension e => exact h.attempt_bind (h.always (h.record _ trivial)) fun _ => h.attempt_pure _
  | config c => exact h.pure _
  | document text =>
    simp only [Builder.step]
    split
    · exact h.pure _
    · exact h.attempt_throw _
  | configFile f =>
    refine h.attempt_bind (h.always (h.record _ trivial)) fun _ => ?_
    dsimp only
    cases f.read with
    | ok c =>
      split
      · exact h.attempt_bind (h.always (h.record _ trivial)) fun _ => h.pure _
      · exact h.pure _
    | error e =>
      split
      · exact h.attempt_bind (h.always (h.record _ trivial)) fun _ => h.attempt_throw _
      · exact h.attempt_throw _
  | preinstantiate x => exact h.attempt_pure _
  | announce x => exact h.attempt_pure _
  | logging c => exact h.attempt_pure _

theorem builderSteps (b : Builder H) (l : List (BuildStep H)) :
    R (b.steps l).run (b.steps l).run := by
  induction l generalizing b with
  | nil => exact h.attempt_pure _
  | cons x rest ih => exact h.attempt_bind (h.builderStep b x) fun b' => ih b'

theorem builder {depth : Nat}
    (hrounds : ∀ v s, R ((Pipeline.fixedPoint call v depth).on s)
      ((Pipeline.fixedPoint call' v depth).on s))
    (v? : Option View) (l : List (BuildStep H)) :
    R (Builder.build call depth v? l).run (Builder.build call' depth v? l).run := by
  refine h.attempt_bind (h.builderSteps {} l) fun b => ?_
  split
  · exact h.attempt_throw _
  · refine h.attempt_bind (h.always ?_) fun v => h.start v (hrounds v) _ _
    cases v? with
    | some v => exact h.pure _
    | none => exact h.bind h.fresh fun _ => h.pure _

end Containers

/-! ## Requests -/

/-- Whatever a program may ask for is related, unless it looks at a difference. -/
theorem request (hexceeded : ∀ α : Type, R (Run.exceeded : Run H σ α) Run.exceeded) (depth : Nat)
    (q : Request H σ) (hq : q.Blind W) : R (q.run call depth) (q.run call' depth) := by
  have hrounds := fun v => h.fixedPoint v hexceeded depth
  cases q with
  | look f => exact h.ask f hq
  | remember f => exact h.remember f
  | note x => exact h.record _ trivial
  | fresh => exact h.fresh
  | names v c all eager => exact h.names v c all eager
  | register r d => exact h.register r d
  | remove r n => exact h.remove r n
  | registerInstance r n i => exact h.registerInstance r n i
  | install v e => exact h.install v e
  | installAll v es => exact h.installAll v es
  | clearCache v => exact h.clearCache v
  | resolve v n => exact h.resolution v n
  | fetch v n c => exact h.fetch v n c
  | preinstantiate v => exact h.preinstantiate v
  | perform cb => exact h.perform cb
  | newChecker target => exact h.newChecker target
  | newDetector context => exact h.newDetector context
  | addListener context n l => exact h.addListener context n l
  | publish context e => exact h.publication context e
  | invoke v supplied => exact h.pipeline v (hrounds v) supplied
  | registerInterceptors v context => exact h.registerInterceptors v context
  | start v supplied => exact h.start v (hrounds v) _ supplied
  | build v? steps => exact h.builder hrounds v? steps
  | close c => exact h.close c

end Lockstep

end Startup
