import Startup.Proofs.Lockstep.Basic
import Startup.Ordering

/-!
Operations of a registry side by side: callbacks, the building of an instance, everything that
fetches components, and the questions that are asked on the way.

Main statements: `Lockstep.perform`, for a callback, whoever answers it, and `Lockstep.build`, for
all that happens in the creation of a component.
-/

namespace Startup

variable {H : Host} {σ : Type}

namespace Lockstep

variable {W : World H σ → World H σ → Prop} {call call' : Call H σ}
  {R : {α : Type} → Run H σ α → Run H σ α → Prop} (h : Lockstep W call call' R)
include h

theorem attempt_within {ε α : Type} {s : Except ε α → Scope H} {x x' : Attempt H σ ε α}
    (hs : ∀ a, (s a).IsPlain) (hx : R x.run x'.run) : R (x.within s).run (x'.within s).run :=
  h.within s hs hx

/-! ## Callbacks -/

/-- What the library does not answer itself, the host does. -/
theorem perform (cb : Callback H) : R (cb.perform call) (cb.perform call') := by
  by_cases hcb : cb.IsOwn
  · exact h.own cb hcb
  · have hrespond (c : Call H σ) : cb.respond c = c cb := by
      cases cb with
      | create | mutateDefinitions | mutateFactory | event => rfl
      | merged e | before e | after e =>
        obtain ⟨id, name, tier, views, _ | _ | _⟩ := e
        · rfl
        · exact absurd trivial hcb
        · exact absurd trivial hcb
    refine h.within _ (fun _ => hcb) ?_
    rw [hrespond, hrespond]
    exact h.call cb

/-! ## Registries -/

theorem creation_ask {α : Type} {b : Failure → DependencyError}
    {x x' : Run H σ (Except Failure α)} (hx : R x x') :
    R (Creation.ask b x).run (Creation.ask b x').run :=
  h.map _ hx

theorem announce (n : ComponentName) (d : Definition H) (chain : List (Extension H)) :
    R (Creation.announce call n d chain).run (Creation.announce call' n d chain).run := by
  induction chain with
  | nil => exact h.attempt_pure _
  | cons e rest ih =>
    unfold Creation.announce
    split
    · exact h.attempt_bind (h.creation_ask (h.perform _)) fun _ => ih
    · exact ih

theorem before (v : View) (n : ComponentName) (chain : List (Extension H)) (i : Instance H) :
    R (Creation.before call v n chain i).run (Creation.before call' v n chain i).run := by
  induction chain generalizing i with
  | nil => exact h.attempt_pure _
  | cons e rest ih =>
    unfold Creation.before
    split
    · exact h.attempt_bind (h.creation_ask (h.perform _)) fun _ => ih _
    · exact ih _

theorem after (v : View) (n : ComponentName) (chain : List (Extension H)) (i : Instance H) :
    R (Creation.after call v n chain i).run (Creation.after call' v n chain i).run := by
  induction chain generalizing i with
  | nil => exact h.attempt_pure _
  | cons e rest ih =>
    unfold Creation.after
    split
    · exact h.attempt_bind (h.creation_ask (h.perform _)) fun _ => ih _
    · exact ih _

theorem build (v : View) (n : ComponentName) (d : Definition H) (chain : List (Extension H)) :
    R (Creation.build call v n d chain).run (Creation.build call' v n d chain).run :=
  h.attempt_bind (h.announce n d chain) fun _ =>
    h.attempt_bind (h.creation_ask (h.perform _)) fun _ =>
      h.attempt_bind (h.before v n chain _) fun _ => h.after v n chain _

theorem resolution (v : View) (n : ComponentName) :
    R (v.resolve call n).run (v.resolve call' n).run :=
  h.resolve v n fun d chain => h.build _ n d chain

theorem fetch (v : View) (n : ComponentName) (c : Capability) :
    R (v.fetch call n c).run (v.fetch call' n c).run := by
  refine h.attempt_within (fun _ => trivial) (h.attempt_bind (h.resolution v n) fun i => ?_)
  split
  · split
    · exact h.attempt_pure _
    · exact h.attempt_throw _
  · exact h.attempt_throw _

theorem fetchAll (v : View) (c : Capability) (names : List ComponentName) :
    R (v.fetchAll call c names).run (v.fetchAll call' c names).run := by
  induction names with
  | nil => exact h.attempt_pure _
  | cons n rest ih =>
    exact h.attempt_bind (h.fetch v n c) fun _ => h.attempt_bind ih fun _ => h.attempt_pure _

theorem resolveAll (v : View) (names : List ComponentName) :
    R (v.resolveAll call names).run (v.resolveAll call' names).run := by
  induction names with
  | nil => exact h.attempt_pure _
  | cons n rest ih => exact h.attempt_bind (h.resolution v n) fun _ => ih

theorem names (v : View) (c : Capability) (all eager : Bool) :
    R (v.names c all eager) (v.names c all eager) :=
  h.bind (h.record _ trivial) fun _ => h.question v.registry fun _ => rfl

theorem installAll (v : View) (es : List (Extension H)) :
    R (v.installAll es) (v.installAll es) := by
  induction es with
  | nil => exact h.pure _
  | cons e rest ih =>
    unfold View.installAll
    split
    · exact h.bind (h.install v e) fun _ => ih
    · exact h.bind (h.record _ trivial) fun _ => ih

theorem preinstantiate (v : View) : R (v.preinstantiate call).run (v.preinstantiate call').run := by
  have hnames : R (Run.ask fun w => (w.registries.get v.registry).eagerNames)
      (Run.ask fun w => (w.registries.get v.registry).eagerNames) :=
    h.question v.registry (f := Registry.eagerNames) fun _ => rfl
  rw [View.preinstantiate_run, View.preinstantiate_run]
  refine h.bind hnames fun names => h.bind (h.record _ trivial) fun _ => ?_
  exact h.attempt_within (fun _ => trivial) (h.resolveAll _ _)

theorem sort (v : View) (l : List (Extension H)) : R (v.sort l) (v.sort l) := by
  unfold View.sort
  split
  · exact h.pure _
  · refine h.bind (h.comparator? v) fun c => ?_
    split
    · exact h.bind (h.record _ trivial) fun _ => h.pure _
    · exact h.pure _

theorem divide (v : View) (c : Capability) (skip : ComponentName → Bool)
    (names : List ComponentName) :
    R (v.divide call c skip names).run (v.divide call' c skip names).run := by
  induction names with
  | nil => exact h.attempt_pure _
  | cons n rest ih =>
    unfold View.divide
    split
    · exact ih
    · refine h.attempt_bind (h.always (h.isMatch v n _)) fun isPriority => ?_
      split
      · exact h.attempt_bind (h.fetch v n c) fun _ => h.attempt_bind ih fun _ => h.attempt_pure _
      · refine h.attempt_bind (h.always (h.isMatch v n _)) fun isOrdered => ?_
        split
        · exact h.attempt_bind ih fun _ => h.attempt_pure _
        · exact h.attempt_bind ih fun _ => h.attempt_pure _

end Lockstep

end Startup
