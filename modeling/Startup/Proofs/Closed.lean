import Startup.Proofs.Lockstep.Container

/-!
Properties of everything that the library does. A property `K` of runs is a relation of a run to
itself: `Closed call K` says that `K` holds of the primitive operations, of the callbacks that
`call` answers, and of a sequence whose parts have it. Then every operation of the library has it,
and every program. A property that does not look at interceptors and contexts is `Coarse`, and for
such a one there is less to show.

Main statements: `Closed.program` and `Behaviour.closed`, that programs and the callbacks of a
behaviour have every closed property.
-/

namespace Startup

variable {H : Host} {σ : Type}

/-- A property of runs that the primitive operations have, and sequences inherit. -/
abbrev Closed (call : Call H σ) (K : {α : Type} → Run H σ α → Prop) : Prop :=
  Lockstep (· = ·) call call fun {α} (x _ : Run H σ α) => K x

/-- A property of runs that sequences inherit, and that every change of the world has which leaves
the registries alone. -/
structure Coarse (K : {α : Type} → Run H σ α → Prop) : Prop where
  pure : ∀ {α : Type} (a : α), K (pure a)
  bind : ∀ {α β : Type} {x : Run H σ α} {f : α → Run H σ β}, K x → (∀ a, K (f a)) → K (x >>= f)
  ask : ∀ {α : Type} (f : World H σ → α), K (Run.ask f)
  fresh : K Run.fresh
  change : ∀ f : World H σ → World H σ, (∀ w, (f w).registries = w.registries) →
    K (Run.change f)
  record : ∀ f : Fact H, f.IsAside → K (Run.record f)
  within : ∀ {α : Type} (s : α → Scope H) {x : Run H σ α}, (∀ a, (s a).IsAside) → K x →
    K (Run.within s x)

namespace Coarse

variable {K : {α : Type} → Run H σ α → Prop} (h : Coarse K)
include h

theorem apart : Apart (· = ·) fun {α} (x _ : Run H σ α) => K x where
  alike := .of_eq
  pure := h.pure
  bind := h.bind
  ask f _ := h.ask f
  fresh := h.fresh
  remember _ := h.change _ fun _ => rfl
  record f hf := h.record f hf.aside
  within s _ _ hs hx := h.within s hs hx
  setContext _ _ := h.change _ fun _ => rfl
  setChecker _ _ := h.change _ fun _ => rfl
  setDetector _ _ := h.change _ fun _ => rfl

/-- A coarse property is closed if registries and callbacks have it. -/
theorem closed {call : Call H σ} (hregister : ∀ r d, K (Registry.register r d))
    (hremove : ∀ r n, K (Registry.remove r n))
    (hinstance : ∀ r n i, K (Registry.registerInstance r n i))
    (hinstall : ∀ v e, K (View.install v e)) (hclear : ∀ v, K (View.clearCache v))
    (hresolve : ∀ v n, (∀ d chain, K (Creation.build call (.direct v.registry) n d chain).run) →
      K (View.resolve call v n).run)
    (hcall : ∀ cb, K (call cb)) : Closed call K :=
  h.apart.lockstep hregister hremove hinstance hinstall hclear hresolve hcall

end Coarse

namespace Closed

variable {call : Call H σ} {K : {α : Type} → Run H σ α → Prop} (h : Closed call K)
include h

/-! ## Sequences -/

section Sequences

variable {ε α β : Type}

theorem bind {x : Run H σ α} {f : α → Run H σ β} (hx : K x) (hf : ∀ a, K (f a)) : K (x >>= f) :=
  @Paired.bind H σ (· = ·) (fun x _ => K x) h.toPaired α β x x f f hx hf

theorem within (s : α → Scope H) {x : Run H σ α} (hs : ∀ a, (s a).IsPlain) (hx : K x) :
    K (Run.within s x) :=
  @Lockstep.within H σ (· = ·) call call (fun x _ => K x) h α s x x hs hx

theorem always {x : Run H σ α} (hx : K x) : K (Attempt.always x : Attempt H σ ε α).run :=
  @Paired.always H σ (· = ·) (fun x _ => K x) h.toPaired ε α x x hx

theorem attempt_bind {x : Attempt H σ ε α} {f : α → Attempt H σ ε β} (hx : K x.run)
    (hf : ∀ a, K (f a).run) : K (x >>= f).run :=
  @Paired.attempt_bind H σ (· = ·) (fun x _ => K x) h.toPaired ε α β x x f f hx hf

theorem stage_always {x : Run H σ α} (hx : K x) (s : Invocation) : K ((Stage.always x).on s) :=
  @Lockstep.stage_always H σ (· = ·) call call (fun x _ => K x) h α x x hx s

theorem stage_attempt {x : Attempt H σ DependencyError α} (hx : K x.run) (s : Invocation) :
    K ((Stage.attempt x).on s) :=
  @Lockstep.stage_attempt H σ (· = ·) call call (fun x _ => K x) h α x x hx s

theorem stage_bind {x : Stage H σ α} {f : α → Stage H σ β} {s : Invocation} (hx : K (x.on s))
    (hf : ∀ a s', K ((f a).on s')) : K ((x >>= f).on s) :=
  @Lockstep.stage_bind H σ (· = ·) call call (fun x _ => K x) h α β x x f f s hx hf

end Sequences

/-! ## Programs -/

/-- Every program has the property. -/
theorem program (hexceeded : ∀ α : Type, K (Run.exceeded : Run H σ α)) (depth : Nat) {α : Type}
    (x : Program H σ α) : K (x.run call depth) := by
  induction x with
  | pure a => exact h.pure a
  | ask q next ih => exact h.bind (h.request hexceeded depth q q.blind_eq) fun a => ih a

end Closed

/-- What is closed whenever callbacks have it, the callbacks of a behaviour have. -/
theorem Behaviour.closed {K : {α : Type} → Run H σ α → Prop} (b : Behaviour H σ)
    (hexceeded : ∀ α : Type, K (Run.exceeded : Run H σ α))
    (hclosed : ∀ call : Call H σ, (∀ cb, K (call cb)) → Closed call K) (depth : Nat) :
    Closed (b.call depth) K := by
  induction depth with
  | zero => exact hclosed _ fun cb => hexceeded _
  | succ depth ih => exact hclosed _ fun cb => ih.program hexceeded depth (b cb)

end Startup
