import Startup.Proofs.Lockstep.Registry
import Startup.Pipeline.Basic

/-!
Runs of the pipeline side by side: its stages, the callbacks of its tiers, and its rounds.

Main statements: `Lockstep.pipeline`, for a run of the pipeline, and `Lockstep.fixedPoint`, for its
rounds, as far as they are bounded.
-/

namespace Startup

variable {H : Host} {σ : Type}

namespace Lockstep

variable {W : World H σ → World H σ → Prop} {call call' : Call H σ}
  {R : {α : Type} → Run H σ α → Run H σ α → Prop} (h : Lockstep W call call' R)
include h

/-! ## Stages of the pipeline -/

section Stages

open Stage (on_bind on_always on_attempt on_enter on_isProcessed)

variable {α β : Type}

theorem stage_pure (a : α) (s : Invocation) :
    R ((Pure.pure a : Stage H σ α).on s) ((Pure.pure a : Stage H σ α).on s) := h.pure _

theorem stage_throw (e : ExtensionError) (s : Invocation) :
    R ((throw e : Stage H σ α).on s) ((throw e : Stage H σ α).on s) := h.pure _

theorem stage_modify (f : Invocation → Invocation) (s : Invocation) :
    R ((modify f : Stage H σ Unit).on s) ((modify f : Stage H σ Unit).on s) := h.pure _

theorem stage_get (s : Invocation) :
    R ((get : Stage H σ Invocation).on s) ((get : Stage H σ Invocation).on s) := h.pure _

theorem stage_bind {x x' : Stage H σ α} {f f' : α → Stage H σ β} {s : Invocation}
    (hx : R (x.on s) (x'.on s)) (hf : ∀ a s', R ((f a).on s') ((f' a).on s')) :
    R ((x >>= f).on s) ((x' >>= f').on s) := by
  rw [on_bind, on_bind]
  refine h.bind hx fun p => ?_
  rcases p with ⟨_ | _, _⟩
  · exact h.pure _
  · exact hf _ _

theorem stage_always {x x' : Run H σ α} (hx : R x x') (s : Invocation) :
    R ((Stage.always x).on s) ((Stage.always x').on s) := by
  rw [on_always, on_always]
  exact h.bind hx fun _ => h.pure _

theorem stage_attempt {x x' : Attempt H σ DependencyError α} (hx : R x.run x'.run)
    (s : Invocation) : R ((Stage.attempt x).on s) ((Stage.attempt x').on s) := by
  rw [on_attempt, on_attempt]
  exact h.bind hx fun _ => h.pure _

theorem enter (p : Phase) (s : Invocation) :
    R ((Stage.enter p : Stage H σ Unit).on s) ((Stage.enter p : Stage H σ Unit).on s) := by
  rw [on_enter]
  split
  · exact h.pure _
  · exact h.bind (h.record _ trivial) fun _ => h.pure _

theorem isProcessed (n : ComponentName) (s : Invocation) :
    R ((Stage.isProcessed n : Stage H σ Bool).on s)
      ((Stage.isProcessed n : Stage H σ Bool).on s) := by
  rw [on_isProcessed]
  exact h.pure _

end Stages

section Pipeline

variable (v : View)

theorem callDefinition (e : Extension H) (s : Invocation) :
    R ((Pipeline.callDefinition call v e).on s) ((Pipeline.callDefinition call' v e).on s) := by
  unfold Pipeline.callDefinition
  split
  · have hcall := h.within (fun x => .mutation .definition e (Pipeline.outcome x))
      (fun _ => trivial) (h.perform (.mutateDefinitions e v))
    refine h.stage_bind (h.stage_always hcall s) fun r s' => ?_
    cases r with
    | error f => exact h.stage_throw _ s'
    | ok _ => exact h.stage_modify _ s'
  · exact h.stage_pure _ s

theorem callFactory (e : Extension H) (s : Invocation) :
    R ((Pipeline.callFactory call v e).on s) ((Pipeline.callFactory call' v e).on s) := by
  unfold Pipeline.callFactory
  split
  · have hcall := h.within (fun x => .mutation .factory e (Pipeline.outcome x))
      (fun _ => trivial) (h.perform (.mutateFactory e v))
    refine h.stage_bind (h.stage_always hcall s) fun r s' => ?_
    cases r with
    | error f => exact h.stage_throw _ s'
    | ok _ => exact h.stage_modify _ s'
  · exact h.stage_always (h.within _ (fun _ => by trivial) (h.pure _)) s

theorem callDefinitions (es : List (Extension H)) (s : Invocation) :
    R ((Pipeline.callDefinitions call v es).on s) ((Pipeline.callDefinitions call' v es).on s) := by
  induction es generalizing s with
  | nil => exact h.stage_pure _ s
  | cons e rest ih => exact h.stage_bind (h.callDefinition v e s) fun _ s' => ih s'

theorem callFactories (es : List (Extension H)) (s : Invocation) :
    R ((Pipeline.callFactories call v es).on s) ((Pipeline.callFactories call' v es).on s) := by
  induction es generalizing s with
  | nil => exact h.stage_pure _ s
  | cons e rest ih => exact h.stage_bind (h.callFactory v e s) fun _ s' => ih s'

theorem separate (es : List (Extension H)) (s : Invocation) :
    R ((Pipeline.separate call v es).on s) ((Pipeline.separate call' v es).on s) := by
  induction es generalizing s with
  | nil => exact h.stage_pure _ s
  | cons e rest ih =>
    unfold Pipeline.separate
    split
    · exact h.stage_bind (h.callDefinition v e s) fun _ s' =>
        h.stage_bind (ih s') fun _ s'' => h.stage_pure _ s''
    · split
      · exact h.stage_bind (ih s) fun _ s' => h.stage_pure _ s'
      · exact h.stage_bind (h.stage_always (h.record _ (by trivial)) s) fun _ s' => ih s'

theorem isPriority (n : ComponentName) (s : Invocation) :
    R ((Pipeline.isPriority v n : Stage H σ Bool).on s)
      ((Pipeline.isPriority v n : Stage H σ Bool).on s) :=
  h.stage_always (h.isMatch v n _) s

theorem isOrdered (n : ComponentName) (s : Invocation) :
    R ((Pipeline.isOrdered v n : Stage H σ Bool).on s)
      ((Pipeline.isOrdered v n : Stage H σ Bool).on s) := by
  refine h.stage_bind (h.isProcessed n s) fun processed s' => ?_
  split
  · exact h.stage_pure _ s'
  · exact h.stage_always (h.isMatch v n _) s'

theorem isNew (n : ComponentName) (s : Invocation) :
    R ((Pipeline.isNew n : Stage H σ Bool).on s) ((Pipeline.isNew n : Stage H σ Bool).on s) :=
  h.stage_bind (h.isProcessed n s) fun _ s' => h.stage_pure _ s'

theorem collect {wanted : ComponentName → Stage H σ Bool}
    (hw : ∀ n s, R ((wanted n).on s) ((wanted n).on s)) (names : List ComponentName)
    (s : Invocation) :
    R ((Pipeline.collect call v wanted names).on s)
      ((Pipeline.collect call' v wanted names).on s) := by
  induction names generalizing s with
  | nil => exact h.stage_pure _ s
  | cons n rest ih =>
    refine h.stage_bind (hw n s) fun answer s' => ?_
    split
    · refine h.stage_bind (h.stage_attempt (h.fetch v n _) s') fun e s₁ => ?_
      refine h.stage_bind (h.stage_modify _ s₁) fun _ s₂ => ?_
      exact h.stage_bind (ih s₂) fun _ s₃ => h.stage_pure _ s₃
    · exact ih s'

theorem collectNow {wanted : ComponentName → Stage H σ Bool}
    (hw : ∀ n s, R ((wanted n).on s) ((wanted n).on s)) (s : Invocation) :
    R ((Pipeline.collectNow call v wanted).on s) ((Pipeline.collectNow call' v wanted).on s) :=
  h.stage_bind (h.stage_always (h.names v _ _ _) s) fun _ s' => h.collect v hw _ s'

theorem runTier (tier : List (Extension H)) (s : Invocation) :
    R ((Pipeline.runTier call v tier).on s) ((Pipeline.runTier call' v tier).on s) :=
  h.stage_bind (h.stage_always (h.sort v tier) s) fun sorted s' =>
    h.stage_bind (h.callDefinitions v sorted s') fun _ s'' => h.stage_pure _ s''

theorem round (s : Invocation) :
    R ((Pipeline.round call v).on s) ((Pipeline.round call' v).on s) := by
  refine h.stage_bind (h.stage_modify _ s) fun _ s₁ => ?_
  refine h.stage_bind (h.collectNow v h.isNew s₁) fun found s₂ => ?_
  split
  · exact h.stage_pure _ s₂
  · refine h.stage_bind (h.stage_get s₂) fun _ s₃ => ?_
    refine h.stage_bind (h.stage_always (h.record _ (by trivial)) s₃) fun _ s₄ => ?_
    exact h.stage_bind (h.runTier v found s₄) fun _ s₅ => h.stage_pure _ s₅

theorem openingTiers (supplied : List (Extension H)) (s : Invocation) :
    R ((Pipeline.openingTiers call v supplied).on s)
      ((Pipeline.openingTiers call' v supplied).on s) := by
  refine h.stage_bind (h.enter _ s) fun _ s₁ => ?_
  refine h.stage_bind (h.separate v supplied s₁) fun _ s₂ => ?_
  refine h.stage_bind (h.enter _ s₂) fun _ s₃ => ?_
  refine h.stage_bind (h.collectNow v (h.isPriority v) s₃) fun found s₄ => ?_
  refine h.stage_bind (h.runTier v found s₄) fun _ s₅ => ?_
  refine h.stage_bind (h.enter _ s₅) fun _ s₆ => ?_
  refine h.stage_bind (h.collectNow v (h.isOrdered v) s₆) fun found s₇ => ?_
  refine h.stage_bind (h.runTier v found s₇) fun _ s₈ => ?_
  exact h.stage_bind (h.enter _ s₈) fun _ s₉ => h.stage_pure _ s₉

theorem runFactoryTier (names : List ComponentName) (s : Invocation) :
    R ((Pipeline.runFactoryTier call v names).on s)
      ((Pipeline.runFactoryTier call' v names).on s) :=
  h.stage_bind (h.stage_attempt (h.fetchAll v _ names) s) fun tier s₁ =>
    h.stage_bind (h.stage_always (h.sort v tier) s₁) fun sorted s₂ => h.callFactories v sorted s₂

theorem mutateFactory (s : Invocation) :
    R ((Pipeline.mutateFactory call v).on s) ((Pipeline.mutateFactory call' v).on s) := by
  refine h.stage_bind (h.enter _ s) fun _ s₁ => ?_
  refine h.stage_bind (h.stage_always (h.names v _ _ _) s₁) fun names s₂ => ?_
  refine h.stage_bind (h.stage_get s₂) fun state s₃ => ?_
  refine h.stage_bind (h.stage_attempt (h.divide v _ _ names) s₃) fun tiers s₄ => ?_
  refine h.stage_bind (h.stage_always (h.record _ (by trivial)) s₄) fun _ s₅ => ?_
  refine h.stage_bind (h.stage_always (h.sort v _) s₅) fun sorted s₆ => ?_
  refine h.stage_bind (h.callFactories v sorted s₆) fun _ s₇ => ?_
  exact h.stage_bind (h.runFactoryTier v _ s₇) fun _ s₈ => h.runFactoryTier v _ s₈

theorem finish (r : Except ExtensionError Unit) (s : Invocation) :
    R ((Pipeline.finish r : Stage H σ Unit).on s) ((Pipeline.finish r : Stage H σ Unit).on s) := by
  cases r with
  | ok _ =>
    refine h.stage_bind (h.enter _ s) fun _ s₁ => ?_
    exact h.stage_bind (h.stage_get s₁) fun _ s₂ => h.stage_always (h.record _ (by trivial)) s₂
  | error e =>
    refine h.stage_bind (h.stage_get s) fun _ s₁ => ?_
    exact h.stage_bind (h.enter _ s₁) fun _ s₂ => h.stage_always (h.record _ (by trivial)) s₂

section Rounds

variable {depth : Nat}
  (hrounds : ∀ s, R ((Pipeline.fixedPoint call v depth).on s)
    ((Pipeline.fixedPoint call' v depth).on s))
include hrounds

theorem steps (supplied : List (Extension H)) (s : Invocation) :
    R ((Pipeline.steps call v depth supplied).on s)
      ((Pipeline.steps call' v depth supplied).on s) := by
  unfold Pipeline.steps
  split
  · refine h.stage_bind ?_ fun _ s₁ => ?_
    · exact h.stage_bind (h.openingTiers v supplied s) fun _ s₁ =>
        h.stage_bind (hrounds s₁) fun _ s₂ => h.stage_pure _ s₂
    · refine h.stage_bind (h.enter _ s₁) fun _ s₂ => ?_
      refine h.stage_bind (h.callFactories v _ s₂) fun _ s₃ => ?_
      refine h.stage_bind (h.callFactories v _ s₃) fun _ s₄ => ?_
      exact h.stage_bind (h.mutateFactory v s₄) fun _ s₅ => h.stage_always (h.clearCache v) s₅
  · refine h.stage_bind (h.stage_modify _ s) fun _ s₁ => ?_
    refine h.stage_bind (h.stage_always (h.record _ (by trivial)) s₁) fun _ s₂ => ?_
    refine h.stage_bind (h.enter _ s₂) fun _ s₃ => ?_
    refine h.stage_bind (h.callFactories v _ s₃) fun _ s₄ => ?_
    exact h.stage_bind (h.mutateFactory v s₄) fun _ s₅ => h.stage_always (h.clearCache v) s₅

/-- Runs of the pipeline are related if their rounds are, as far as they are bounded. -/
theorem pipeline (supplied : List (Extension H)) :
    R (Pipeline.invoke call v depth supplied) (Pipeline.invoke call' v depth supplied) := by
  refine h.within _ (fun _ => trivial) (h.bind (h.record _ trivial) fun _ => ?_)
  refine h.bind (h.steps v hrounds supplied {}) fun p => ?_
  exact h.bind (h.finish p.1 p.2) fun q => h.pure _

end Rounds

/-- Bounded loops are related if it comes to the same to exceed the bound. -/
theorem fixedPoint (hexceeded : ∀ α : Type, R (Run.exceeded : Run H σ α) Run.exceeded)
    (depth : Nat) (s : Invocation) :
    R ((Pipeline.fixedPoint call v depth).on s) ((Pipeline.fixedPoint call' v depth).on s) := by
  induction depth generalizing s with
  | zero => exact h.stage_always (hexceeded _) s
  | succ depth ih =>
    refine h.stage_bind (h.round v s) fun tier s' => ?_
    split
    · exact h.stage_pure _ s'
    · exact h.stage_bind (ih s') fun _ s'' => h.stage_pure _ s''

end Pipeline

end Lockstep

end Startup
