import Startup.Proofs.Pipeline.Order

/-!
How a run ends, and what its report tells of it.

Main statement: `fails_fast`. The report lists exactly the callbacks that succeeded, in order and
wherever the run ended. A run that fails does so with the error of its last fetch or callback, and
all before that succeeded; a run that succeeds had no failure at all.
-/

namespace Startup

variable {H : Host} {σ : Type}

/-! ## Failures among the deeds -/

namespace Deed

/-- The error with which a run ends at once after a deed. -/
def error? : Deed H → Option ExtensionError
  | .called p e (some f) => some (.callback e.name p f)
  | .fetched _ _ (.error x) => some (.dependency x)
  | _ => none

theorem error?_eq_some {d : Deed H} {x : ExtensionError} : d.error? = some x ↔
    (∃ p e f, d = .called p e (some f) ∧ x = .callback e.name p f) ∨
      ∃ n c y, d = .fetched n c (.error y) ∧ x = .dependency y := by
  constructor
  · intro h
    cases d with
    | entered p => cases h
    | fetched n c r =>
      cases r with
      | ok e => cases h
      | error y =>
        cases h
        exact .inr ⟨n, c, y, rfl, rfl⟩
    | called p e f =>
      cases f with
      | none => cases h
      | some f =>
        cases h
        exact .inl ⟨p, e, f, rfl, rfl⟩
  · rintro (⟨p, e, f, rfl, rfl⟩ | ⟨n, c, y, rfl, rfl⟩)
    · rfl
    · rfl

/-- Nothing among some deeds failed. -/
def Smooth (ds : List (Deed H)) : Prop := ∀ d ∈ ds, d.error? = none

theorem Smooth.append {ds ds' : List (Deed H)} (h : Smooth ds) (h' : Smooth ds') :
    Smooth (ds ++ ds') := by
  intro d hd
  exact (List.mem_append.1 hd).elim (h d) (h' d)

theorem Smooth.nil : Smooth ([] : List (Deed H)) := fun _ hd => absurd hd List.not_mem_nil

end Deed

/-- The calls of a phase that a report lists. -/
def Report.calls (r : Report) : MutationPhase → List String
  | .definition => r.definitionCalls
  | .factory => r.factoryCalls

/-- How some deeds end: nothing failed, or the last one did, and with its error. -/
inductive Ending {α : Type} : Except ExtensionError α → List (Deed H) → Prop
  | smooth (a : α) (ds : List (Deed H)) (h : Deed.Smooth ds) : Ending (.ok a) ds
  | broken (x : ExtensionError) (ds : List (Deed H)) (d : Deed H) (h : Deed.Smooth ds)
      (hd : d.error? = some x) : Ending (.error x) (ds ++ [d])

namespace Ending

variable {α β : Type}

theorem silent (a : α) : Ending (.ok a) ([] : List (Deed H)) := .smooth a [] Deed.Smooth.nil

/-- The last deed alone. -/
theorem single {x : ExtensionError} {d : Deed H} (hd : d.error? = some x) :
    Ending (α := α) (.error x) [d] :=
  .broken x [] d Deed.Smooth.nil hd

/-- What succeeds may come before anything. -/
theorem after {a : α} {r : Except ExtensionError β} {ds ds' : List (Deed H)}
    (h : Ending (.ok a) ds) (h' : Ending r ds') : Ending r (ds ++ ds') := by
  cases h with
  | smooth a ds h =>
    cases h' with
    | smooth b ds' h' => exact .smooth b _ (h.append h')
    | broken x ds' d h' hd =>
      rw [← List.append_assoc]
      exact .broken x _ d (h.append h') hd

theorem error {x : ExtensionError} {ds : List (Deed H)} (h : Ending (α := α) (.error x) ds) :
    Ending (α := β) (.error x) ds := by
  cases h with
  | broken x ds d h hd => exact .broken x ds d h hd

end Ending

/-! ## Attempts that fail fast -/

/-- An attempt makes no callback, and ends with its first failure. -/
def Attempt.FailsFast {α : Type} (x : Attempt H σ DependencyError α) : Prop :=
  ∀ w r w' j, x.run w = some (r, w', j) →
    Ending (r.mapError .dependency) (Journal.deeds j) ∧ Deed.callbacks (Journal.deeds j) = []

namespace Attempt.FailsFast

variable {α β : Type} {call : Call H σ} {v : View}

theorem pure (a : α) : FailsFast (Pure.pure a : Attempt H σ DependencyError α) := by
  intro w r w' j h
  cases h
  exact ⟨.silent a, rfl⟩

theorem bind {x : Attempt H σ DependencyError α} {f : α → Attempt H σ DependencyError β}
    (hx : FailsFast x) (hf : ∀ a, FailsFast (f a)) : FailsFast (x >>= f) := by
  intro w r w' j h
  rw [Attempt.run_bind] at h
  obtain ⟨r₁, w₁, j₁, j₂, h₁, h₂, rfl⟩ := Run.bind_eq_some.1 h
  obtain ⟨hends, hnone⟩ := hx w r₁ w₁ j₁ h₁
  rw [Journal.deeds_append, Deed.callbacks_append, hnone]
  cases r₁ with
  | ok a =>
    obtain ⟨hends', hnone'⟩ := hf a w₁ r w' j₂ h₂
    exact ⟨hends.after hends', hnone'⟩
  | error x =>
    cases h₂
    rw [show Journal.deeds ([] : Journal H) = [] from rfl, List.append_nil]
    exact ⟨hends.error, rfl⟩

theorem silent_bind {x : Run H σ α} {f : α → Attempt H σ DependencyError β}
    (hx : ∀ w, x.Leaves w fun _ _ ds => ds = []) (hf : ∀ a, FailsFast (f a)) :
    FailsFast (Attempt.always x >>= f) := by
  intro w r w' j h
  rw [Attempt.run_bind_always] at h
  obtain ⟨a, w₁, j₁, j₂, h₁, h₂, rfl⟩ := Run.bind_eq_some.1 h
  rw [Journal.deeds_append, hx w a w₁ j₁ h₁, List.nil_append]
  exact hf a w₁ r w' j₂ h₂

theorem fetch (n : ComponentName) (c : Capability) : FailsFast (v.fetch call n c) := by
  intro w r w' j h
  obtain ⟨j', -, rfl⟩ := Run.within_eq_some.1 h
  cases r with
  | ok e =>
    exact ⟨.smooth e _ (by simp [Deed.Smooth, Journal.deeds, Event.deed?, Deed.error?]), rfl⟩
  | error x => exact ⟨.single rfl, rfl⟩

theorem fetchAll (c : Capability) (names : List ComponentName) :
    FailsFast (v.fetchAll call c names) := by
  induction names with
  | nil => exact pure _
  | cons n rest ih => exact bind (fetch n c) fun _ => bind ih fun _ => pure _

theorem divide (c : Capability) (skip : ComponentName → Bool) (names : List ComponentName) :
    FailsFast (v.divide call c skip names) := by
  have hmatch (n : ComponentName) (c : Capability) (w : World H σ) :=
    View.isMatch_leaves (w := w) v n c
  induction names with
  | nil => exact pure _
  | cons n rest ih =>
    unfold View.divide
    split
    · exact ih
    · refine silent_bind (hmatch n _) fun first => ?_
      split
      · exact bind (fetch n c) fun _ => bind ih fun _ => pure _
      · refine silent_bind (hmatch n _) fun second => ?_
        split
        · exact bind ih fun _ => pure _
        · exact bind ih fun _ => pure _

end Attempt.FailsFast

/-! ## Stages that fail fast -/

/-- What a part of a run did: to the lists of the report it added the callbacks that succeeded, and
it ended with its first failure. -/
structure Told {α : Type} (before after : Report) (r : Except ExtensionError α)
    (ds : List (Deed H)) : Prop where
  calls (p : MutationPhase) : after.calls p = before.calls p ++ (Deed.succeeded p ds).map (·.name)
  ending : Ending r ds

def Stage.FailsFast {α : Type} (x : Stage H σ α) : Prop :=
  ∀ s w r s' w' j, x.on s w = some ((r, s'), w', j) →
    Told s.report s'.report r (Journal.deeds j)

theorem Deed.succeeded_of_callbacks {ds : List (Deed H)} (h : Deed.callbacks ds = [])
    (p : MutationPhase) : Deed.succeeded p ds = [] := by
  apply List.filterMap_eq_nil_iff.2
  intro d hd
  cases d with
  | called q e f => exact absurd rfl (List.filter_eq_nil_iff.1 h _ hd)
  | _ => rfl

namespace Stage.FailsFast

variable {α β : Type}

theorem bind {x : Stage H σ α} {f : α → Stage H σ β} (hx : FailsFast x)
    (hf : ∀ a, FailsFast (f a)) : FailsFast (x >>= f) := by
  intro s w r s' w' j h
  rw [Stage.on_bind] at h
  obtain ⟨⟨r₁, s₁⟩, w₁, j₁, j₂, h₁, h₂, rfl⟩ := Run.bind_eq_some.1 h
  obtain ⟨hcalls, hends⟩ := hx s w r₁ s₁ w₁ j₁ h₁
  rw [Journal.deeds_append]
  cases r₁ with
  | ok a =>
    obtain ⟨hcalls', hends'⟩ := hf a s₁ w₁ r s' w' j₂ h₂
    refine ⟨fun p => ?_, hends.after hends'⟩
    rw [hcalls' p, hcalls p, Deed.succeeded_append, List.map_append, List.append_assoc]
  | error x =>
    cases h₂
    rw [show Journal.deeds ([] : Journal H) = [] from rfl, List.append_nil]
    exact ⟨hcalls, hends.error⟩

/-- A change of the report that leaves the lists of the callbacks alone. -/
theorem edit {f : Invocation → Invocation} (h : ∀ s p, (f s).report.calls p = s.report.calls p) :
    FailsFast (modify f : Stage H σ Unit) := by
  intro s w r s' w' j hrun
  cases hrun
  exact ⟨fun p => by rw [h s p]; simp [Journal.deeds, Deed.succeeded], .silent ()⟩

theorem silent {x : Run H σ α} (hx : ∀ w, x.Leaves w fun _ _ ds => ds = []) :
    FailsFast (Stage.always x) := by
  intro s w r s' w' j h
  rw [Stage.on_always] at h
  obtain ⟨a, w₁, j₁, j₂, h₁, h₂, rfl⟩ := Run.bind_eq_some.1 h
  cases h₂
  rw [List.append_nil, hx w a _ j₁ h₁]
  exact ⟨fun p => by simp [Deed.succeeded], .silent a⟩

theorem pure (a : α) : FailsFast (Pure.pure a : Stage H σ α) :=
  silent fun _ => Run.Leaves.pure rfl

theorem get : FailsFast (MonadState.get : Stage H σ Invocation) := by
  intro s w r s' w' j h
  cases h
  exact ⟨fun p => by simp [Journal.deeds, Deed.succeeded], .silent _⟩

theorem record {f : Fact H} (hf : Event.deed? (.fact f) = none) :
    FailsFast (Stage.always (Run.record f) : Stage H σ Unit) :=
  silent fun _ => (Run.record_leaves hf).mono fun _ _ _ h => h.2

theorem attempt {x : Attempt H σ DependencyError α} (hx : x.FailsFast) :
    FailsFast (Stage.attempt x) := by
  intro s w r s' w' j h
  rw [Stage.on_attempt] at h
  obtain ⟨r₁, w₁, j₁, j₂, h₁, h₂, rfl⟩ := Run.bind_eq_some.1 h
  obtain ⟨hends, hnone⟩ := hx w r₁ w₁ j₁ h₁
  cases h₂
  rw [List.append_nil]
  refine ⟨fun p => ?_, hends⟩
  rw [Deed.succeeded_of_callbacks hnone p, List.map_nil, List.append_nil]

theorem enter (p : Phase) : FailsFast (Stage.enter p : Stage H σ Unit) := by
  intro s w r s' w' j h
  rw [Stage.on_enter] at h
  split at h
  · cases h
    exact ⟨fun q => by simp [Journal.deeds, Deed.succeeded], .silent ()⟩
  · cases h
    refine ⟨fun q => ?_, .smooth () _ ?_⟩
    · cases q <;> simp [Journal.deeds, Event.deed?, Deed.succeeded, Deed.succeeded?, Report.calls]
    · simp [Deed.Smooth, Journal.deeds, Event.deed?, Deed.error?]

end Stage.FailsFast

namespace Pipeline

open Stage (FailsFast)

variable {call : Call H σ} {v : View} {w : World H σ}

/-! ## The parts of a run -/

/-- A callback whose failure ends the run, and whose success is told. -/
theorem mutation_failsFast (p : MutationPhase) (e : Extension H) (tell : Report → Report)
    (htell : ∀ r q, (tell r).calls q = r.calls q ++ if p = q then [e.name] else [])
    (x : Run H σ (Except Failure Unit))
    (hx : ∀ w, x.Leaves w fun r _ ds =>
      ds = [.called p e (match r with | .error f => some f | .ok _ => none)]) :
    FailsFast (do
      match ← Stage.always x with
      | .error f => throw (.callback e.name p f)
      | .ok _ => Stage.updateReport tell) := by
  intro s w r s' w' j h
  rw [Stage.on_bind, Stage.on_always, bind_assoc] at h
  obtain ⟨a, w₁, j₁, j₂, h₁, h₂, rfl⟩ := Run.bind_eq_some.1 h
  rw [pure_bind] at h₂
  rw [Journal.deeds_append, hx w a w₁ j₁ h₁]
  cases a with
  | error f =>
    cases h₂
    exact ⟨fun q => by simp [Journal.deeds, Deed.succeeded, Deed.succeeded?], .single rfl⟩
  | ok _ =>
    cases h₂
    refine ⟨fun q => ?_, .smooth _ _ ?_⟩
    · rw [htell]
      by_cases hq : p = q <;> simp [Journal.deeds, Deed.succeeded, Deed.succeeded?, hq]
    · simp [Deed.Smooth, Journal.deeds, Deed.error?]

theorem callDefinition_failsFast (e : Extension H) : FailsFast (callDefinition call v e) := by
  unfold callDefinition
  split
  · refine mutation_failsFast .definition e _ ?_ _ fun w => ?_
    · intro r q
      cases q <;> simp [Report.calls]
    · refine mutation_leaves (.mutateDefinitions e v) _ _ fun a j => ?_
      cases a <;> rfl
  · exact .pure _

theorem callFactory_failsFast (e : Extension H) : FailsFast (callFactory call v e) := by
  unfold callFactory
  split
  · refine mutation_failsFast .factory e _ ?_ _ fun w => ?_
    · intro r q
      cases q <;> simp [Report.calls]
    · refine mutation_leaves (.mutateFactory e v) _ _ fun a j => ?_
      cases a <;> rfl
  · refine .silent fun w => Run.Leaves.within fun a w' j h => ?_
    cases h
    rfl

theorem callDefinitions_failsFast (es : List (Extension H)) :
    FailsFast (callDefinitions call v es) := by
  induction es with
  | nil => exact .pure _
  | cons e rest ih => exact .bind (callDefinition_failsFast e) fun _ => ih

theorem callFactories_failsFast (es : List (Extension H)) :
    FailsFast (callFactories call v es) := by
  induction es with
  | nil => exact .pure _
  | cons e rest ih => exact .bind (callFactory_failsFast e) fun _ => ih

theorem separate_failsFast (es : List (Extension H)) : FailsFast (separate call v es) := by
  induction es with
  | nil => exact .pure _
  | cons e rest ih =>
    unfold separate
    split
    · exact .bind (callDefinition_failsFast e) fun _ => .bind ih fun _ => .pure _
    · split
      · exact .bind ih fun _ => .pure _
      · exact .bind (.record rfl) fun _ => ih

theorem sort_failsFast (l : List (Extension H)) :
    FailsFast (Stage.always (v.sort l) : Stage H σ _) :=
  .silent fun _ => (View.sort_leaves v l).mono fun _ _ _ h => h.2

theorem names_failsFast (c : Capability) (all eager : Bool) :
    FailsFast (Stage.always (v.names c all eager) : Stage H σ _) :=
  .silent fun _ => (View.names_leaves v c all eager).mono fun _ _ _ h => h.2

theorem isMatch_failsFast (n : ComponentName) (c : Capability) :
    FailsFast (Stage.always (v.isMatch n c) : Stage H σ _) :=
  .silent fun _ => View.isMatch_leaves v n c

theorem isProcessed_failsFast (n : ComponentName) :
    FailsFast (Stage.isProcessed n : Stage H σ Bool) :=
  .bind .get fun _ => .pure _

theorem collectNow_failsFast {wanted : ComponentName → Stage H σ Bool}
    (hwanted : ∀ n, FailsFast (wanted n)) : FailsFast (collectNow call v wanted) := by
  refine .bind (names_failsFast _ _ _) fun names => ?_
  induction names with
  | nil => exact .pure _
  | cons n rest ih =>
    refine .bind (hwanted n) fun answer => ?_
    split
    · refine .bind (.attempt (.fetch n _)) fun e => ?_
      exact .bind (.edit fun _ _ => rfl) fun _ => .bind ih fun _ => .pure _
    · exact ih

theorem runTier_failsFast (tier : List (Extension H)) : FailsFast (runTier call v tier) :=
  .bind (sort_failsFast _) fun _ => .bind (callDefinitions_failsFast _) fun _ => .pure _

theorem openingTiers_failsFast (supplied : List (Extension H)) :
    FailsFast (openingTiers call v supplied) := by
  have hordered (n : ComponentName) : FailsFast (isOrdered v n : Stage H σ Bool) := by
    refine .bind (isProcessed_failsFast n) fun processed => ?_
    split
    · exact .pure _
    · exact isMatch_failsFast n _
  refine .bind (.enter _) fun _ => .bind (separate_failsFast supplied) fun _ => ?_
  refine .bind (.enter _) fun _ => ?_
  refine .bind (collectNow_failsFast fun n => isMatch_failsFast n _) fun _ => ?_
  refine .bind (runTier_failsFast _) fun _ => .bind (.enter _) fun _ => ?_
  refine .bind (collectNow_failsFast hordered) fun _ => .bind (runTier_failsFast _) fun _ => ?_
  exact .bind (.enter _) fun _ => .pure _

theorem round_failsFast : FailsFast (round call v) := by
  have hnew (n : ComponentName) : FailsFast (isNew n : Stage H σ Bool) :=
    .bind (isProcessed_failsFast n) fun _ => .pure _
  refine .bind (.edit fun _ p => by cases p <;> rfl) fun _ => ?_
  refine .bind (collectNow_failsFast hnew) fun found => ?_
  split
  · exact .pure _
  · refine .bind .get fun _ => .bind (.record rfl) fun _ => ?_
    exact .bind (runTier_failsFast _) fun _ => .pure _

theorem fixedPoint_failsFast (depth : Nat) : FailsFast (fixedPoint call v depth) := by
  induction depth with
  | zero => exact .silent fun _ _ _ _ h => absurd h (by simp [Run.exceeded])
  | succ depth ih =>
    refine .bind round_failsFast fun tier => ?_
    cases tier with
    | none => exact .pure _
    | some tier => exact .bind ih fun _ => .pure _

theorem mutateFactory_failsFast : FailsFast (mutateFactory call v) := by
  have htier (names : List ComponentName) : FailsFast (runFactoryTier call v names) :=
    .bind (.attempt (.fetchAll _ names)) fun _ => .bind (sort_failsFast _) fun _ =>
      callFactories_failsFast _
  refine .bind (.enter _) fun _ => .bind (names_failsFast _ _ _) fun _ => .bind .get fun _ => ?_
  refine .bind (.attempt (.divide _ _ _)) fun _ => .bind (.record rfl) fun _ => ?_
  refine .bind (sort_failsFast _) fun _ => .bind (callFactories_failsFast _) fun _ => ?_
  exact .bind (htier _) fun _ => htier _

theorem steps_failsFast (depth : Nat) (supplied : List (Extension H)) :
    FailsFast (steps call v depth supplied) := by
  have hclear : FailsFast (Stage.always v.clearCache : Stage H σ Unit) :=
    .silent fun _ => View.clearCache_leaves
  unfold steps
  split
  · refine .bind (.bind (openingTiers_failsFast supplied) fun _ => ?_) fun _ => ?_
    · exact .bind (fixedPoint_failsFast depth) fun _ => .pure _
    · refine .bind (.enter _) fun _ => .bind (callFactories_failsFast _) fun _ => ?_
      refine .bind (callFactories_failsFast _) fun _ => ?_
      exact .bind mutateFactory_failsFast fun _ => hclear
  · refine .bind (.edit fun _ p => by cases p <;> rfl) fun _ => .bind (.record rfl) fun _ => ?_
    refine .bind (.enter _) fun _ => .bind (callFactories_failsFast _) fun _ => ?_
    exact .bind mutateFactory_failsFast fun _ => hclear

/-! ## The end of a run -/

/-- The report of a run that succeeds is closed as done, and that is the last entry of the run. -/
theorem finish_ok {s s' : Invocation} {w' : World H σ} {j : Journal H}
    (h : (finish (.ok ()) : Stage H σ Unit).on s w = some ((.ok (), s'), w', j)) :
    s' = inPhase s .done ∧ ∃ before, j = before ++ [.fact (.pipelineDone s'.report)] := by
  obtain ⟨_, s₁, w₁, j₁, j₂, henter, hclose, rfl⟩ := Stage.bind_eq_ok.1 h
  obtain ⟨rfl, -⟩ := enter_closing .done (by simp) _ _ _ henter
  obtain ⟨_, s₂, w₂, j₂, j₃, hget, hrecord, rfl⟩ := Stage.bind_eq_ok.1 hclose
  cases hget
  cases hrecord
  exact ⟨rfl, j₁, rfl⟩

/-- The report of a run that fails is closed as aborted. -/
theorem finish_error {s s' : Invocation} {x : ExtensionError} {w' : World H σ} {j : Journal H}
    (h : (finish (.error x) : Stage H σ Unit).on s w = some ((.ok (), s'), w', j)) :
    s' = inPhase s .aborted ∧ (Journal.deeds j = [] ∨ Journal.deeds j = [.entered .aborted]) := by
  obtain ⟨_, s₁, w₁, j₁, j₂, hget, hfinish, rfl⟩ := Stage.bind_eq_ok.1 h
  cases hget
  obtain ⟨_, s₂, w₂, j₂, j₃, henter, hrecord, rfl⟩ := Stage.bind_eq_ok.1 hfinish
  rw [Stage.on_enter] at henter
  split at henter
  · rename_i hphase
    cases henter
    cases hrecord
    exact ⟨by rw [inPhase, ← hphase], .inl rfl⟩
  · cases henter
    cases hrecord
    exact ⟨rfl, .inr rfl⟩

theorem Closing.smooth {ds : List (Deed H)} (h : Closing ds) : Deed.Smooth ds := by
  obtain rfl | ⟨q, -, rfl⟩ := h
  · exact Deed.Smooth.nil
  · simp [Deed.Smooth, Deed.error?]

/-- Where the failure belongs to the definition phase, there is no factory callback at all. -/
theorem no_factory_callback {before after ds closing : List (Deed H)} {d : Deed H}
    {x : ExtensionError} (hbefore : ∀ d ∈ before, d.Within .definition)
    (hafter : ∀ d ∈ after, d.Within .factory) (hds : before ++ after = ds ++ d :: closing)
    (hclosing : Closing closing) (hd : d.error? = some x) (hwithin : d.Within .definition) :
    Deed.succeeded .factory (before ++ after) = [] := by
  have hnone : Deed.succeeded .factory before = [] := by
    apply List.filterMap_eq_nil_iff.2
    intro d' hd'
    have hdefinition := hbefore d' hd'
    cases d' with
    | called q e f =>
      cases hdefinition
      cases f <;> rfl
    | _ => rfl
  have hnot : d ∉ after := by
    intro hmem
    have hfactory := hafter d hmem
    obtain ⟨p, e, f, rfl, -⟩ | ⟨n, c, y, rfl, -⟩ := Deed.error?_eq_some.1 hd
    · cases hwithin.symm.trans hfactory
    · cases hwithin.symm.trans hfactory
  -- All that comes after the failure closes the run.
  have hsuffix : ∃ k, closing = k ++ after := by
    obtain ⟨k, -, hk⟩ | ⟨k, -, hk⟩ := List.append_eq_append_iff.1 hds
    · exact absurd (by simp [hk]) hnot
    · cases k with
      | nil => exact absurd (by simp [← show d :: closing = after from hk]) hnot
      | cons y k => exact ⟨k, (List.cons.inj hk).2⟩
  obtain ⟨k, rfl⟩ := hsuffix
  have hall := (hclosing.succeeded .factory).1
  rw [Deed.succeeded_append] at hall
  rw [Deed.succeeded_append, hnone, (List.append_eq_nil_iff.1 hall).2, List.append_nil]

/-- A run that fails ends with the error of one of its fetches or callbacks. -/
theorem invoke_failed {call : Call H σ} {v : View} {depth : Nat} {supplied : List (Extension H)}
    {w w' : World H σ} {x : ExtensionError} {report : Report} {scope : Scope H} {body : Journal H}
    (h : invoke call v depth supplied w = some ((.error x, report), w', [.scope scope body])) :
    ∃ d ∈ Journal.deeds body, d.error? = some x := by
  obtain ⟨s, w₁, j₁, s', j₂, hsteps, -, -, hj⟩ := invoke_parts h
  obtain ⟨-, rfl⟩ := Event.scope.inj (List.cons.inj hj).1
  obtain ⟨-, hending⟩ := steps_failsFast depth supplied {} w (.error x) s w₁ j₁ hsteps
  rw [deeds_started, Journal.deeds_append]
  generalize Journal.deeds j₁ = ds₁ at hending
  cases hending with
  | broken _ ds d _ hd => exact ⟨d, by simp, hd⟩

/-! ## Fail fast -/

/-- The report lists the callbacks that succeeded, wherever the run ended. A run that succeeds had
no failure and is done; the report that its last entry tells is the one it leaves. A run that fails
is aborted: its error is that of one fetch or callback, all before succeeded, and what follows is at
most the change to its last phase. If that fetch or callback belongs to the definition phase, no
factory callback is listed. -/
theorem fails_fast (call : Call H σ) (v : View) (depth : Nat) (supplied : List (Extension H))
    {w w' : World H σ} {result : Except ExtensionError Unit} {report : Report} {j : Journal H}
    (h : invoke call v depth supplied w = some ((result, report), w', j)) :
    ∃ body, j = [.scope (.pipeline v supplied report (error? result)) body] ∧
      report.definitionCalls = (Deed.succeeded .definition (Journal.deeds body)).map (·.name) ∧
      report.factoryCalls = (Deed.succeeded .factory (Journal.deeds body)).map (·.name) ∧
      (result = .ok () → report.phase = .done ∧ (∀ d ∈ Journal.deeds body, d.error? = none) ∧
        ∃ before, body = before ++ [.fact (.pipelineDone report)]) ∧
      ∀ x, result = .error x → report.phase = .aborted ∧ ∃ ds d closing,
        Journal.deeds body = ds ++ d :: closing ∧ (∀ d' ∈ ds, d'.error? = none) ∧
        (closing = [] ∨ closing = [.entered .aborted]) ∧
        ((∃ p e f, d = .called p e (some f) ∧ x = .callback e.name p f) ∨
          ∃ n c y, d = .fetched n c (.error y) ∧ x = .dependency y) ∧
        (d.Within .definition → report.factoryCalls = []) := by
  obtain ⟨body, hbody, hconduct⟩ := invoke_conduct h
  obtain ⟨before, after, hphases, hbefore, hafter⟩ := hconduct.fair
  obtain ⟨s, w₁, j₁, s', j₂, hsteps, hfinish, rfl, hj⟩ := invoke_parts h
  obtain ⟨hcalls, hending⟩ := steps_failsFast depth supplied {} w result s w₁ j₁ hsteps
  obtain ⟨⟨q, hq⟩, hclosing⟩ := finish_leaves result _ _ _ hfinish
  obtain rfl : body = .fact (.pipelineStarted supplied.length) :: (j₁ ++ j₂) := by
    simpa using hbody.symm.trans hj
  rw [deeds_started, Journal.deeds_append] at hphases
  have htold (p : MutationPhase) : s'.report.calls p =
      (Deed.succeeded p (Journal.deeds j₁ ++ Journal.deeds j₂)).map (·.name) := by
    have hsame : s'.report.calls p = s.report.calls p := by
      rw [show s' = inPhase s q from hq]
      cases p <;> rfl
    rw [hsame, hcalls p, Deed.succeeded_append, (hclosing.succeeded p).1, List.append_nil]
    cases p <;> rfl
  refine ⟨_, hj, ?_⟩
  rw [deeds_started, Journal.deeds_append]
  refine ⟨htold .definition, htold .factory, ?_, ?_⟩
  · rintro rfl
    obtain ⟨hdone, k, rfl⟩ := finish_ok hfinish
    refine ⟨by rw [hdone, phase_inPhase], ?_, _, by rw [← List.append_assoc, ← List.cons_append]⟩
    cases hending with
    | smooth _ _ hsmooth => exact hsmooth.append hclosing.smooth
  · rintro x rfl
    obtain ⟨haborted, hlast⟩ := finish_error hfinish
    generalize Journal.deeds j₁ = ds₁ at hending htold hphases
    cases hending with
    | broken _ ds d hsmooth hd =>
      refine ⟨by rw [haborted, phase_inPhase], ds, d, Journal.deeds j₂, ?_, hsmooth, hlast,
        Deed.error?_eq_some.1 hd, fun hwithin => ?_⟩
      · rw [List.append_assoc, List.singleton_append]
      · have hdeeds : before ++ after = ds ++ d :: Journal.deeds j₂ := by
          rw [← hphases, List.append_assoc, List.singleton_append]
        have hnone := no_factory_callback hbefore.within hafter.within hdeeds hclosing hd hwithin
        rw [← hphases] at hnone
        have hfactory := htold .factory
        rw [hnone] at hfactory
        exact hfactory

end Pipeline

/-! ## A run that fails -/

namespace Scenario

def lateFailing : DefinitionSpec :=
  extensionSpec "late" .definitionMutator .unordered { definitionMutator := true }
    [.mk {} (.fail "broken")]

/-- A definition mutator that registers one that fails. -/
def earlyFailing : DefinitionSpec :=
  extensionSpec "early" .definitionMutator (.priority 1) { definitionMutator := true }
    [.mk {} (.perform .quiet (.register lateFailing))]

/-- A run that fails in its first round. -/
def failingRun : Option ((Except ExtensionError Unit × Report) × World Scripted Memory ×
    Journal Scripted) :=
  Pipeline.invoke (behaviour.call 3) (.direct Setup.base) 3 sampleSupplied
    ((Setup.world {}).setRegistry Setup.base
      ((({} : Registry Scripted).define earlyFailing.toDefinition).define adjuster.toDefinition))

theorem failingRun_report :
    failingRun.map (fun p => (p.1.1.isOk, p.1.2)) = some (false,
      { definitionCalls := ["first", "early"], rounds := 1, phase := .aborted }) := by
  decide +kernel

theorem failingRun_error : ∃ x report w' j, failingRun = some ((.error x, report), w', j) := by
  obtain ⟨⟨⟨result, report⟩, w', j⟩, hrun, hreport⟩ :=
    Option.map_eq_some_iff.1 failingRun_report
  cases result with
  | ok _ => cases congrArg Prod.fst hreport
  | error x => exact ⟨x, report, w', j, hrun⟩

/-- After its failure the run does nothing but close its report. -/
theorem failingRun_aborted :
    ∃ x report w' body ds d closing,
      failingRun = some ((.error x, report), w',
        [.scope (.pipeline (.direct Setup.base) sampleSupplied report (some x)) body]) ∧
      report.phase = .aborted ∧ Journal.deeds body = ds ++ d :: closing ∧
      (closing = [] ∨ closing = [.entered .aborted]) ∧ Deed.Smooth ds := by
  obtain ⟨x, report, w', j, hrun⟩ := failingRun_error
  obtain ⟨body, rfl, -, -, -, hfailed⟩ := Pipeline.fails_fast (behaviour.call 3)
    (.direct Setup.base) 3 sampleSupplied hrun
  obtain ⟨haborted, ds, d, closing, hdeeds, hsmooth, hclosing, -, -⟩ := hfailed x rfl
  exact ⟨x, report, w', body, ds, d, closing, hrun, haborted, hdeeds, hclosing, hsmooth⟩

end Scenario

end Startup
