import Mathlib.Data.Finset.Card
import Startup.Proofs.Closed
import Startup.Proofs.Pipeline.Conduct

/-!
How many rounds a run needs. Each round but the last processes a component that was not processed
before, so the rounds end once all names that queries can list are processed. The bound on the
number of rounds, without which the model could not be run, plays no part then.

Main statements: `remaining_lt`, the measure; `invoke_stable`, that more rounds than the measure
allows make no difference; `rounds_le_card`, the bound of the rounds; `invoke_total`, that a run
ends if all its callbacks do.
-/

namespace Startup

variable {H : Host} {σ : Type} {call : Call H σ} {v : View} {s : Invocation} {w : World H σ}

/-! ## Runs that agree in a world -/

theorem Run.bind_congr {α β : Type} {x y : Run H σ α} {f g : α → Run H σ β} (hx : x w = y w)
    (hf : ∀ a w₁ j, x w = some (a, w₁, j) → f a w₁ = g a w₁) : (x >>= f) w = (y >>= g) w := by
  rw [Run.bind_def, Run.bind_def, Run.bind, Run.bind, ← hx]
  cases h : x w with
  | none => rfl
  | some p =>
    obtain ⟨a, w₁, j⟩ := p
    simp only [Option.bind_some]
    rw [hf a w₁ j h]

theorem Run.isSome_bind {α β : Type} {x : Run H σ α} {f : α → Run H σ β}
    (hx : (x w).isSome = true) (hf : ∀ a w₁ j, x w = some (a, w₁, j) → (f a w₁).isSome = true) :
    ((x >>= f) w).isSome = true := by
  obtain ⟨⟨a, w₁, j₁⟩, hxa⟩ := Option.isSome_iff_exists.1 hx
  obtain ⟨⟨b, w₂, j₂⟩, hfb⟩ := Option.isSome_iff_exists.1 (hf a w₁ j₁ hxa)
  exact Option.isSome_iff_exists.2 ⟨_, Run.bind_eq_some.2 ⟨a, w₁, j₁, j₂, hxa, hfb, rfl⟩⟩

namespace Stage

variable {α β : Type}

theorem bind_congr {x y : Stage H σ α} {f g : α → Stage H σ β} (hx : x.on s w = y.on s w)
    (hf : ∀ a s₁ w₁ j, x.on s w = some ((.ok a, s₁), w₁, j) → (f a).on s₁ w₁ = (g a).on s₁ w₁) :
    (x >>= f).on s w = (y >>= g).on s w := by
  rw [on_bind, on_bind]
  refine Run.bind_congr hx fun p w₁ j h => ?_
  rcases p with ⟨_ | a, s₁⟩
  · rfl
  · exact hf a s₁ w₁ j h

theorem isSome_bind {x : Stage H σ α} {f : α → Stage H σ β} (hx : (x.on s w).isSome = true)
    (hf : ∀ a s₁ w₁ j, x.on s w = some ((.ok a, s₁), w₁, j) →
      ((f a).on s₁ w₁).isSome = true) :
    ((x >>= f).on s w).isSome = true := by
  rw [on_bind]
  refine Run.isSome_bind hx fun p w₁ j h => ?_
  rcases p with ⟨_ | a, s₁⟩
  · rfl
  · exact hf a s₁ w₁ j h

end Stage

namespace Pipeline

/-! ## The measure of the rounds -/

/-- A round of a run begins in a state and a world, after the opening tiers and the rounds that
left these entries. -/
inductive RoundBegins (call : Call H σ) (v : View) (supplied : List (Extension H))
    (w : World H σ) : Journal H → List (Journal H) → Invocation → World H σ → Prop
  | first {p s₁ w₁ j} (h : (openingTiers call v supplied).on {} w = some ((.ok p, s₁), w₁, j)) :
      RoundBegins call v supplied w j [] s₁ w₁
  | next {opening rounds tier s₁ w₁ s₂ w₂ j}
      (h : RoundBegins call v supplied w opening rounds s₁ w₁)
      (hround : (round call v).on s₁ w₁ = some ((.ok (some tier), s₂), w₂, j)) :
      RoundBegins call v supplied w opening (rounds ++ [j]) s₂ w₂

/-- All definition mutators that the rounds of a run can find have names in `S`. -/
def ListedIn (call : Call H σ) (v : View) (supplied : List (Extension H)) (w : World H σ)
    (S : Finset ComponentName) : Prop :=
  ∀ opening rounds s₁ w₁, RoundBegins call v supplied w opening rounds s₁ w₁ →
    ∀ n ∈ (w₁.registries.get v.registry).namesFor .definitionMutator true, n ∈ S

/-- The number of names that are not processed yet. -/
def remaining (S : Finset ComponentName) (s : Invocation) : Nat :=
  (S \ s.processed.toFinset).card

variable {supplied : List (Extension H)} {S : Finset ComponentName} {opening : Journal H}
  {rounds : List (Journal H)}

/-- What was done before a round: the opening tiers, and in each round a tier of new components. -/
theorem RoundBegins.course {s₁ : Invocation} {w₁ : World H σ}
    (h : RoundBegins call v supplied w opening rounds s₁ w₁) :
    ∃ c : Course H, Journal.deeds opening = c.opening ∧
      rounds.map Journal.deeds = c.rounds.map Tier.deeds ∧
      s₁ = { c.state with report := { c.state.report with rounds := c.rounds.length } } ∧
      c.names.Nodup ∧ ∀ t ∈ c.rounds, t.found ≠ [] := by
  induction h with
  | first h =>
    obtain ⟨c, -, hrounds, -, rfl, hopening, hnames⟩ := openingTiers_leaves supplied _ _ _ h
    refine ⟨c, hopening, ?_, ?_, hnames, ?_⟩
    · rw [hrounds]
      rfl
    · rw [hrounds]
      rfl
    · rw [hrounds]
      exact fun _ ht => absurd ht List.not_mem_nil
  | @next opening rounds tier s₁ w₁ s₂ w₂ j _ hround ih =>
    obtain ⟨c, hopening, hrounds, rfl, hnames, hfound⟩ := ih
    obtain ⟨hnone, -⟩ | ⟨t, -, hnew, rfl, hds, hnodup, -⟩ := round_leaves hnames _ _ _ hround
    · cases hnone
    · have hall : ({ c with rounds := c.rounds ++ [t] } : Course H).names = c.names ++ t.names := by
        simp [Course.names_eq]
      refine ⟨{ c with rounds := c.rounds ++ [t] }, hopening, ?_, ?_, ?_, ?_⟩
      · rw [List.map_append, List.map_append, hrounds, List.map_singleton, hds]
        rfl
      · simp [Course.state, advance, hall, Course.mutators, Course.tiers]
      · rw [hall]
        exact hnodup
      · rw [List.forall_mem_append]
        exact ⟨hfound, List.forall_mem_singleton.2 hnew⟩

theorem RoundBegins.nodup {s₁ : Invocation} {w₁ : World H σ}
    (h : RoundBegins call v supplied w opening rounds s₁ w₁) : s₁.processed.Nodup := by
  obtain ⟨c, -, -, rfl, hnames, -⟩ := h.course
  exact hnames

/-- A round that finds something leaves fewer names. -/
theorem remaining_lt {s₁ s₂ : Invocation} {w₁ w₂ : World H σ} {tier : List (Extension H)}
    {j : Journal H} (hnodup : s₁.processed.Nodup)
    (hS : ∀ n ∈ (w₁.registries.get v.registry).namesFor .definitionMutator true, n ∈ S)
    (hround : (round call v).on s₁ w₁ = some ((.ok (some tier), s₂), w₂, j)) :
    remaining S s₂ < remaining S s₁ := by
  obtain ⟨hnone, -⟩ | ⟨t, -, hfound, rfl, -, hnew, hlisted⟩ := round_leaves hnodup _ _ _ hround
  · cases hnone
  · obtain ⟨q, hq⟩ := List.exists_mem_of_ne_nil _ hfound
    have hmem : q.1 ∈ t.names := List.mem_map_of_mem hq
    have hfresh : q.1 ∉ s₁.processed := fun hold =>
      (List.nodup_append.1 hnew).2.2 q.1 hold q.1 hmem rfl
    refine Finset.card_lt_card (Finset.ssubset_iff_of_subset ?_ |>.2 ⟨q.1, ?_, ?_⟩)
    · refine Finset.sdiff_subset_sdiff (Finset.Subset.refl S) fun n hn => ?_
      simp only [processed_advance, List.mem_toFinset] at hn ⊢
      exact List.mem_append_left _ hn
    · simp [hS q.1 (hlisted hmem), hfresh]
    · simp [hmem]

theorem remaining_le (S : Finset ComponentName) (s : Invocation) : remaining S s ≤ S.card :=
  Finset.card_le_card Finset.sdiff_subset

/-- Once the bound is larger than the measure, it makes no difference. -/
theorem fixedPoint_stable (hS : ListedIn call v supplied w S) {s₁ : Invocation} {w₁ : World H σ}
    (h : RoundBegins call v supplied w opening rounds s₁ w₁) {k l : Nat} (hk : remaining S s₁ < k)
    (hl : remaining S s₁ < l) :
    (fixedPoint call v k).on s₁ w₁ = (fixedPoint call v l).on s₁ w₁ := by
  induction k generalizing l rounds s₁ w₁ with
  | zero => omega
  | succ k ih =>
    cases l with
    | zero => omega
    | succ l =>
      refine Stage.bind_congr rfl fun tier s₂ w₂ j hround => ?_
      cases tier with
      | none => rfl
      | some tier =>
        have hless := remaining_lt h.nodup (hS _ _ s₁ w₁ h) hround
        exact Stage.bind_congr (ih (h.next hround) (by omega) (by omega)) fun _ _ _ _ _ => rfl

/-! ## The rounds of a report -/

/-- A stage adds at most a number of rounds to the report and takes none away, whether it succeeds
or not. -/
def AddsRounds {α : Type} (k : Nat) (x : Stage H σ α) : Prop :=
  ∀ s w r s' w' j, x.on s w = some ((r, s'), w', j) →
    s.report.rounds ≤ s'.report.rounds ∧ s'.report.rounds ≤ s.report.rounds + k

namespace AddsRounds

variable {α β : Type} {k l : Nat}

theorem mono {x : Stage H σ α} (hx : AddsRounds k x) (h : k ≤ l) : AddsRounds l x := by
  intro s w r s' w' j hrun
  obtain ⟨hle, hbound⟩ := hx s w r s' w' j hrun
  exact ⟨hle, by omega⟩

/-- What leaves the state of the run as it is. -/
theorem of_on {x : Stage H σ α} {y : Run H σ (Except ExtensionError α)}
    (h : ∀ s, x.on s = y >>= fun r => Pure.pure (r, s)) : AddsRounds 0 x := by
  intro s w r s' w' j hrun
  rw [h s] at hrun
  obtain ⟨r', w₁, j₁, j₂, -, hrest, -⟩ := Run.bind_eq_some.1 hrun
  cases hrest
  exact ⟨Nat.le_refl _, Nat.le_refl _⟩

theorem pure (a : α) : AddsRounds 0 (Pure.pure a : Stage H σ α) :=
  of_on (y := Pure.pure (.ok a)) fun s => by rw [Stage.on_pure, pure_bind]

theorem error (e : ExtensionError) : AddsRounds 0 (throw e : Stage H σ α) :=
  of_on (y := Pure.pure (.error e)) fun s => by rw [Stage.on_throw, pure_bind]

theorem always (x : Run H σ α) : AddsRounds 0 (Stage.always x) := by
  refine of_on (y := x >>= fun a => Pure.pure (.ok a)) fun s => ?_
  rw [Stage.on_always, bind_assoc]
  simp only [pure_bind]

theorem attempt (x : Attempt H σ DependencyError α) : AddsRounds 0 (Stage.attempt x) :=
  of_on fun s => Stage.on_of _ s

theorem get : AddsRounds 0 (MonadState.get : Stage H σ Invocation) := by
  intro s w r s' w' j hrun
  cases hrun
  exact ⟨Nat.le_refl _, Nat.le_refl _⟩

theorem edit {f : Invocation → Invocation}
    (hle : ∀ s, s.report.rounds ≤ (f s).report.rounds)
    (hbound : ∀ s, (f s).report.rounds ≤ s.report.rounds + k) :
    AddsRounds k (modify f : Stage H σ Unit) := by
  intro s w r s' w' j hrun
  cases hrun
  exact ⟨hle s, hbound s⟩

/-- What changes the state of the run and not the number of rounds. -/
theorem edit_same {f : Invocation → Invocation}
    (h : ∀ s, (f s).report.rounds = s.report.rounds) :
    AddsRounds 0 (modify f : Stage H σ Unit) :=
  edit (fun s => (h s).ge) fun s => (h s).le

theorem bind {x : Stage H σ α} {f : α → Stage H σ β} (hx : AddsRounds k x)
    (hf : ∀ a, AddsRounds l (f a)) : AddsRounds (k + l) (x >>= f) := by
  intro s w r s' w' j hrun
  rw [Stage.on_bind] at hrun
  obtain ⟨⟨r₁, s₁⟩, w₁, j₁, j₂, h₁, h₂, -⟩ := Run.bind_eq_some.1 hrun
  obtain ⟨hle, hbound⟩ := hx s w r₁ s₁ w₁ j₁ h₁
  cases r₁ with
  | ok a =>
    obtain ⟨hle', hbound'⟩ := hf a s₁ w₁ r s' w' j₂ h₂
    exact ⟨by omega, by omega⟩
  | error e =>
    cases h₂
    exact ⟨hle, by omega⟩

theorem silent_bind {x : Stage H σ α} {f : α → Stage H σ β} (hx : AddsRounds 0 x)
    (hf : ∀ a, AddsRounds k (f a)) : AddsRounds k (x >>= f) := by
  have hadds := bind hx hf
  rw [Nat.zero_add] at hadds
  exact hadds

theorem enter (p : Phase) : AddsRounds 0 (Stage.enter p : Stage H σ Unit) := by
  refine silent_bind get fun s => ?_
  split
  · exact silent_bind (always _) fun _ => edit_same fun _ => rfl
  · exact pure _

theorem callDefinition (e : Extension H) : AddsRounds 0 (callDefinition call v e) := by
  unfold Pipeline.callDefinition
  split
  · refine silent_bind (always _) fun result => ?_
    cases result with
    | error f => exact error _
    | ok _ => exact edit_same fun _ => rfl
  · exact pure _

theorem callDefinitions (es : List (Extension H)) : AddsRounds 0 (callDefinitions call v es) := by
  induction es with
  | nil => exact pure _
  | cons e rest ih => exact silent_bind (callDefinition e) fun _ => ih

theorem callFactory (e : Extension H) : AddsRounds 0 (callFactory call v e) := by
  unfold Pipeline.callFactory
  split
  · refine silent_bind (always _) fun result => ?_
    cases result with
    | error f => exact error _
    | ok _ => exact edit_same fun _ => rfl
  · exact always _

theorem callFactories (es : List (Extension H)) : AddsRounds 0 (callFactories call v es) := by
  induction es with
  | nil => exact pure _
  | cons e rest ih => exact silent_bind (callFactory e) fun _ => ih

theorem separate (es : List (Extension H)) : AddsRounds 0 (separate call v es) := by
  induction es with
  | nil => exact pure _
  | cons e rest ih =>
    unfold Pipeline.separate
    split
    · exact silent_bind (callDefinition e) fun _ => silent_bind ih fun _ => pure _
    · split
      · exact silent_bind ih fun _ => pure _
      · exact silent_bind (always _) fun _ => ih

theorem isProcessed (n : ComponentName) :
    AddsRounds 0 (Stage.isProcessed n : Stage H σ Bool) :=
  silent_bind get fun _ => pure _

theorem collectNow {wanted : ComponentName → Stage H σ Bool}
    (hwanted : ∀ n, AddsRounds 0 (wanted n)) : AddsRounds 0 (collectNow call v wanted) := by
  refine silent_bind (always _) fun names => ?_
  induction names with
  | nil => exact pure _
  | cons n rest ih =>
    refine silent_bind (hwanted n) fun answer => ?_
    split
    · refine silent_bind (attempt _) fun e => ?_
      refine silent_bind (edit_same fun _ => rfl) fun _ => ?_
      exact silent_bind ih fun _ => pure _
    · exact ih

theorem runTier (tier : List (Extension H)) : AddsRounds 0 (runTier call v tier) :=
  silent_bind (always _) fun _ => silent_bind (callDefinitions _) fun _ => pure _

theorem openingTiers (supplied : List (Extension H)) :
    AddsRounds 0 (openingTiers call v supplied) := by
  have hordered (n : ComponentName) : AddsRounds 0 (isOrdered v n : Stage H σ Bool) := by
    refine silent_bind (isProcessed n) fun processed => ?_
    split
    · exact pure _
    · exact always _
  refine silent_bind (enter _) fun _ => ?_
  refine silent_bind (separate supplied) fun _ => ?_
  refine silent_bind (enter _) fun _ => ?_
  refine silent_bind (collectNow fun _ => always _) fun _ => silent_bind (runTier _) fun _ => ?_
  refine silent_bind (enter _) fun _ => ?_
  refine silent_bind (collectNow hordered) fun _ => silent_bind (runTier _) fun _ => ?_
  exact silent_bind (enter _) fun _ => pure _

theorem round : AddsRounds 1 (round call v) := by
  refine bind (l := 0) (edit (fun _ => Nat.le_succ _) fun _ => Nat.le_refl _) fun _ => ?_
  have hnew (n : ComponentName) : AddsRounds 0 (isNew n : Stage H σ Bool) :=
    silent_bind (isProcessed n) fun _ => pure _
  refine silent_bind (collectNow hnew) fun found => ?_
  split
  · exact pure _
  · refine silent_bind get fun _ => silent_bind (always _) fun _ => ?_
    exact silent_bind (runTier _) fun _ => pure _

theorem fixedPoint (depth : Nat) : AddsRounds depth (fixedPoint call v depth) := by
  induction depth with
  | zero => exact always _
  | succ depth ih =>
    have hadds : AddsRounds (1 + depth) (Pipeline.fixedPoint call v (depth + 1)) := by
      refine bind round fun tier => ?_
      cases tier with
      | none => exact (pure _).mono (Nat.zero_le _)
      | some tier => exact bind (l := 0) ih fun _ => pure _
    rw [Nat.add_comm 1 depth] at hadds
    exact hadds

theorem mutateFactory : AddsRounds 0 (mutateFactory call v) := by
  have htier (names : List ComponentName) : AddsRounds 0 (runFactoryTier call v names) :=
    silent_bind (attempt _) fun _ => silent_bind (always _) fun _ => callFactories _
  refine silent_bind (enter _) fun _ => silent_bind (always _) fun _ => ?_
  refine silent_bind get fun _ => silent_bind (attempt _) fun _ => ?_
  refine silent_bind (always _) fun _ => silent_bind (always _) fun _ => ?_
  refine silent_bind (callFactories _) fun _ => ?_
  exact silent_bind (htier _) fun _ => htier _

/-- All rounds of a run belong to its definition phase. -/
theorem mutateDefinitions (depth : Nat) (supplied : List (Extension H)) :
    AddsRounds depth (mutateDefinitions call v depth supplied) :=
  silent_bind (openingTiers supplied) fun _ => bind (l := 0) (fixedPoint depth) fun _ => pure _

/-- What comes after the definition phase. -/
theorem factoryPhase (p : List (Extension H) × List (Extension H)) :
    AddsRounds 0 (factoryPhase call v p) :=
  silent_bind (enter _) fun _ => silent_bind (callFactories _) fun _ =>
    silent_bind (callFactories _) fun _ => silent_bind mutateFactory fun _ => always _

theorem steps (depth : Nat) (supplied : List (Extension H)) :
    AddsRounds depth (steps call v depth supplied) := by
  by_cases hv : v.writable = true
  · rw [steps_eq hv]
    exact bind (l := 0) (mutateDefinitions depth supplied) factoryPhase
  · unfold Pipeline.steps
    rw [if_neg hv]
    refine silent_bind (edit_same fun _ => rfl) fun _ => silent_bind (always _) fun _ => ?_
    refine silent_bind (enter _) fun _ => silent_bind (callFactories _) fun _ => ?_
    exact (silent_bind mutateFactory fun _ => always _).mono (Nat.zero_le _)

end AddsRounds

/-- A run has no more rounds than it is bounded to, whether it succeeds or not. -/
theorem rounds_le {depth : Nat} {supplied : List (Extension H)}
    {result : Except ExtensionError Unit} {report : Report} {w' : World H σ} {j : Journal H}
    (h : invoke call v depth supplied w = some ((result, report), w', j)) :
    report.rounds ≤ depth := by
  obtain ⟨s, w₁, j₁, p, j₂, hsteps, rfl, -, -⟩ := invoke_eq_some h
  have hrounds := (AddsRounds.steps depth supplied {} w result s w₁ j₁ hsteps).2
  simpa [inPhase] using hrounds

/-! ## Termination -/

/-- A run that ends, wherever it begins. -/
def Total {α : Type} (x : Run H σ α) : Prop := ∀ w, (x w).isSome = true

namespace Total

variable {α β ε : Type}

theorem bind {x : Run H σ α} {f : α → Run H σ β} (hx : Total x) (hf : ∀ a, Total (f a)) :
    Total (x >>= f) :=
  fun w => Run.isSome_bind (hx w) fun a w₁ _ _ => hf a w₁

theorem within {x : Run H σ α} (s : α → Scope H) (hx : Total x) : Total (Run.within s x) := by
  intro w
  rw [Run.within, Option.isSome_map]
  exact hx w

theorem attempt_always {x : Run H σ α} {f : α → Attempt H σ ε β} (hx : Total x)
    (hf : ∀ a, Total (f a).run) : Total (Attempt.always x >>= f).run := by
  rw [Attempt.run_bind_always]
  exact bind hx hf

theorem create {r : ObjectId} {n : ComponentName} {d : Definition H}
    (hbuild : ∀ chain, Total (Creation.build call (.direct r) n d chain).run) :
    Total (Creation.create call r n d).run := by
  refine attempt_always (fun _ => rfl) fun s => ?_
  split
  · exact fun _ => rfl
  · refine attempt_always (fun _ => rfl) fun _ => ?_
    refine attempt_always (within _ (hbuild _)) fun result => ?_
    refine attempt_always (fun _ => rfl) fun s' => ?_
    exact attempt_always (fun _ => rfl) fun _ => fun _ => rfl

theorem resolve (v : View) (n : ComponentName)
    (hbuild : ∀ d chain, Total (Creation.build call (.direct v.registry) n d chain).run) :
    Total (v.resolve call n).run := by
  refine within _ (attempt_always (fun _ => rfl) fun s => ?_)
  split
  · exact fun _ => rfl
  · split
    · exact fun _ => rfl
    · exact attempt_always (fun _ => rfl) fun _ => create (hbuild _)

theorem coarse : Coarse (fun {α} (x : Run H σ α) => Total x) where
  pure _ _ := rfl
  bind := bind
  ask _ _ := rfl
  fresh _ := rfl
  change _ _ _ := rfl
  record _ _ _ := rfl
  within s _ _ hx := within s hx

/-- If all callbacks end, then so does all that the library does, apart from rounds. -/
theorem closed (hcall : ∀ cb w, (call cb w).isSome = true) :
    Closed call (fun {α} (x : Run H σ α) => Total x) := by
  refine coarse.closed (fun r d w => ?_) (fun r n w => ?_) (fun r n i w => ?_) (fun v e w => ?_)
    (fun _ _ => rfl) (fun v n h => resolve v n h) hcall
  · rw [Registry.register_run]
    split <;> rfl
  · rw [Registry.remove_run]
    split <;> rfl
  · rw [Registry.registerInstance_run]
    split <;> rfl
  · rw [View.install_run]
    split <;> rfl

theorem factoryPhase (hcall : ∀ cb w, (call cb w).isSome = true)
    (p : List (Extension H) × List (Extension H)) (s : Invocation) :
    Total ((factoryPhase call v p).on s) := by
  have h := closed hcall
  refine h.stage_bind (h.enter _ s) fun _ s₁ => ?_
  refine h.stage_bind (h.callFactories v _ s₁) fun _ s₂ => ?_
  refine h.stage_bind (h.callFactories v _ s₂) fun _ s₃ => ?_
  exact h.stage_bind (h.mutateFactory v s₃) fun _ s₄ => h.stage_always (h.clearCache v) s₄

/-- Where definitions cannot be changed, there are no rounds. -/
theorem degraded (hcall : ∀ cb w, (call cb w).isSome = true) (hv : ¬v.writable = true)
    (depth : Nat) (supplied : List (Extension H)) (s : Invocation) :
    Total ((steps call v depth supplied).on s) := by
  have h := closed hcall
  unfold steps
  rw [if_neg hv]
  refine h.stage_bind (fun _ => rfl) fun _ s₁ => ?_
  refine h.stage_bind (h.stage_always (fun _ => rfl) s₁) fun _ s₂ => ?_
  refine h.stage_bind (h.enter _ s₂) fun _ s₃ => ?_
  refine h.stage_bind (h.callFactories v _ s₃) fun _ s₄ => ?_
  exact h.stage_bind (h.mutateFactory v s₄) fun _ s₅ => h.stage_always (h.clearCache v) s₅

end Total

/-- If all callbacks end, then so do the rounds. -/
theorem fixedPoint_total (hcall : ∀ cb w, (call cb w).isSome = true)
    (hS : ListedIn call v supplied w S) {s₁ : Invocation} {w₁ : World H σ}
    (h : RoundBegins call v supplied w opening rounds s₁ w₁) {k : Nat} (hk : remaining S s₁ < k) :
    ((fixedPoint call v k).on s₁ w₁).isSome = true := by
  have hclosed := Total.closed hcall
  induction k generalizing rounds s₁ w₁ with
  | zero => omega
  | succ k ih =>
    refine Stage.isSome_bind (hclosed.round v s₁ w₁) fun tier s₂ w₂ j hround => ?_
    cases tier with
    | none => rfl
    | some tier =>
      have hless := remaining_lt h.nodup (hS _ _ s₁ w₁ h) hround
      exact Stage.isSome_bind (ih (h.next hround) (by omega)) fun _ _ _ _ _ => rfl

/-! ## Runs with enough rounds -/

theorem mutateDefinitions_stable (hS : ListedIn call v supplied w S) {k l : Nat}
    (hk : S.card < k) (hl : S.card < l) :
    (mutateDefinitions call v k supplied).on {} w =
      (mutateDefinitions call v l supplied).on {} w := by
  refine Stage.bind_congr rfl fun p s₁ w₁ j hopening => ?_
  have hle := remaining_le S s₁
  exact Stage.bind_congr (fixedPoint_stable hS (.first hopening) (by omega) (by omega))
    fun _ _ _ _ _ => rfl

theorem steps_stable (hv : v.writable = true) (hS : ListedIn call v supplied w S) {k l : Nat}
    (hk : S.card < k) (hl : S.card < l) :
    (steps call v k supplied).on {} w = (steps call v l supplied).on {} w := by
  rw [steps_eq hv, steps_eq hv]
  exact Stage.bind_congr (mutateDefinitions_stable hS hk hl) fun _ _ _ _ _ => rfl

/-- The rounds of a run are not cut short by a bound that is larger than the number of names. -/
theorem invoke_stable (hv : v.writable = true) (hS : ListedIn call v supplied w S) {k l : Nat}
    (hk : S.card < k) (hl : S.card < l) :
    invoke call v k supplied w = invoke call v l supplied w := by
  refine congrArg (Option.map _) (Run.bind_congr rfl fun _ w₁ j h => ?_)
  cases h
  exact Run.bind_congr (steps_stable hv hS hk hl) fun _ _ _ _ => rfl

/-- A run has at most one round more than there are names, however often callbacks register
something. -/
theorem rounds_le_card (hv : v.writable = true) (hS : ListedIn call v supplied w S) {depth : Nat}
    {result : Except ExtensionError Unit} {report : Report} {w' : World H σ} {j : Journal H}
    (h : invoke call v depth supplied w = some ((result, report), w', j)) :
    report.rounds ≤ S.card + 1 := by
  by_cases hdepth : S.card < depth
  · rw [invoke_stable hv hS hdepth (Nat.lt_succ_self _)] at h
    exact rounds_le h
  · have hrounds := rounds_le h
    omega

theorem steps_total (hcall : ∀ cb w, (call cb w).isSome = true)
    (hS : ListedIn call v supplied w S) :
    ((steps call v (S.card + 1) supplied).on {} w).isSome = true := by
  have hclosed := Total.closed hcall
  by_cases hv : v.writable = true
  · rw [steps_eq hv]
    refine Stage.isSome_bind ?_ fun p s₁ w₁ _ _ => Total.factoryPhase hcall p s₁ w₁
    refine Stage.isSome_bind (hclosed.openingTiers v supplied {} w) fun p s₁ w₁ j hopening => ?_
    have hle := remaining_le S s₁
    exact Stage.isSome_bind (fixedPoint_total hcall hS (.first hopening) (by omega))
      fun _ _ _ _ _ => rfl
  · exact Total.degraded hcall hv _ supplied {} w

/-- A run comes to an end if all callbacks do and the names that they can register are bounded. -/
theorem invoke_total (hcall : ∀ cb w, (call cb w).isSome = true)
    (hS : ListedIn call v supplied w S) :
    (invoke call v (S.card + 1) supplied w).isSome = true := by
  rw [invoke, Run.within, Option.isSome_map]
  refine Run.isSome_bind rfl fun _ w₁ j h => ?_
  cases h
  refine Run.isSome_bind (steps_total hcall hS) fun p w₂ _ _ => ?_
  exact Run.isSome_bind ((Total.closed hcall).finish p.1 p.2 w₂) fun _ _ _ _ => rfl

/-! ## The rounds of one run -/

/-- Whether `p` holds before a round and before all rounds after it, which are not more than a
number. -/
def rehearse (call : Call H σ) (v : View) (p : Journal H → World H σ → Bool) :
    Nat → Journal H → Invocation → World H σ → Bool
  | 0, _, _, _ => false
  | k + 1, past, s, w =>
    p past w && match (round call v).on s w with
      | some ((.ok (some _), s'), w', j) => rehearse call v p k (past ++ j) s' w'
      | _ => true

/-- Whether `p` holds before every round of a run. -/
def rehearsal (call : Call H σ) (v : View) (supplied : List (Extension H)) (w : World H σ)
    (p : Journal H → World H σ → Bool) (k : Nat) : Bool :=
  match (openingTiers call v supplied).on {} w with
  | some ((.ok _, s), w₁, j) => rehearse call v p k j s w₁
  | _ => true

theorem RoundBegins.rehearsed {p : Journal H → World H σ → Bool} {k : Nat}
    (hall : rehearsal call v supplied w p k = true) {s₁ : Invocation} {w₁ : World H σ}
    (h : RoundBegins call v supplied w opening rounds s₁ w₁) :
    p (opening ++ rounds.flatten) w₁ = true := by
  suffices hmore : ∃ l, rehearse call v p l (opening ++ rounds.flatten) s₁ w₁ = true by
    obtain ⟨l, hl⟩ := hmore
    cases l with
    | zero => cases hl
    | succ l => exact (Bool.and_eq_true_iff.1 hl).1
  induction h with
  | first hopening =>
    rw [rehearsal, hopening] at hall
    exact ⟨k, by simpa using hall⟩
  | next h hround ih =>
    obtain ⟨l, hl⟩ := ih
    cases l with
    | zero => cases hl
    | succ l =>
      have hlater := (Bool.and_eq_true_iff.1 hl).2
      rw [hround] at hlater
      exact ⟨l, by simpa using hlater⟩

/-- The names that a rehearsal found cover all that the rounds can find. -/
theorem ListedIn.of_rehearsal {k : Nat} (h : rehearsal call v supplied w (fun _ w₁ =>
      ((w₁.registries.get v.registry).namesFor .definitionMutator true).all (· ∈ S)) k = true) :
    ListedIn call v supplied w S := by
  intro opening rounds s₁ w₁ hbegins
  simpa using hbegins.rehearsed h

end Pipeline

/-! ## Callbacks that end -/

namespace Call

/-- The same callbacks, but where one comes to no end it answers at once and does nothing. -/
def completed (call : Call H σ) (answer : (cb : Callback H) → cb.Answer) : Call H σ := fun cb w =>
  (call cb w).or (some (answer cb, w, []))

variable (answer : (cb : Callback H) → cb.Answer)

theorem completed_isSome (call : Call H σ) (cb : Callback H) (w : World H σ) :
    (call.completed answer cb w).isSome = true := by
  cases h : call cb w <;> simp [completed, h]

end Call

namespace Scenario

def unanswered : (cb : Callback Scripted) → cb.Answer
  | .create .. | .before .. | .after .. => .error (.plain "no answer")
  | .mutateDefinitions .. | .mutateFactory .. | .merged .. => .error (.plain "no answer")
  | .event .. => ()

/-- The callbacks of a scenario as far as they nest three deep. -/
def patient : Call Scripted Memory := (behaviour.call 3).completed unanswered

end Scenario

end Startup
