import Startup.Proofs.Pipeline.Once
import Startup.Proofs.Pipeline.Walks

/-!
Where the extensions come from that a run calls.

Main statements: `invoke_sources`, that each of them was supplied or was fetched by the run before
the callback, whether the run succeeds or fails; `Settled.executes`, that a run that succeeds has
called all that it fetched.
-/

namespace Startup

variable {H : Host} {σ : Type}

namespace Deed

/-- Callbacks are made only of extensions that are known when the deeds begin, or that were fetched
among them before. -/
def Sourced (known : List (Extension H)) : List (Deed H) → Prop
  | [] => True
  | d :: rest => (∀ p e f?, d = .called p e f? → e ∈ known) ∧
      Sourced (known ++ d.extension?.toList) rest

variable {known known' : List (Extension H)} {ds ds' : List (Deed H)}

theorem fetchedExtensions_cons (d : Deed H) (ds : List (Deed H)) :
    fetchedExtensions (d :: ds) = d.extension?.toList ++ fetchedExtensions ds := by
  cases h : d.extension? <;> simp [fetchedExtensions, h]

theorem sourced_append : Sourced known (ds ++ ds') ↔
    Sourced known ds ∧ Sourced (known ++ fetchedExtensions ds) ds' := by
  induction ds generalizing known with
  | nil => simp [Sourced, fetchedExtensions]
  | cons d rest ih =>
    simp only [List.cons_append, Sourced, ih, fetchedExtensions_cons, List.append_assoc, and_assoc]

theorem Sourced.of_uncalled (h : callbacks ds = []) : Sourced known ds := by
  induction ds generalizing known with
  | nil => trivial
  | cons d rest ih =>
    have hnone : ∀ d' ∈ d :: rest, d'.phase?.isSome ≠ true := List.filter_eq_nil_iff.1 h
    refine ⟨fun p e f? hd => ?_, ih (List.filter_eq_nil_iff.2 fun d' hd' =>
      hnone d' (List.mem_cons_of_mem d hd'))⟩
    subst hd
    exact absurd rfl (hnone _ List.mem_cons_self)

theorem Sourced.singleton {p : MutationPhase} {e : Extension H} (he : e ∈ known)
    (f? : Option Failure) : Sourced known [.called p e f?] := by
  refine ⟨fun q e' g? h => ?_, trivial⟩
  cases h
  exact he

theorem Sourced.mem {p : MutationPhase} {e : Extension H} {f? : Option Failure}
    (h : Sourced known (ds ++ .called p e f? :: ds')) : e ∈ known ∨ e ∈ fetchedExtensions ds :=
  List.mem_append.1 ((sourced_append.1 h).2.1 p e f? rfl)

end Deed

/-! ## Stages -/

/-- A stage makes callbacks only of extensions that are known when it begins, or that it has fetched
before, whether it succeeds or not; and if it succeeds, the extensions that `members` reads off its
value are known then. -/
def Stage.Draws {α : Type} (known : List (Extension H)) (x : Stage H σ α)
    (members : α → List (Extension H)) : Prop :=
  ∀ s w, x.Leaves s w
    (fun a _ _ ds => Deed.Sourced known ds ∧ members a ⊆ known ++ Deed.fetchedExtensions ds)
    (Deed.Sourced known)

namespace Stage.Draws

variable {α β : Type} {known : List (Extension H)}

theorem bind {x : Stage H σ α} {f : α → Stage H σ β} {m : α → List (Extension H)}
    {members : β → List (Extension H)} (hx : Draws known x m)
    (hf : ∀ a later, known ⊆ later → m a ⊆ later → Draws later (f a) members) :
    Draws known (x >>= f) members := by
  intro s w
  refine Stage.Leaves.bind (hx s w) (fun a s₁ w₁ ds₁ h₁ => ?_) fun _ => id
  obtain ⟨hsourced, hmid⟩ := h₁
  refine (hf a _ (List.subset_append_left ..) hmid s₁ w₁).mono ?_ fun ds hds =>
    Deed.sourced_append.2 ⟨hsourced, hds⟩
  rintro b s₂ w₂ ds ⟨hds, hmembers⟩
  refine ⟨Deed.sourced_append.2 ⟨hsourced, hds⟩, ?_⟩
  rw [Deed.fetchedExtensions_append, ← List.append_assoc]
  exact hmembers

theorem done {a : α} {members : α → List (Extension H)} (h : members a ⊆ known) :
    Draws known (Pure.pure a : Stage H σ α) members :=
  fun _ _ => Stage.Leaves.pure ⟨trivial, by simpa [Deed.fetchedExtensions] using h⟩

theorem throw (e : ExtensionError) {members : α → List (Extension H)} :
    Draws known (MonadExcept.throw e : Stage H σ α) members :=
  fun _ _ => Stage.Leaves.throw trivial

theorem edit (f : Invocation → Invocation) :
    Draws known (modify f : Stage H σ Unit) fun _ => [] :=
  fun _ _ => Stage.Leaves.modify ⟨trivial, List.nil_subset _⟩

theorem get : Draws known (MonadState.get : Stage H σ Invocation) fun _ => [] := by
  intro s w p w' j h
  cases h
  exact ⟨trivial, List.nil_subset _⟩

/-- A run on the account of a stage that neither fetches nor calls. -/
theorem silent {x : Run H σ α} {members : α → List (Extension H)}
    (hx : ∀ w, x.Leaves w fun a _ ds => members a ⊆ known ∧ ds = []) :
    Draws known (Stage.always x) members := by
  refine fun s w => Stage.Leaves.always ((hx w).mono fun a w' ds h => ?_)
  obtain ⟨hmembers, rfl⟩ := h
  rw [Deed.fetchedExtensions, List.filterMap_nil, List.append_nil]
  exact ⟨trivial, hmembers⟩

theorem record {f : Fact H} (hf : Event.deed? (.fact f) = none) :
    Draws known (Stage.always (Run.record f) : Stage H σ Unit) fun _ => [] :=
  silent fun _ => (Run.record_leaves hf).mono fun _ _ _ h => ⟨List.nil_subset _, h.2⟩

theorem enter (p : Phase) : Draws known (Stage.enter p : Stage H σ Unit) fun _ => [] := by
  refine bind get fun s later _ _ => ?_
  split
  · refine bind (m := fun _ => []) (fun s w => ?_) fun _ _ _ _ => edit _
    refine Stage.Leaves.always fun _ w' j h => ?_
    cases h
    exact ⟨Deed.Sourced.of_uncalled rfl, List.nil_subset _⟩
  · exact done (List.nil_subset _)

end Stage.Draws

namespace Pipeline

open Stage (Draws)

variable {call : Call H σ} {v : View} {known : List (Extension H)}

/-! ## Fetches and callbacks -/

theorem fetch_draws (n : ComponentName) (c : Capability) :
    Draws known (Stage.attempt (v.fetch call n c)) fun e => [e] := by
  intro s w
  refine (Stage.Leaves.attempt (View.fetch_leaves call v n c)).mono ?_ ?_
  · rintro e _ _ _ ⟨-, -, rfl⟩
    exact ⟨Deed.Sourced.of_uncalled rfl, by simp [Deed.fetchedExtensions, Deed.extension?]⟩
  · rintro _ ⟨x, rfl⟩
    exact Deed.Sourced.of_uncalled rfl

theorem mutation_draws {p : MutationPhase} {e : Extension H} (he : e ∈ known)
    (x : Run H σ (Except Failure Unit)) (tell : Invocation → Invocation)
    (hx : ∀ w, x.Leaves w fun _ _ ds => ∃ f?, ds = [.called p e f?]) :
    Draws known (do
      match ← Stage.always x with
      | .error f => throw (.callback e.name p f)
      | .ok _ => modify tell : Stage H σ Unit) fun _ => [] := by
  refine .bind (m := fun _ => []) (fun s w => ?_) fun r later _ _ => ?_
  · refine Stage.Leaves.always ((hx w).mono ?_)
    rintro r w' _ ⟨f?, rfl⟩
    exact ⟨.singleton he f?, List.nil_subset _⟩
  · cases r with
    | error f => exact .throw _
    | ok _ => exact .edit _

theorem callDefinition_draws {e : Extension H} (he : e ∈ known) :
    Draws known (callDefinition call v e) fun _ => [] := by
  unfold callDefinition
  split
  · refine mutation_draws he _ _ fun w => ?_
    refine Run.Leaves.mono (mutation_leaves (.mutateDefinitions e v) _ (fun a =>
      .called .definition e (Callback.failure? (.mutateDefinitions e v) a)) fun _ _ => rfl) ?_
    exact fun a _ _ hds => ⟨_, hds⟩
  · exact .done (List.nil_subset _)

theorem callFactory_draws {e : Extension H} (he : e ∈ known) :
    Draws known (callFactory call v e) fun _ => [] := by
  unfold callFactory
  split
  · refine mutation_draws he _ _ fun w => ?_
    refine Run.Leaves.mono (mutation_leaves (.mutateFactory e v) _ (fun a =>
      .called .factory e (Callback.failure? (.mutateFactory e v) a)) fun _ _ => rfl) ?_
    exact fun a _ _ hds => ⟨_, hds⟩
  · refine .silent fun w => Run.Leaves.within fun a w' j h => ?_
    cases h
    exact ⟨List.nil_subset _, rfl⟩

theorem callDefinitions_draws {es : List (Extension H)} (h : es ⊆ known) :
    Draws known (callDefinitions call v es) fun _ => [] := by
  induction es generalizing known with
  | nil => exact .done (List.nil_subset _)
  | cons e rest ih =>
    obtain ⟨he, hrest⟩ := List.cons_subset.1 h
    exact .bind (callDefinition_draws he) fun _ later hmore _ => ih (List.Subset.trans hrest hmore)

theorem callFactories_draws {es : List (Extension H)} (h : es ⊆ known) :
    Draws known (callFactories call v es) fun _ => [] := by
  induction es generalizing known with
  | nil => exact .done (List.nil_subset _)
  | cons e rest ih =>
    obtain ⟨he, hrest⟩ := List.cons_subset.1 h
    exact .bind (callFactory_draws he) fun _ later hmore _ => ih (List.Subset.trans hrest hmore)

theorem sort_draws {es : List (Extension H)} (h : es ⊆ known) :
    Draws known (Stage.always (v.sort es) : Stage H σ _) id :=
  .silent fun _ => (View.sort_leaves v es).mono fun _ _ _ hsorted =>
    ⟨List.Subset.trans hsorted.1.1.subset h, hsorted.2⟩

theorem names_draws (c : Capability) :
    Draws known (Stage.always (v.names c true false) : Stage H σ _) fun _ => [] :=
  .silent fun _ => (View.names_leaves v c true false).mono fun _ _ _ h => ⟨List.nil_subset _, h.2⟩

theorem isMatch_draws (n : ComponentName) (c : Capability) :
    Draws known (Stage.always (v.isMatch n c) : Stage H σ _) fun _ => [] :=
  .silent fun _ => (View.isMatch_leaves v n c).mono fun _ _ _ h => ⟨List.nil_subset _, h⟩

theorem isProcessed_draws (n : ComponentName) :
    Draws known (Stage.isProcessed n : Stage H σ Bool) fun _ => [] :=
  .bind .get fun _ _ _ _ => .done (List.nil_subset _)

/-! ## Tiers of definition mutators -/

theorem separate_draws {es : List (Extension H)} (h : es ⊆ known) :
    Draws known (separate call v es) fun p => p.1 ++ p.2 := by
  induction es generalizing known with
  | nil => exact .done (List.nil_subset _)
  | cons e rest ih =>
    obtain ⟨he, hrest⟩ := List.cons_subset.1 h
    unfold separate
    split
    · refine .bind (callDefinition_draws he) fun _ l₁ h₁ _ => ?_
      refine .bind (ih (List.Subset.trans hrest h₁)) fun p l₂ h₂ hp => .done ?_
      exact List.cons_subset.2 ⟨h₂ (h₁ he), hp⟩
    · split
      · refine .bind (ih hrest) fun p l₁ h₁ hp => .done ?_
        simp only [List.append_subset, List.cons_subset] at hp ⊢
        exact ⟨hp.1, h₁ he, hp.2⟩
      · exact .bind (.record rfl) fun _ l₁ h₁ _ => ih (List.Subset.trans hrest h₁)

theorem collect_draws {wanted : ComponentName → Stage H σ Bool}
    (hwanted : ∀ n known, Draws known (wanted n) fun _ => []) (names : List ComponentName) :
    Draws known (collect call v wanted names) id := by
  induction names generalizing known with
  | nil => exact .done (List.nil_subset _)
  | cons n rest ih =>
    refine .bind (hwanted n known) fun answer l₁ _ _ => ?_
    split
    · refine .bind (fetch_draws n _) fun e l₂ _ he => .bind (.edit _) fun _ l₃ h₃ _ => ?_
      refine .bind ih fun es l₄ h₄ hes => .done ?_
      exact List.cons_subset.2 ⟨h₄ (h₃ (he List.mem_cons_self)), hes⟩
    · exact ih

theorem collectNow_draws {wanted : ComponentName → Stage H σ Bool}
    (hwanted : ∀ n known, Draws known (wanted n) fun _ => []) :
    Draws known (collectNow call v wanted) id :=
  .bind (names_draws _) fun names _ _ _ => collect_draws hwanted names

theorem runTier_draws {tier : List (Extension H)} (h : tier ⊆ known) :
    Draws known (runTier call v tier) id := by
  refine .bind (sort_draws h) fun sorted l₁ _ hsorted => ?_
  exact .bind (callDefinitions_draws hsorted) fun _ l₂ h₂ _ => .done (List.Subset.trans hsorted h₂)

theorem openingTiers_draws (supplied : List (Extension H)) :
    Draws supplied (openingTiers call v supplied) fun p => p.1 ++ p.2 := by
  have hordered (n : ComponentName) (known : List (Extension H)) :
      Draws known (isOrdered v n : Stage H σ Bool) fun _ => [] := by
    refine .bind (isProcessed_draws n) fun processed l _ _ => ?_
    split
    · exact .done (List.nil_subset _)
    · exact isMatch_draws n _
  refine .bind (.enter _) fun _ l₁ h₁ _ => .bind (separate_draws h₁) fun p l₂ _ hp => ?_
  refine .bind (.enter _) fun _ l₃ h₃ _ => ?_
  refine .bind (collectNow_draws fun n _ => isMatch_draws n _) fun found l₄ h₄ hfound => ?_
  refine .bind (runTier_draws hfound) fun priority l₅ h₅ hpriority => ?_
  refine .bind (.enter _) fun _ l₆ h₆ _ => ?_
  refine .bind (collectNow_draws hordered) fun found' l₇ h₇ hfound' => ?_
  refine .bind (runTier_draws hfound') fun ordered l₈ h₈ hordered => ?_
  refine .bind (.enter _) fun _ l₉ h₉ _ => .done ?_
  obtain ⟨hfirst, hregular⟩ := List.append_subset.1 hp
  have hlate : l₂ ⊆ l₉ := fun e he => h₉ (h₈ (h₇ (h₆ (h₅ (h₄ (h₃ he))))))
  have hmiddle : l₅ ⊆ l₉ := fun e he => h₉ (h₈ (h₇ (h₆ he)))
  simp only [List.append_subset]
  exact ⟨⟨⟨List.Subset.trans hfirst hlate, List.Subset.trans hpriority hmiddle⟩,
    List.Subset.trans hordered h₉⟩, List.Subset.trans hregular hlate⟩

/-! ## Rounds -/

theorem round_draws : Draws known (round call v) fun tier? => tier?.getD [] := by
  have hnew (n : ComponentName) (known : List (Extension H)) :
      Draws known (isNew n : Stage H σ Bool) fun _ => [] :=
    .bind (isProcessed_draws n) fun _ _ _ _ => .done (List.nil_subset _)
  refine .bind (.edit _) fun _ l₁ _ _ => .bind (collectNow_draws hnew) fun found l₂ _ hfound => ?_
  split
  · exact .done (List.nil_subset _)
  · refine .bind .get fun _ l₃ h₃ _ => .bind (.record rfl) fun _ l₄ h₄ _ => ?_
    have hknown : found ⊆ l₄ := fun e he => h₄ (h₃ (hfound he))
    exact .bind (runTier_draws hknown) fun tier l₅ _ htier => .done htier

theorem fixedPoint_draws (depth : Nat) : Draws known (fixedPoint call v depth) id := by
  induction depth generalizing known with
  | zero => exact .silent fun _ _ _ _ h => absurd h (by simp [Run.exceeded])
  | succ depth ih =>
    refine .bind round_draws fun tier? l₁ _ htier => ?_
    cases tier? with
    | none => exact .done (List.nil_subset _)
    | some tier =>
      exact .bind ih fun later l₂ h₂ hlater =>
        .done (List.append_subset.2 ⟨List.Subset.trans htier h₂, hlater⟩)

/-! ## Tiers of factory mutators -/

theorem fetchAll_draws (c : Capability) (names : List ComponentName) :
    Draws known (Stage.attempt (v.fetchAll call c names)) id := by
  induction names generalizing known with
  | nil => exact .done (List.nil_subset _)
  | cons n rest ih =>
    simp only [View.fetchAll, Stage.attempt_bind, Stage.attempt_pure]
    refine .bind (fetch_draws n c) fun e l₁ _ he => .bind ih fun es l₂ h₂ hes => .done ?_
    exact List.cons_subset.2 ⟨h₂ (he List.mem_cons_self), hes⟩

theorem divide_draws (c : Capability) (skip : ComponentName → Bool) (names : List ComponentName) :
    Draws known (Stage.attempt (v.divide call c skip names)) fun tiers => tiers.priority := by
  induction names generalizing known with
  | nil => exact .done (List.nil_subset _)
  | cons n rest ih =>
    unfold View.divide
    split
    · exact ih
    simp only [Stage.attempt_bind, Stage.attempt_always]
    refine .bind (isMatch_draws n _) fun first l₁ _ _ => ?_
    split
    · simp only [Stage.attempt_bind, Stage.attempt_pure]
      refine .bind (fetch_draws n c) fun e l₂ _ he => .bind ih fun tiers l₃ h₃ htiers => .done ?_
      exact List.cons_subset.2 ⟨h₃ (he List.mem_cons_self), htiers⟩
    · simp only [Stage.attempt_bind, Stage.attempt_always]
      refine .bind (isMatch_draws n _) fun second l₂ _ _ => ?_
      split <;> simp only [Stage.attempt_bind, Stage.attempt_pure]
      · exact .bind ih fun tiers _ _ htiers => .done htiers
      · exact .bind ih fun tiers _ _ htiers => .done htiers

theorem runFactoryTier_draws (names : List ComponentName) :
    Draws known (runFactoryTier call v names) fun _ => [] :=
  .bind (fetchAll_draws _ names) fun _ _ _ htier => .bind (sort_draws htier) fun _ _ _ hsorted =>
    callFactories_draws hsorted

theorem mutateFactory_draws : Draws known (mutateFactory call v) fun _ => [] := by
  refine .bind (.enter _) fun _ _ _ _ => .bind (names_draws _) fun names _ _ _ => ?_
  refine .bind .get fun s _ _ _ => .bind (divide_draws _ _ names) fun tiers l₁ _ htiers => ?_
  refine .bind (.record rfl) fun _ l₂ h₂ _ => ?_
  refine .bind (sort_draws (List.Subset.trans htiers h₂)) fun sorted _ _ hsorted => ?_
  refine .bind (callFactories_draws hsorted) fun _ _ _ _ => ?_
  exact .bind (runFactoryTier_draws _) fun _ _ _ _ => runFactoryTier_draws _

/-! ## A whole run -/

theorem steps_draws (depth : Nat) (supplied : List (Extension H)) :
    Draws supplied (steps call v depth supplied) fun _ => [] := by
  have hclear (known : List (Extension H)) :
      Draws known (Stage.always v.clearCache : Stage H σ Unit) fun _ => [] :=
    .silent fun _ => View.clearCache_leaves.mono fun _ _ _ h => ⟨List.nil_subset _, h⟩
  unfold steps
  split
  · refine .bind (m := fun p => p.1 ++ p.2) ?_ fun p l₁ _ hp => ?_
    · refine .bind (openingTiers_draws supplied) fun p l₁ _ hp => ?_
      refine .bind (fixedPoint_draws depth) fun rest l₂ h₂ hrest => .done ?_
      simp only [List.append_subset] at hp ⊢
      exact ⟨⟨List.Subset.trans hp.1 h₂, hrest⟩, List.Subset.trans hp.2 h₂⟩
    · obtain ⟨hmutators, hregular⟩ := List.append_subset.1 hp
      refine .bind (.enter _) fun _ l₂ h₂ _ => ?_
      refine .bind (callFactories_draws (List.Subset.trans hmutators h₂)) fun _ l₃ h₃ _ => ?_
      have hlate : p.2 ⊆ l₃ := fun e he => h₃ (h₂ (hregular he))
      refine .bind (callFactories_draws hlate) fun _ _ _ _ => ?_
      exact .bind mutateFactory_draws fun _ _ _ _ => hclear _
  · refine .bind (.edit _) fun _ l₁ h₁ _ => .bind (.record rfl) fun _ l₂ h₂ _ => ?_
    refine .bind (.enter _) fun _ l₃ h₃ _ => ?_
    have hsupplied : supplied ⊆ l₃ := fun e he => h₃ (h₂ (h₁ he))
    refine .bind (callFactories_draws hsupplied) fun _ _ _ _ => ?_
    exact .bind mutateFactory_draws fun _ _ _ _ => hclear _

/-- An extension whose callback a run makes was supplied, or the run has fetched it before. -/
theorem invoke_sources {depth : Nat} {supplied : List (Extension H)} {w w' : World H σ}
    {result : Except ExtensionError Unit} {report : Report} {scope : Scope H} {body : Journal H}
    (h : invoke call v depth supplied w = some ((result, report), w', [.scope scope body]))
    {past later : Journal H} {x : Event H} (hbody : body = past ++ x :: later) {p : MutationPhase}
    {e : Extension H} {f? : Option Failure} (hx : x.deed? = some (.called p e f?)) :
    e ∈ supplied ∨ ∃ f ∈ Journal.fetchings [] past, f.answer = .ok e := by
  obtain ⟨s, w₁, j₁, s', j₂, hsteps, hfinish, -, hj⟩ := invoke_parts h
  obtain ⟨-, hparts⟩ := Event.scope.inj (List.cons.inj hj).1
  have hclosing := (finish_leaves result _ _ _ hfinish).2
  have hdraws := steps_draws depth supplied {} w _ _ _ hsteps
  have hfirst : Deed.Sourced supplied (Journal.deeds j₁) := by
    cases result with
    | ok _ => exact hdraws.1
    | error _ => exact hdraws
  have hall : Deed.Sourced supplied (Journal.deeds body) := by
    rw [hparts, deeds_started, Journal.deeds_append]
    exact Deed.sourced_append.2 ⟨hfirst, .of_uncalled hclosing.silent.2⟩
  have hdeeds : Journal.deeds body =
      Journal.deeds past ++ .called p e f? :: Journal.deeds later := by
    rw [hbody, Journal.deeds_append, Journal.deeds, Journal.deeds, Journal.deeds,
      List.filterMap_cons, hx]
  rw [hdeeds] at hall
  refine hall.mem.imp id fun hfetched => ?_
  obtain ⟨d, hd, hextension⟩ := List.mem_filterMap.1 hfetched
  cases d with
  | fetched n c r =>
    cases r with
    | ok e' =>
      cases hextension
      obtain ⟨f, hf, -, -, hanswer⟩ := Journal.mem_fetchings_of_deed [] hd
      exact ⟨f, hf, hanswer⟩
    | error y => cases hextension
  | _ => cases hextension

/-- Where all accounts are settled, what was fetched was called. -/
theorem Settled.executes {supplied : List (Extension H)} {b : Book H} (h : Settled v supplied b)
    {n : ComponentName} {c : Capability} {r : Except DependencyError (Extension H)}
    (hmem : .fetched n c r ∈ b.map Prod.snd) :
    ∃ p e, r = .ok e ∧ c = p.capability ∧ .called p e none ∈ b.map Prod.snd := by
  obtain ⟨haccounts, hcommon, -⟩ := h
  have hle (k : Option ComponentName) : b.account k ⊆ b.map Prod.snd :=
    List.map_subset _ (List.filter_subset_self _)
  obtain ⟨⟨k, d⟩, hk, rfl⟩ := List.mem_map.1 hmem
  have haccount : .fetched n c r ∈ b.account k :=
    List.mem_map.2 ⟨_, List.mem_filter.2 ⟨hk, by simp⟩, rfl⟩
  cases k with
  | none =>
    have hname : n ∈ Deed.fetchedNames (b.account none) :=
      List.mem_filterMap.2 ⟨_, haccount, rfl⟩
    rw [hcommon] at hname
    exact absurd hname List.not_mem_nil
  | some m =>
    obtain hnone | ⟨e, he⟩ | ⟨e, he⟩ := haccounts m
    · rw [hnone] at haccount
      exact absurd haccount List.not_mem_nil
    · have hcalled := hle (some m) (he ▸ List.mem_cons_of_mem _ List.mem_cons_self)
      rw [he] at haccount
      obtain ⟨-, rfl, rfl⟩ : n = m ∧ c = .definitionMutator ∧ r = .ok e := by simpa using haccount
      exact ⟨.definition, e, rfl, rfl, hcalled⟩
    · have hcalled := hle (some m) (he ▸ List.mem_cons_of_mem _ List.mem_cons_self)
      rw [he] at haccount
      obtain ⟨-, rfl, rfl⟩ : n = m ∧ c = .factoryMutator ∧ r = .ok e := by simpa using haccount
      exact ⟨.factory, e, rfl, rfl, hcalled⟩

end Pipeline

end Startup
