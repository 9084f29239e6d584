import Startup.Proofs.Pipeline.Tiers

/-!
The definition mutators of a run: the supplied ones, two tiers and the rounds.

Main statements: `tier_bind`, that a tier of definition mutators fetches each name once and none
that was processed before; `round_leaves` and `fixedPoint_leaves`, that each round but the last
fetches something new, and that nothing is left when the last one ends; `mutateDefinitions_leaves`,
which puts them together.
-/

namespace Startup.Pipeline

variable {H : Host} {σ : Type} {call : Call H σ} {v : View} {s : Invocation} {w : World H σ}

/-! ## Collecting -/

/-- A test that does nothing but answer. -/
def Tests (wanted : ComponentName → Stage H σ Bool)
    (t : ComponentName → Invocation → World H σ → Bool) : Prop :=
  ∀ n s w, (wanted n).on s w = some ((.ok (t n s w), s), w, [])

theorem tests_isPriority :
    Tests (isPriority v : _ → Stage H σ Bool) fun n _ w =>
      (w.registries.get v.registry).isMatch n .priorityOrdered :=
  fun _ _ _ => rfl

theorem tests_isNew :
    Tests (isNew : _ → Stage H σ Bool) fun n s _ => !decide (n ∈ s.processed) :=
  fun _ _ _ => rfl

theorem tests_isOrdered :
    Tests (isOrdered v : _ → Stage H σ Bool) fun n s w =>
      !decide (n ∈ s.processed) && (w.registries.get v.registry).isMatch n .ordered := by
  intro n s w
  rw [isOrdered, Stage.on_bind, Stage.on_isProcessed, pure_bind]
  by_cases hn : n ∈ s.processed
  · simp only [hn, decide_true, if_true]
    rfl
  · simp only [hn, decide_false, Bool.false_eq_true, if_false]
    rfl

theorem Tests.bind {α : Type} {wanted : ComponentName → Stage H σ Bool}
    {t : ComponentName → Invocation → World H σ → Bool} (ht : Tests wanted t) {n : ComponentName}
    {f : Bool → Stage H σ α} {Q : α → Invocation → World H σ → List (Deed H) → Prop}
    {E : List (Deed H) → Prop} (h : (f (t n s w)).Leaves s w Q E) :
    (wanted n >>= f).Leaves s w Q E := by
  intro r w' j hrun
  rw [Stage.on_bind] at hrun
  obtain ⟨p, w₁, j₁, j₂, h₁, h₂, rfl⟩ := Run.bind_eq_some.1 hrun
  rw [ht n s w] at h₁
  cases h₁
  exact h r w' j₂ h₂

/-- Components that are known already are not wanted again. -/
def Refuses (t : ComponentName → Invocation → World H σ → Bool) (s : Invocation)
    (names : List ComponentName) : Prop :=
  ∀ n ∈ names, n ∈ s.processed → ∀ (s' : Invocation) w, s.processed ⊆ s'.processed →
    t n s' w = false

/-- What collecting has done: it fetched new components, marked them and left nothing else; if it
fetched nothing, then nothing was wanted. -/
def Collected (t : ComponentName → Invocation → World H σ → Bool) (names : List ComponentName)
    (s : Invocation) (w : World H σ) (es : List (Extension H)) (s' : Invocation) (w' : World H σ)
    (ds : List (Deed H)) : Prop :=
  ∃ found : List (ComponentName × Extension H),
    es = found.map Prod.snd ∧ (∀ q ∈ found, q.2.supports .definitionMutator = true) ∧
    s' = { s with processed := s.processed ++ found.map Prod.fst } ∧
    found.map Prod.fst ⊆ names ∧ (s.processed ++ found.map Prod.fst).Nodup ∧
    ds = Deed.fetches .definitionMutator found ∧
    (found = [] → w' = w ∧ ∀ n ∈ names, t n s w = false)

namespace Collected

variable {t : ComponentName → Invocation → World H σ → Bool} {n : ComponentName}
  {rest : List ComponentName} {es : List (Extension H)} {s' : Invocation} {w' w₁ : World H σ}
  {ds : List (Deed H)}

theorem nil (h : s.processed.Nodup) : Collected t [] s w [] s w [] := by
  refine ⟨[], rfl, by simp, by simp, by simp, by simpa using h, rfl, fun _ => ⟨rfl, ?_⟩⟩
  exact List.forall_mem_nil _

/-- A component that is not wanted is passed over. -/
theorem skip (hn : t n s w = false) (h : Collected t rest s w es s' w' ds) :
    Collected t (n :: rest) s w es s' w' ds := by
  obtain ⟨found, hes, hfound, hs, hlisted, hnodup, hds, hnothing⟩ := h
  have hsubset : found.map Prod.fst ⊆ n :: rest := fun m hm => List.mem_cons_of_mem _ (hlisted hm)
  refine ⟨found, hes, hfound, hs, hsubset, hnodup, hds, fun hnil => ?_⟩
  obtain ⟨hw, hnone⟩ := hnothing hnil
  exact ⟨hw, List.forall_mem_cons.2 ⟨hn, hnone⟩⟩

/-- A component that is wanted is fetched and marked. -/
theorem take {e : Extension H} (hsupports : e.supports .definitionMutator = true)
    (h : Collected t rest { s with processed := s.processed ++ [n] } w₁ es s' w' ds) :
    Collected t (n :: rest) s w (e :: es) s' w'
      (.fetched n .definitionMutator (.ok e) :: ds) := by
  obtain ⟨found, rfl, hfound, rfl, hlisted, hnodup, rfl, -⟩ := h
  have hall : ∀ q ∈ (n, e) :: found, q.2.supports .definitionMutator = true :=
    List.forall_mem_cons.2 ⟨hsupports, hfound⟩
  have hsubset : ((n, e) :: found).map Prod.fst ⊆ n :: rest := List.cons_subset_cons n hlisted
  have hnodup' : (s.processed ++ ((n, e) :: found).map Prod.fst).Nodup := by simpa using hnodup
  refine ⟨(n, e) :: found, rfl, hall, by simp, hsubset, hnodup', rfl, fun hnil => ?_⟩
  cases hnil

end Collected

/-- What is collected was not known before; if nothing is, then nothing was wanted. -/
theorem collect_leaves {wanted : ComponentName → Stage H σ Bool}
    {t : ComponentName → Invocation → World H σ → Bool} (ht : Tests wanted t)
    {names : List ComponentName} (hnames : names.Nodup) (hknown : s.processed.Nodup)
    (hrefuses : Refuses t s names) :
    (collect call v wanted names).Leaves s w (Collected t names s w)
      (Fair s.processed .definition) := by
  induction names generalizing s w with
  | nil => exact Stage.Leaves.pure (Collected.nil hknown)
  | cons n rest ih =>
    obtain ⟨hn, hrest⟩ := List.nodup_cons.1 hnames
    refine ht.bind ?_
    cases hwanted : t n s w with
    | false =>
      simp only [Bool.false_eq_true, if_false]
      have hcollect := ih (w := w) hrest hknown fun m hm => hrefuses m (List.mem_cons_of_mem _ hm)
      exact hcollect.mono (fun _ _ _ _ h => h.skip hwanted) fun _ => id
    | true =>
      simp only [if_true]
      have hnew : n ∉ s.processed := by
        intro hmem
        have hrefused := hrefuses n List.mem_cons_self hmem s w (List.Subset.refl _)
        rw [hwanted] at hrefused
        cases hrefused
      have hnodup : (s.processed ++ [n]).Nodup := by
        simpa using List.Nodup.concat hnew hknown
      -- a later name is known only if it was known before, since `n` is listed once
      have hlater : Refuses t { s with processed := s.processed ++ [n] } rest := by
        intro m hm hmem s' w' hs'
        have hold : m ∈ s.processed := by
          rcases List.mem_append.1 hmem with hmem | hmem
          · exact hmem
          · rw [List.mem_singleton.1 hmem] at hm
            exact absurd hm hn
        exact hrefuses m (List.mem_cons_of_mem _ hm) hold s' w' fun k hk =>
          hs' (List.mem_append_left _ hk)
      refine Stage.Leaves.bind (Stage.Leaves.attempt (View.fetch_leaves call v n _))
        (fun e s₁ w₁ ds₁ he => ?_) fun ds hds => ?_
      · obtain ⟨rfl, hsupports, rfl⟩ := he
        refine Stage.Leaves.modify_bind ?_
        refine Stage.Leaves.bind (ih hrest hnodup hlater) ?_ fun ds hds => ?_
        · intro es s₂ w₂ ds₂ h
          refine Stage.Leaves.pure ?_
          rw [List.append_nil]
          exact h.take hsupports
        · have hfresh : (s₁.processed ++ n :: Deed.fetchedNames ds).Nodup := by
            simpa using hds.fresh
          exact ⟨hfresh, List.forall_mem_cons.2 ⟨rfl, hds.within⟩⟩
      · obtain ⟨x, rfl⟩ := hds
        exact ⟨hnodup, List.forall_mem_singleton.2 rfl⟩

/-! ## One tier after another -/

/-- The state of a run after tiers of definition mutators and a number of rounds. -/
def advance (s : Invocation) (ts : List (Tier H .definition)) (rounds : Nat) :
    Invocation where
  processed := s.processed ++ ts.flatMap Tier.names
  report :=
    { s.report with
      definitionCalls := s.report.definitionCalls ++ (ts.flatMap Tier.extensions).map (·.name)
      rounds := s.report.rounds + rounds }

@[simp] theorem processed_advance (ts : List (Tier H .definition)) (n : Nat) :
    (advance s ts n).processed = s.processed ++ ts.flatMap Tier.names := rfl

@[simp] theorem phase_advance (ts : List (Tier H .definition)) (n : Nat) :
    (advance s ts n).report.phase = s.report.phase := rfl

theorem advance_advance (ts ts' : List (Tier H .definition)) (m n : Nat) :
    advance (advance s ts m) ts' n = advance s (ts ++ ts') (m + n) := by
  simp [advance, Nat.add_assoc]

theorem collectNow_leaves {wanted : ComponentName → Stage H σ Bool}
    {t : ComponentName → Invocation → World H σ → Bool} (ht : Tests wanted t)
    (hknown : s.processed.Nodup) (hrefuses : ∀ names, Refuses t s names) :
    (collectNow call v wanted).Leaves s w
      (Collected t ((w.registries.get v.registry).namesFor .definitionMutator true) s w)
      (Fair s.processed .definition) := by
  apply Stage.Leaves.silent_bind (v.names_leaves _ _ _)
  intro names w₁ hquery
  obtain ⟨rfl, rfl⟩ := hquery
  exact collect_leaves ht (Registry.namesFor_nodup _ _ _) hknown (hrefuses _)

/-- A sorted tier is called in that order. -/
theorem runTier_leaves {found : List (ComponentName × Extension H)}
    (hfound : ∀ q ∈ found, q.2.supports .definitionMutator = true)
    (hknown : s.processed.Nodup) :
    (runTier call v (found.map Prod.snd)).Leaves s w
      (fun es s' _ ds => ∃ t : Tier H .definition, t.found = found ∧ es = t.extensions ∧
        s' = definitionsCalled s es ∧ ds = Deed.calls .definition es)
      (Fair s.processed .definition) := by
  apply Stage.Leaves.silent_bind (v.sort_leaves _)
  intro sorted w₁ h
  obtain ⟨t, rfl, rfl⟩ := exists_tier (p := .definition) hfound h.1
  refine Stage.Leaves.bind (callDefinitions_leaves t.extensions) (fun _ s₂ w₂ ds₂ h₂ => ?_)
    fun ds hds => Fair.of_onlyCalls hknown hds
  obtain ⟨rfl, rfl⟩ := h₂
  rw [t.filter_definition]
  exact Stage.Leaves.pure ⟨t, rfl, rfl, rfl, by rw [List.append_nil]⟩

/-- A tier of definition mutators fetches each name once, and none that was processed before. -/
theorem tier_bind {α : Type} {wanted : ComponentName → Stage H σ Bool}
    {t : ComponentName → Invocation → World H σ → Bool} (ht : Tests wanted t)
    (hknown : s.processed.Nodup)
    (hrefuses : ∀ names, Refuses t s names) {f : List (Extension H) → Stage H σ α}
    {Q : α → Invocation → World H σ → List (Deed H) → Prop} {E : List (Deed H) → Prop}
    (hf : ∀ (tier : Tier H .definition) w', (s.processed ++ tier.names).Nodup →
      (f tier.extensions).Leaves (advance s [tier] 0) w'
        (fun a s' w' ds => Q a s' w' (tier.deeds ++ ds))
        fun ds => E (tier.deeds ++ ds))
    (hE : ∀ ds, Fair s.processed .definition ds → E ds) :
    (collectNow call v wanted >>= fun found => runTier call v found >>= f).Leaves s w Q E := by
  refine Stage.Leaves.bind (collectNow_leaves ht hknown hrefuses) ?_ hE
  rintro es s₁ w₁ ds₁ ⟨found, rfl, hfound, rfl, -, hnodup, rfl, -⟩
  refine Stage.Leaves.bind (runTier_leaves hfound hnodup) ?_ fun ds hds => hE _ ?_
  · rintro es s₂ w₂ ds₂ ⟨tier, rfl, rfl, rfl, rfl⟩
    have hstate : definitionsCalled { s with processed := s.processed ++ tier.names }
        tier.extensions = advance s [tier] 0 := by
      simp [definitionsCalled, advance]
    have hrest := hf tier w₂ hnodup
    simp only [Tier.deeds, List.append_assoc] at hrest
    rw [← hstate] at hrest
    exact hrest
  · exact Fair.fetches_append hds

/-! ## Rounds -/

theorem refuses_isNew (names : List ComponentName) :
    Refuses (fun n (s : Invocation) (_ : World H σ) => !decide (n ∈ s.processed)) s names := by
  intro n _ hn s' w hs'
  simp [hs' hn]

/-- A round runs a tier of new components, or it finds nothing that is not processed. -/
theorem round_leaves (hknown : s.processed.Nodup) :
    (round call v).Leaves s w
      (fun r s' w' ds =>
        (r = none ∧ s' = advance s ([] : List (Tier H .definition)) 1 ∧ w' = w ∧ ds = [] ∧
          ∀ n ∈ (w.registries.get v.registry).namesFor .definitionMutator true,
            n ∈ s.processed) ∨
        ∃ t : Tier H .definition, r = some t.extensions ∧ t.found ≠ [] ∧
          s' = advance s [t] 1 ∧ ds = t.deeds ∧ (s.processed ++ t.names).Nodup ∧
          t.names ⊆ (w.registries.get v.registry).namesFor .definitionMutator true)
      (Fair s.processed .definition) := by
  refine Stage.Leaves.modify_bind ?_
  refine Stage.Leaves.bind (collectNow_leaves tests_isNew hknown fun names => refuses_isNew names)
    ?_ fun _ => id
  rintro es s₁ w₁ ds₁ ⟨found, rfl, hfound, rfl, hlisted, hnodup, rfl, hnothing⟩
  cases found with
  | nil =>
    obtain ⟨rfl, hnone⟩ := hnothing rfl
    refine Stage.Leaves.pure (.inl ⟨rfl, by simp [advance], rfl, rfl, fun n hn => ?_⟩)
    simpa using hnone n hn
  | cons q rest =>
    refine Stage.Leaves.get_bind ?_
    apply Stage.Leaves.silent_bind (Run.record_leaves rfl)
    intro _ w₂ _
    refine Stage.Leaves.bind (runTier_leaves hfound hnodup) ?_ fun ds hds =>
      Fair.fetches_append hds
    rintro es s₂ w₃ ds₂ ⟨t, ht, rfl, rfl, rfl⟩
    refine Stage.Leaves.pure (.inr ⟨t, rfl, by simp [ht], ?_, ?_, ?_, ?_⟩)
    · simp [definitionsCalled, advance, Tier.names, ht]
    · simp [Tier.deeds, ht, MutationPhase.capability]
    · simpa [Tier.names, ht] using hnodup
    · rw [Tier.names, ht]
      exact hlisted

/-- Rounds until nothing is left that is not processed. -/
theorem fixedPoint_leaves (depth : Nat) (hknown : s.processed.Nodup) :
    (fixedPoint call v depth).Leaves s w
      (fun es s' w' ds => ∃ ts : List (Tier H .definition),
        es = ts.flatMap Tier.extensions ∧ (∀ t ∈ ts, t.found ≠ []) ∧
        s' = advance s ts (ts.length + 1) ∧ ds = ts.flatMap (Tier.deeds) ∧
        (s.processed ++ ts.flatMap Tier.names).Nodup ∧
        ∀ n ∈ (w'.registries.get v.registry).namesFor .definitionMutator true,
          n ∈ s'.processed)
      (Fair s.processed .definition) := by
  induction depth generalizing s w with
  | zero =>
    intro r w' j h
    rw [fixedPoint, Stage.on_always] at h
    cases h
  | succ depth ih =>
    refine Stage.Leaves.bind (round_leaves hknown) ?_ fun _ => id
    rintro r s₁ w₁ ds₁ (⟨rfl, rfl, rfl, rfl, hdone⟩ | ⟨t, rfl, hfound, rfl, rfl, hnodup, -⟩)
    · refine Stage.Leaves.pure ⟨[], rfl, by simp, rfl, rfl, by simpa using hknown, ?_⟩
      simpa [advance] using hdone
    · have hprocessed : (advance s [t] 1).processed = s.processed ++ t.names := by
        simp [advance]
      rw [← hprocessed] at hnodup
      refine Stage.Leaves.bind (ih hnodup) ?_ fun ds hds => ?_
      · rintro es s₂ w₂ ds₂ ⟨ts, rfl, hts, rfl, rfl, hnodup₂, hdone⟩
        refine Stage.Leaves.pure
          ⟨t :: ts, rfl, List.forall_mem_cons.2 ⟨hfound, hts⟩, ?_, ?_, ?_, ?_⟩
        · rw [advance_advance, List.singleton_append, List.length_cons, Nat.add_comm 1]
        · simp
        · simpa [hprocessed] using hnodup₂
        · exact hdone
      · rw [hprocessed] at hds
        exact Fair.tier_append hds

/-! ## All definition mutators -/

/-- What the definition mutators of a run did. -/
structure Course (H : Host) where
  /-- The supplied definition mutators. -/
  first : List (Extension H)
  priority : Tier H .definition
  ordered : Tier H .definition
  rounds : List (Tier H .definition)

namespace Course

def tiers (c : Course H) : List (Tier H .definition) := c.priority :: c.ordered :: c.rounds

/-- The components that were fetched. -/
def names (c : Course H) : List ComponentName := c.tiers.flatMap Tier.names

/-- All definition mutators, in the order of their callbacks. -/
def mutators (c : Course H) : List (Extension H) := c.first ++ c.tiers.flatMap Tier.extensions

/-- What was done before the rounds. -/
def opening (c : Course H) : List (Deed H) :=
  .entered .separatingSupplied :: (Deed.calls .definition c.first ++
    .entered .priorityTier :: (c.priority.deeds ++
      .entered .orderedTier :: (c.ordered.deeds ++ [.entered .fixedPointTier])))

def deeds (c : Course H) : List (Deed H) :=
  c.opening ++ c.rounds.flatMap (Tier.deeds)

/-- The state of the run afterwards. -/
def state (c : Course H) : Invocation where
  processed := c.names
  report :=
    { definitionCalls := c.mutators.map (·.name)
      rounds := c.rounds.length + 1
      phase := .fixedPointTier }

end Course

/-- What the supplied definition mutators and the first two tiers do. -/
theorem openingTiers_leaves (supplied : List (Extension H)) :
    (openingTiers call v supplied).Leaves {} w
      (fun p s' _ ds => ∃ c : Course H, c.first = supplied.filter (·.views.definitionMutator) ∧
        c.rounds = [] ∧ p = (c.mutators, supplied.filter isRegular) ∧
        s' = { c.state with report := { c.state.report with rounds := 0 } } ∧ ds = c.opening ∧
        c.names.Nodup)
      (Fair [] .definition) := by
  unfold openingTiers
  refine enter_bind (by decide) ?_
  refine Stage.Leaves.bind (separate_leaves supplied) ?_ fun ds hds =>
    (Fair.of_onlyCalls List.nodup_nil hds).entered (by simp)
  rintro p s₁ w₁ ds₁ ⟨rfl, rfl, rfl⟩
  refine enter_bind (by simp) ?_
  refine tier_bind tests_isPriority List.nodup_nil (fun _ _ _ hn => absurd hn List.not_mem_nil)
    ?_ fun ds hds => Fair.entered (Fair.calls_append (Fair.entered hds (by simp))) (by simp)
  intro priority w₂ hpriority
  have hknown : (([] : List ComponentName) ++ priority.names).Nodup := hpriority
  refine enter_bind (by simp) ?_
  refine tier_bind tests_isOrdered (by simpa using hknown) ?_ ?_ fun ds hds => ?_
  · intro names n _ hn s' w hs'
    simp only [hs' hn, decide_true, Bool.not_true, Bool.false_and]
  · intro ordered w₃ hordered
    refine enter_bind (by simp) (Stage.Leaves.pure ?_)
    refine ⟨⟨supplied.filter (·.views.definitionMutator), priority, ordered, []⟩, rfl, rfl, ?_, ?_,
      ?_, ?_⟩
    · simp [Course.mutators, Course.tiers]
    · simp [Course.state, Course.names, Course.mutators, Course.tiers, inPhase, advance,
        definitionsCalled]
    · simp [Course.opening]
    · simpa [Course.names, Course.tiers] using hordered
  · have hprocessed : Fair ([] ++ priority.names) .definition ds := by simpa using hds
    have hpriority : Fair [] .definition (priority.deeds ++ .entered .orderedTier :: ds) :=
      Fair.tier_append (Fair.entered hprocessed (by simp))
    exact Fair.entered (Fair.calls_append (Fair.entered hpriority (by simp))) (by simp)

namespace Course

theorem fair_opening_append {c : Course H} {ds : List (Deed H)}
    (h : Fair (c.priority.names ++ c.ordered.names) .definition ds) :
    Fair [] .definition (c.opening ++ ds) := by
  have hordered : Fair c.priority.names .definition
      (.entered .orderedTier :: (c.ordered.deeds ++ .entered .fixedPointTier :: ds)) :=
    Fair.entered (Fair.tier_append (Fair.entered h (by simp))) (by simp)
  have hpriority : Fair [] .definition (c.priority.deeds ++
      .entered .orderedTier :: (c.ordered.deeds ++ .entered .fixedPointTier :: ds)) :=
    Fair.tier_append hordered
  simpa [opening] using
    Fair.entered (Fair.calls_append (Fair.entered hpriority (by simp))) (by simp)

theorem names_eq (c : Course H) :
    c.names = (c.priority.names ++ c.ordered.names) ++ c.rounds.flatMap Tier.names := by
  simp [names, tiers]

theorem fair_deeds {c : Course H} (h : c.names.Nodup) : Fair [] .definition c.deeds := by
  rw [names_eq] at h
  exact fair_opening_append (Fair.tiers h)

@[simp] theorem fetchedNames_deeds (c : Course H) : Deed.fetchedNames c.deeds = c.names := by
  simp [deeds, opening, names_eq, fetchedNames_tiers]

end Course

/-- All definition mutators of a run, when nothing is left that is not processed. -/
theorem mutateDefinitions_leaves (depth : Nat) (supplied : List (Extension H)) :
    (mutateDefinitions call v depth supplied).Leaves {} w
      (fun p s' w' ds => ∃ c : Course H, c.first = supplied.filter (·.views.definitionMutator) ∧
        p = (c.mutators, supplied.filter isRegular) ∧ s' = c.state ∧ ds = c.deeds ∧
        c.names.Nodup ∧ (∀ t ∈ c.rounds, t.found ≠ []) ∧
        ∀ n ∈ (w'.registries.get v.registry).namesFor .definitionMutator true, n ∈ c.names)
      (Fair [] .definition) := by
  refine Stage.Leaves.bind (openingTiers_leaves supplied) ?_ fun _ => id
  rintro p s₁ w₁ ds₁ ⟨c, hfirst, hrounds, rfl, rfl, rfl, hnames⟩
  have hopened : c.names = c.priority.names ++ c.ordered.names := by
    simp [Course.names_eq, hrounds]
  refine Stage.Leaves.bind (fixedPoint_leaves depth hnames) ?_ fun ds hds => ?_
  · rintro es s₂ w₂ ds₂ ⟨ts, rfl, hts, rfl, rfl, hnodup, hdone⟩
    have hall : ({ c with rounds := ts } : Course H).names = c.names ++ ts.flatMap Tier.names := by
      simp [Course.names_eq, hrounds]
    refine Stage.Leaves.pure ⟨{ c with rounds := ts }, hfirst, ?_, ?_, ?_, ?_, hts, ?_⟩
    · simp [Course.mutators, Course.tiers, hrounds]
    · simp [Course.state, advance, hall, Course.mutators, Course.tiers, hrounds]
    · simp [Course.deeds, Course.opening]
    · rw [hall]
      exact hnodup
    · rw [hall]
      exact hdone
  · refine Course.fair_opening_append ?_
    rw [← hopened]
    exact hds

end Startup.Pipeline
