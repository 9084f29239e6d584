import Startup.Proofs.Pipeline.Rounds
import Startup.Proofs.Pipeline.Stillness

/-!
The definition mutators of a run that leaves its registry in peace. All that such a run asks the
registry was decided when the run began, so its tiers can be read off the registry at that time.

Main statements: `Stage.Yields.bind`, by which the stages of such a run are put together;
`tier_yields_bind` and `fixedPoint_yields`, what tiers and rounds do; `mutateDefinitions_yields`,
what the definition phase does.
-/

namespace Startup

variable {H : Host} {σ : Type}

/-! ## Stages in a registry that is left in peace -/

/-- What a stage does while the registry is still `s` and is left in peace: no fetch fails, and if
the stage succeeds, the registry is still `s`, and `Q` holds of its value, of the state after it and
of its deeds. -/
def Stage.Yields {α : Type} (v : View) (s : Registry H) (x : Stage H σ α) (i : Invocation)
    (Q : α → Invocation → List (Deed H) → Prop) : Prop :=
  ∀ w r i' w' j, x.on i w = some ((r, i'), w', j) → s.Still (w.registries.get v.registry) →
    j.Peaceful v.registry → (∀ n c y, .fetched n c (.error y) ∉ Journal.deeds j) ∧
      ∀ a, r = .ok a → s.Still (w'.registries.get v.registry) ∧ Q a i' (Journal.deeds j)

namespace Stage.Yields

variable {α β : Type} {v : View} {s : Registry H} {i : Invocation}
  {Q : α → Invocation → List (Deed H) → Prop}

theorem pure {a : α} (h : Q a i []) : Yields v s (Pure.pure a : Stage H σ α) i Q := by
  intro w r i' w' j hrun hw _
  cases hrun
  refine ⟨fun _ _ _ => List.not_mem_nil, fun b hb => ?_⟩
  cases hb
  exact ⟨hw, h⟩

theorem bind {x : Stage H σ β} {f : β → Stage H σ α} {M : β → Invocation → List (Deed H) → Prop}
    (hx : Yields v s x i M)
    (hf : ∀ b i₁ ds₁, M b i₁ ds₁ → Yields v s (f b) i₁ fun a i' ds => Q a i' (ds₁ ++ ds)) :
    Yields v s (x >>= f) i Q := by
  intro w r i' w' j hrun hw hj
  rw [Stage.on_bind] at hrun
  obtain ⟨⟨r₁, i₁⟩, w₁, j₁, j₂, h₁, h₂, rfl⟩ := Run.bind_eq_some.1 hrun
  obtain ⟨hj₁, hj₂⟩ := Journal.peaceful_append.1 hj
  obtain ⟨hnone₁, hok₁⟩ := hx w r₁ i₁ w₁ j₁ h₁ hw hj₁
  rw [Journal.deeds_append]
  cases r₁ with
  | error e =>
    cases h₂
    exact ⟨fun n c y => by simpa [Journal.deeds] using hnone₁ n c y, nofun⟩
  | ok b =>
    obtain ⟨hw₁, hmid⟩ := hok₁ b rfl
    obtain ⟨hnone₂, hok₂⟩ := hf b i₁ _ hmid w₁ r i' w' j₂ h₂ hw₁ hj₂
    refine ⟨fun n c y hmem => ?_, hok₂⟩
    exact (List.mem_append.1 hmem).elim (hnone₁ n c y) (hnone₂ n c y)

theorem mono {x : Stage H σ α} {Q' : α → Invocation → List (Deed H) → Prop}
    (h : Yields v s x i Q) (hQ : ∀ a i' ds, Q a i' ds → Q' a i' ds) : Yields v s x i Q' := by
  intro w r i' w' j hrun hw hj
  obtain ⟨hnone, hok⟩ := h w r i' w' j hrun hw hj
  exact ⟨hnone, fun a ha => ⟨(hok a ha).1, hQ _ _ _ (hok a ha).2⟩⟩

theorem edit_bind {f : Invocation → Invocation} {g : Unit → Stage H σ α}
    (h : Yields v s (g ()) (f i) Q) : Yields v s (modify f >>= g) i Q := by
  intro w r i' w' j hrun
  rw [Stage.on_bind, Stage.on_modify, pure_bind] at hrun
  exact h w r i' w' j hrun

theorem get_bind {g : Invocation → Stage H σ α} (h : Yields v s (g i) i Q) :
    Yields v s (MonadState.get >>= g) i Q := by
  intro w r i' w' j hrun
  rw [Stage.on_bind, Stage.on_get, pure_bind] at hrun
  exact h w r i' w' j hrun

/-- A stage that fetches nothing. -/
theorem of_leaves {x : Stage H σ α} {E : List (Deed H) → Prop}
    (hx : Tracks v.registry (x.on i)) (h : ∀ w, x.Leaves i w (fun a i' _ ds => Q a i' ds) E)
    (hok : ∀ a i' ds, Q a i' ds → Deed.fetchedNames ds = [])
    (herror : ∀ ds, E ds → Deed.fetchedNames ds = []) : Yields v s x i Q := by
  intro w r i' w' j hrun hw hj
  have hends := h w (r, i') w' j hrun
  have hnone : Deed.fetchedNames (Journal.deeds j) = [] := by
    cases r with
    | ok a => exact hok a i' _ hends
    | error e => exact herror _ hends
  refine ⟨fun n c y hmem => ?_, fun a ha => ?_⟩
  · cases List.filterMap_eq_nil_iff.1 hnone _ hmem
  · cases ha
    exact ⟨hx.still hrun hw hj, hends⟩

/-- A question to the registry. -/
theorem always_bind {x : Run H σ β} {f : β → Stage H σ α} (b : β)
    (hx : ∀ w, s.Still (w.registries.get v.registry) → ∀ b' w' j, x w = some (b', w', j) →
      b' = b ∧ w' = w ∧ Journal.deeds j = [])
    (hf : Yields v s (f b) i Q) : Yields v s (Stage.always x >>= f) i Q := by
  refine bind (M := fun b' i₁ ds₁ => b' = b ∧ i₁ = i ∧ ds₁ = []) ?_ ?_
  · intro w r i' w' j hrun hw _
    rw [Stage.on_always] at hrun
    obtain ⟨b', w₁, j₁, j₂, h₁, h₂, rfl⟩ := Run.bind_eq_some.1 hrun
    obtain ⟨rfl, rfl, hds⟩ := hx w hw b' w₁ j₁ h₁
    cases h₂
    rw [List.append_nil, hds]
    exact ⟨fun _ _ _ => List.not_mem_nil, fun a ha => by cases ha; exact ⟨hw, rfl, rfl, rfl⟩⟩
  · rintro b' i₁ ds₁ ⟨rfl, rfl, rfl⟩
    exact hf

end Stage.Yields

namespace Pipeline

open Stage (Yields)

variable {call : Call H σ} {v : View} {s : Registry H} {i : Invocation} {α : Type}
  {Q : α → Invocation → List (Deed H) → Prop}

/-! ## Questions, phases and callbacks -/

theorem names_yields_bind {c : Capability} {f : List ComponentName → Stage H σ α}
    (h : Yields v s (f (s.namesFor c true)) i Q) :
    Yields v s (Stage.always (v.names c true false) >>= f) i Q :=
  .always_bind _ (fun w hw names w' j hrun => by
    cases hrun
    exact ⟨hw.namesFor c, rfl, rfl⟩) h

theorem sort_yields_bind {l : List (Extension H)} {f : List (Extension H) → Stage H σ α}
    (h : Yields v s (f ((v.sorter s).sortBy l)) i Q) :
    Yields v s (Stage.always (v.sort l) >>= f) i Q :=
  .always_bind _ (fun w hw sorted w' j hrun => by
    obtain ⟨hsorted, rfl, hnotes, -⟩ := View.sort_eq_some hrun
    exact ⟨by rw [hsorted, hw.sorter], rfl, hnotes.deeds⟩) h

theorem record_yields_bind {x : Fact H} (hx : Event.deed? (.fact x) = none)
    {f : Unit → Stage H σ α} (h : Yields v s (f ()) i Q) :
    Yields v s (Stage.always (Run.record x) >>= f) i Q :=
  .always_bind () (fun w _ _ w' j hrun => by
    cases hrun
    exact ⟨rfl, rfl, by rw [Journal.deeds, List.filterMap_cons, hx]; rfl⟩) h

theorem enter_yields_bind {p : Phase} (hp : i.report.phase ≠ p) {f : Unit → Stage H σ α}
    (h : Yields v s (f ()) (inPhase i p) fun a i' ds => Q a i' (.entered p :: ds)) :
    Yields v s (Stage.enter p >>= f) i Q := by
  refine .bind (M := fun _ i' ds => i' = inPhase i p ∧ ds = [.entered p]) ?_ ?_
  · refine .of_leaves (E := fun _ => False) (fun w => ?_) (fun w => ?_) ?_ fun _ => False.elim
    · intro w a w' j hrun hl
      rw [Stage.on_enter, if_neg hp] at hrun
      cases hrun
      exact Ledger.Leads.aside trivial hl
    · exact (enter_leaves p hp).mono (fun _ _ _ _ h => ⟨h.1, h.2.2⟩) fun _ => id
    · rintro _ i' ds ⟨-, rfl⟩
      rfl
  · rintro _ i₁ ds₁ ⟨rfl, rfl⟩
    exact h

theorem fetchedNames_of_onlyCalls {p : MutationPhase} {ds : List (Deed H)} (h : OnlyCalls p ds) :
    Deed.fetchedNames ds = [] := by
  apply List.filterMap_eq_nil_iff.2
  intro d hd
  obtain ⟨e, f, rfl⟩ := h d hd
  rfl

section Callbacks

variable (hc : Closed call (fun {α} (x : Run H σ α) => Tracks v.registry x))
include hc

theorem callDefinitions_yields (es : List (Extension H)) :
    Yields v s (callDefinitions call v es) i fun _ i' ds =>
      i' = definitionsCalled i (es.filter (·.views.definitionMutator)) ∧
        ds = Deed.calls .definition (es.filter (·.views.definitionMutator)) := by
  refine .of_leaves (hc.callDefinitions v es i) (fun w => callDefinitions_leaves es) ?_
    fun ds => fetchedNames_of_onlyCalls
  rintro _ i' ds ⟨-, rfl⟩
  exact Deed.fetchedNames_calls _ _

theorem callFactories_yields (es : List (Extension H)) :
    Yields v s (callFactories call v es) i fun _ i' ds =>
      i' = factoriesCalled i (es.filter hasFactoryCallback) ∧
        ds = Deed.calls .factory (es.filter hasFactoryCallback) := by
  refine .of_leaves (hc.callFactories v es i) (fun w => callFactories_leaves es) ?_
    fun ds => fetchedNames_of_onlyCalls
  rintro _ i' ds ⟨-, rfl⟩
  exact Deed.fetchedNames_calls _ _

theorem separate_yields (es : List (Extension H)) :
    Yields v s (separate call v es) i fun p i' ds =>
      p = (es.filter (·.views.definitionMutator), es.filter isRegular) ∧
        i' = definitionsCalled i p.1 ∧ ds = Deed.calls .definition p.1 := by
  refine .of_leaves (hc.separate v es i) (fun w => separate_leaves es) ?_
    fun ds => fetchedNames_of_onlyCalls
  rintro _ i' ds ⟨-, -, rfl⟩
  exact Deed.fetchedNames_calls _ _

end Callbacks

/-! ## Tiers of definition mutators -/

/-- A tier is that of some names, and its callbacks come in the order of a comparator. -/
structure Tier.Ranks {p : MutationPhase} (c : Comparator H) (names : List ComponentName)
    (t : Tier H p) : Prop where
  names : t.names = names
  sorted : t.extensions = c.sortBy (t.found.map Prod.snd)

/-- The definition mutators that a registry lists. -/
def definitionMutators (s : Registry H) : List ComponentName := s.namesFor .definitionMutator true

/-- The factory mutators that a registry lists besides. -/
def factoryMutators (s : Registry H) : List ComponentName :=
  (s.namesFor .factoryMutator true).filter fun n => n ∉ definitionMutators s

/-- The names of a tier. -/
def tierNames (s : Registry H) (names : List ComponentName) (t : TierClass) :
    List ComponentName := names.filter fun n => s.tierOf n = t

/-- The components that a run depends on can be had: cached ones are what they are declared to be,
and none that has still to be created is being created already. -/
structure Ready (s : Registry H) : Prop where
  honest : s.Honest
  free (n : ComponentName) (hn : n ∈ s.inCreation) (c : Capability)
    (hc : c = .definitionMutator ∨ c = .factoryMutator) (hlisted : n ∈ s.namesFor c true) :
    ∃ i, s.singletons.get? n = some i

/-- A test whose answer depends on what was processed, in a registry that is still `s`. -/
def Decides (v : View) (s : Registry H) (wanted : ComponentName → Stage H σ Bool)
    (t : ComponentName → List ComponentName → Bool) : Prop :=
  ∀ n i w, s.Still (w.registries.get v.registry) →
    (wanted n).on i w = some ((.ok (t n i.processed), i), w, [])

theorem decides_isPriority :
    Decides v s (isPriority v : _ → Stage H σ Bool) fun n _ => s.isMatch n .priorityOrdered :=
  fun n i w hw => by simp only [tests_isPriority n i w, hw.isMatch]

theorem decides_isOrdered :
    Decides v s (isOrdered v : _ → Stage H σ Bool) fun n known =>
      !decide (n ∈ known) && s.isMatch n .ordered :=
  fun n i w hw => by simp only [tests_isOrdered n i w, hw.isMatch]

theorem decides_isNew :
    Decides v s (isNew : _ → Stage H σ Bool) fun n known => !decide (n ∈ known) :=
  fun n i w _ => tests_isNew n i w

/-- The answer for a name does not depend on whether another one was processed. -/
def Local (t : ComponentName → List ComponentName → Bool) : Prop :=
  ∀ n m known, n ≠ m → t n (known ++ [m]) = t n known

theorem local_isNew : Local fun n known => !decide (n ∈ known) := by
  intro n m known hne
  simp [hne]

theorem local_isOrdered : Local fun n known => !decide (n ∈ known) && s.isMatch n .ordered := by
  intro n m known hne
  simp [hne]

/-- The definition mutators of a run come tier by tier, as the registry declared them when the run
began. -/
structure Course.Ranks (v : View) (s : Registry H) (c : Course H) : Prop where
  priority : c.priority.Ranks (v.sorter s) (tierNames s (definitionMutators s) .priority)
  ordered : c.ordered.Ranks (v.sorter s) (tierNames s (definitionMutators s) .ordered)
  rounds : ∃ t : Tier H .definition,
    t.Ranks (v.sorter s) (tierNames s (definitionMutators s) .unordered) ∧
      c.rounds = if t.names = [] then [] else [t]

/-- All that the registry lists is fetched. -/
theorem Course.Ranks.mem_names {c : Course H} (h : c.Ranks v s) {n : ComponentName} :
    n ∈ c.names ↔ n ∈ definitionMutators s := by
  obtain ⟨t, ht, hrounds⟩ := h.rounds
  have hlast : c.rounds.flatMap Tier.names = t.names := by
    rw [hrounds]
    split <;> simp_all
  rw [Course.names_eq, hlast, h.priority.names, h.ordered.names, ht.names]
  simp only [tierNames, List.mem_append, List.mem_filter, decide_eq_true_eq]
  cases htier : s.tierOf n <;> simp

/-- What is neither in the first tier nor in the second. -/
theorem filter_ordered :
    (definitionMutators s).filter (fun n =>
      !decide (n ∈ tierNames s (definitionMutators s) .priority) && s.isMatch n .ordered) =
      tierNames s (definitionMutators s) .ordered := by
  refine List.filter_congr fun n hn => ?_
  simp only [tierNames, List.mem_filter, hn, true_and, Registry.tierOf]
  by_cases hpriority : s.isMatch n .priorityOrdered = true
  · simp [hpriority]
  · by_cases hordered : s.isMatch n .ordered = true <;> simp [hpriority, hordered]

theorem filter_unordered :
    (definitionMutators s).filter (fun n =>
      !decide (n ∈ tierNames s (definitionMutators s) .priority ++
        tierNames s (definitionMutators s) .ordered)) =
      tierNames s (definitionMutators s) .unordered := by
  refine List.filter_congr fun n hn => ?_
  simp only [tierNames, List.mem_append, List.mem_filter, hn, true_and, Registry.tierOf]
  by_cases hpriority : s.isMatch n .priorityOrdered = true
  · simp [hpriority]
  · by_cases hordered : s.isMatch n .ordered = true <;> simp [hpriority, hordered]

theorem filter_priority :
    (definitionMutators s).filter (fun n => s.isMatch n .priorityOrdered) =
      tierNames s (definitionMutators s) .priority := by
  refine List.filter_congr fun n hn => ?_
  simp only [Registry.tierOf]
  by_cases hpriority : s.isMatch n .priorityOrdered = true
  · simp [hpriority]
  · by_cases hordered : s.isMatch n .ordered = true <;> simp [hpriority, hordered]

section Definitions

variable (hc : Closed call (fun {α} (x : Run H σ α) => Tracks v.registry x)) (hready : Ready s)
include hc hready

/-- A fetch of what is listed. -/
theorem fetch_yields {n : ComponentName} {c : Capability}
    (hcapability : c = .definitionMutator ∨ c = .factoryMutator)
    (hlisted : n ∈ s.namesFor c true) :
    Yields v s (Stage.attempt (v.fetch call n c)) i fun e i' ds =>
      i' = i ∧ e.supports c = true ∧ ds = [.fetched n c (.ok e)] := by
  intro w r i' w' j hrun hw hj
  rw [Stage.on_attempt] at hrun
  obtain ⟨x, w₁, j₁, j₂, hfetch, hend, rfl⟩ := Run.bind_eq_some.1 hrun
  cases hend
  rw [List.append_nil] at hj ⊢
  obtain ⟨e, rfl⟩ := View.fetch_still hc hfetch hw hready.honest hj hlisted fun hn =>
    hready.free n hn c hcapability hlisted
  obtain ⟨hsupports, hds⟩ := View.fetch_ok hfetch
  rw [hds]
  refine ⟨by simp, fun a ha => ?_⟩
  cases ha
  exact ⟨(hc.fetch v n c).still hfetch hw hj, rfl, hsupports, rfl⟩

theorem collect_yields {wanted : ComponentName → Stage H σ Bool}
    {t : ComponentName → List ComponentName → Bool} (ht : Decides v s wanted t) (hlocal : Local t)
    {names : List ComponentName} (hnames : names.Nodup)
    (hlisted : ∀ n ∈ names, n ∈ definitionMutators s) :
    Yields v s (collect call v wanted names) i fun es i' ds =>
      ∃ found : List (ComponentName × Extension H), es = found.map Prod.snd ∧
        (∀ q ∈ found, q.2.supports .definitionMutator = true) ∧
        found.map Prod.fst = names.filter (t · i.processed) ∧
        i' = { i with processed := i.processed ++ found.map Prod.fst } ∧
        ds = Deed.fetches .definitionMutator found := by
  induction names generalizing i with
  | nil => exact .pure ⟨[], rfl, by simp, rfl, by simp, rfl⟩
  | cons n rest ih =>
    obtain ⟨hn, hrest⟩ := List.nodup_cons.1 hnames
    obtain ⟨hlisted₁, hlisted₂⟩ := List.forall_mem_cons.1 hlisted
    have hanswer : Yields v s (wanted n) i fun b i' ds =>
        b = t n i.processed ∧ i' = i ∧ ds = [] := by
      intro w r i' w' j hrun hw _
      rw [ht n i w hw] at hrun
      cases hrun
      exact ⟨fun _ _ _ => List.not_mem_nil, fun a ha => by cases ha; exact ⟨hw, rfl, rfl, rfl⟩⟩
    refine .bind hanswer ?_
    rintro answer i₁ ds₁ ⟨rfl, rfl, rfl⟩
    cases hwanted : t n i₁.processed with
    | false =>
      simp only [Bool.false_eq_true, if_false, List.nil_append, List.filter_cons, hwanted]
      exact ih hrest hlisted₂
    | true =>
      simp only [if_true, List.nil_append, List.filter_cons, hwanted]
      refine .bind (fetch_yields hc hready (.inl rfl) hlisted₁) ?_
      rintro e i₂ ds₂ ⟨rfl, hsupports, rfl⟩
      refine .edit_bind (.bind (ih hrest hlisted₂) ?_)
      rintro es i₃ ds₃ ⟨found, rfl, hfound, hnamed, rfl, rfl⟩
      have hlater : rest.filter (t · (i₂.processed ++ [n])) = rest.filter (t · i₂.processed) := by
        refine List.filter_congr fun k hk => hlocal k n _ ?_
        rintro rfl
        exact hn hk
      refine .pure ⟨(n, e) :: found, rfl, List.forall_mem_cons.2 ⟨hsupports, hfound⟩, ?_, ?_, ?_⟩
      · rw [List.map_cons, hnamed, hlater]
      · simp
      · simp [Deed.fetches]

/-- A tier: of all that the query lists, the wanted ones are fetched, sorted and called. -/
theorem tier_yields_bind {wanted : ComponentName → Stage H σ Bool}
    {t : ComponentName → List ComponentName → Bool} (ht : Decides v s wanted t) (hlocal : Local t)
    {f : List (Extension H) → Stage H σ α}
    (hf : ∀ tier : Tier H .definition, tier.Ranks (v.sorter s)
        ((definitionMutators s).filter (t · i.processed)) →
      Yields v s (f tier.extensions) (advance i [tier] 0) fun a i' ds =>
        Q a i' (tier.deeds ++ ds)) :
    Yields v s (collectNow call v wanted >>= fun found => runTier call v found >>= f) i Q := by
  have hcollect : Yields v s (collectNow call v wanted) i _ :=
    names_yields_bind (collect_yields hc hready ht hlocal (s.namesFor_nodup _ _) fun _ => id)
  refine .bind hcollect ?_
  rintro es i₁ ds₁ ⟨found, rfl, hfound, hnamed, rfl, rfl⟩
  obtain ⟨tier, rfl, hsorted⟩ :=
    exists_tier (p := .definition) hfound (Comparator.sortBy_perm (v.sorter s) _)
  have hrun : Yields v s (runTier call v (tier.found.map Prod.snd))
      { i with processed := i.processed ++ tier.found.map Prod.fst } fun es i' ds =>
        es = tier.extensions ∧ i' = advance i [tier] 0 ∧ ds = Deed.calls .definition es := by
    refine sort_yields_bind (.bind (callDefinitions_yields hc _) ?_)
    rintro _ i₂ ds₂ ⟨rfl, rfl⟩
    rw [← hsorted, tier.filter_definition]
    refine .pure ⟨rfl, ?_, by rw [List.append_nil]⟩
    simp [definitionsCalled, advance, Tier.names]
  refine .bind hrun ?_
  rintro es i₂ ds₂ ⟨rfl, rfl, rfl⟩
  refine (hf tier ⟨hnamed, hsorted⟩).mono fun a i' ds h => ?_
  rwa [Tier.deeds, List.append_assoc] at h

/-- A round runs what is not processed, if there is anything. -/
theorem round_yields :
    Yields v s (round call v) i fun r i' ds => ∃ t : Tier H .definition,
      t.Ranks (v.sorter s)
        ((definitionMutators s).filter fun n => !decide (n ∈ i.processed)) ∧
      (t.names = [] ∧ r = none ∧ i' = advance i ([] : List (Tier H .definition)) 1 ∧ ds = [] ∨
        t.names ≠ [] ∧ r = some t.extensions ∧ i' = advance i [t] 1 ∧ ds = t.deeds) := by
  refine .edit_bind ?_
  have hcollect : Yields v s (collectNow call v isNew)
      { i with report := { i.report with rounds := i.report.rounds + 1 } } _ :=
    names_yields_bind (collect_yields hc hready decides_isNew local_isNew (s.namesFor_nodup _ _)
      fun _ => id)
  refine .bind hcollect ?_
  rintro es i₁ ds₁ ⟨found, rfl, hfound, hnamed, rfl, rfl⟩
  obtain ⟨tier, rfl, hsorted⟩ :=
    exists_tier (p := .definition) hfound (Comparator.sortBy_perm (v.sorter s) _)
  have hranks : tier.Ranks (v.sorter s) _ := ⟨hnamed, hsorted⟩
  cases hempty : tier.found with
  | nil =>
    refine .pure ⟨tier, hranks, .inl ⟨by rw [Tier.names, hempty]; rfl, rfl, ?_, rfl⟩⟩
    simp [advance]
  | cons q rest =>
    have hsome : tier.names ≠ [] := by rw [Tier.names, hempty]; simp
    rw [hempty] at hsorted
    refine .get_bind (record_yields_bind rfl (.bind (M := fun es i' ds => es = tier.extensions ∧
      i' = advance i [tier] 1 ∧ ds = Deed.calls .definition es) ?_ ?_))
    · refine sort_yields_bind (.bind (callDefinitions_yields hc _) ?_)
      rintro _ i₂ ds₂ ⟨rfl, rfl⟩
      rw [← hsorted, tier.filter_definition]
      refine .pure ⟨rfl, ?_, by rw [List.append_nil]⟩
      simp [definitionsCalled, advance, Tier.names, hempty]
    · rintro es i₂ ds₂ ⟨rfl, rfl, rfl⟩
      refine .pure ⟨tier, hranks, .inr ⟨hsome, rfl, rfl, ?_⟩⟩
      rw [Tier.deeds, hempty, List.append_nil]
      rfl

/-- There is one round that finds something, or none: what it leaves is processed. -/
theorem fixedPoint_yields (depth : Nat) :
    Yields v s (fixedPoint call v depth) i fun es i' ds => ∃ t : Tier H .definition,
      t.Ranks (v.sorter s)
        ((definitionMutators s).filter fun n => !decide (n ∈ i.processed)) ∧
      ∃ ts : List (Tier H .definition), ts = (if t.names = [] then [] else [t]) ∧
        es = ts.flatMap Tier.extensions ∧ i' = advance i ts (ts.length + 1) ∧
        ds = ts.flatMap Tier.deeds := by
  cases depth with
  | zero =>
    intro w r i' w' j hrun
    rw [fixedPoint, Stage.on_always] at hrun
    cases hrun
  | succ depth =>
    refine .bind (round_yields hc hready) ?_
    rintro r i₁ ds₁ ⟨t, hranks, ⟨hempty, rfl, rfl, rfl⟩ | ⟨hsome, rfl, rfl, rfl⟩⟩
    · exact .pure ⟨t, hranks, [], by rw [if_pos hempty], rfl, rfl, rfl⟩
    · -- the second round finds nothing, since the first one has processed all names
      have hnothing : (definitionMutators s).filter
          (fun n => !decide (n ∈ (advance i [t] 1).processed)) = [] := by
        apply List.filter_eq_nil_iff.2
        intro n hn
        have hmem : n ∈ i.processed ∨ n ∈ t.names := by
          by_cases hold : n ∈ i.processed
          · exact .inl hold
          · rw [hranks.names]
            exact .inr (List.mem_filter.2 ⟨hn, by simpa using hold⟩)
        simpa using hmem.resolve_left
      refine .bind (M := fun es i' ds => es = [] ∧ i' = advance i [t] 2 ∧ ds = []) ?_ ?_
      · cases depth with
        | zero =>
          intro w r i' w' j hrun
          rw [fixedPoint, Stage.on_always] at hrun
          cases hrun
        | succ depth =>
          refine .bind (round_yields hc hready) ?_
          rintro r i₂ ds₂ ⟨t', hranks', ⟨-, rfl, rfl, rfl⟩ | ⟨hsome', -⟩⟩
          · exact .pure ⟨rfl, by rw [advance_advance, List.append_nil], rfl⟩
          · exact absurd (hranks'.names.trans hnothing) hsome'
      · rintro es i₂ ds₂ ⟨rfl, rfl, rfl⟩
        refine .pure ⟨t, hranks, [t], by rw [if_neg hsome], by simp, rfl, by simp⟩

/-- The definition phase of a run. -/
theorem mutateDefinitions_yields (depth : Nat) (supplied : List (Extension H)) :
    Yields v s (mutateDefinitions call v depth supplied) {} fun p i' ds => ∃ c : Course H,
      c.first = supplied.filter (·.views.definitionMutator) ∧ c.Ranks v s ∧
      p = (c.mutators, supplied.filter isRegular) ∧ i' = c.state ∧ ds = c.deeds := by
  unfold mutateDefinitions
  refine .bind (M := fun p i' ds => ∃ c : Course H,
    c.first = supplied.filter (·.views.definitionMutator) ∧ c.rounds = [] ∧
    c.priority.Ranks (v.sorter s) (tierNames s (definitionMutators s) .priority) ∧
    c.ordered.Ranks (v.sorter s) (tierNames s (definitionMutators s) .ordered) ∧
    p = (c.mutators, supplied.filter isRegular) ∧
    i' = { c.state with report := { c.state.report with rounds := 0 } } ∧ ds = c.opening) ?_ ?_
  · unfold openingTiers
    refine enter_yields_bind (by decide) (.bind (separate_yields hc supplied) ?_)
    rintro p i₁ ds₁ ⟨rfl, rfl, rfl⟩
    refine enter_yields_bind (by simp) ?_
    refine tier_yields_bind hc hready decides_isPriority (fun _ _ _ _ => rfl) fun priority h₁ => ?_
    rw [filter_priority] at h₁
    refine enter_yields_bind (by simp) ?_
    refine tier_yields_bind hc hready decides_isOrdered local_isOrdered fun ordered h₂ => ?_
    have hprocessed : (inPhase (advance (inPhase (definitionsCalled (inPhase {} .separatingSupplied)
        (supplied.filter (·.views.definitionMutator))) .priorityTier) [priority] 0)
          .orderedTier).processed = tierNames s (definitionMutators s) .priority := by
      rw [← h₁.names]
      simp
    rw [hprocessed, filter_ordered] at h₂
    refine enter_yields_bind (by simp) (.pure ?_)
    refine ⟨⟨supplied.filter (·.views.definitionMutator), priority, ordered, []⟩, rfl, rfl, h₁, h₂,
      ?_, ?_, ?_⟩
    · simp [Course.mutators, Course.tiers]
    · simp [Course.state, Course.names, Course.mutators, Course.tiers, inPhase, advance,
        definitionsCalled]
    · simp [Course.opening]
  · rintro p i₁ ds₁ ⟨c, hfirst, hrounds, h₁, h₂, rfl, rfl, rfl⟩
    have hopened : c.names = c.priority.names ++ c.ordered.names := by
      simp [Course.names_eq, hrounds]
    refine .bind (fixedPoint_yields hc hready depth) ?_
    rintro es i₂ ds₂ ⟨t, h₃, ts, hts, rfl, rfl, rfl⟩
    have hprocessed : c.names = tierNames s (definitionMutators s) .priority ++
        tierNames s (definitionMutators s) .ordered := by
      rw [hopened, h₁.names, h₂.names]
    have h₃' : t.Ranks (v.sorter s) (tierNames s (definitionMutators s) .unordered) := by
      simp only [Course.state, hprocessed] at h₃
      rwa [filter_unordered] at h₃
    have hall : ({ c with rounds := ts } : Course H).names = c.names ++ ts.flatMap Tier.names := by
      simp [Course.names_eq, hrounds]
    refine .pure ⟨{ c with rounds := ts }, hfirst, ⟨h₁, h₂, t, h₃', hts⟩, ?_, ?_, ?_⟩
    · simp [Course.mutators, Course.tiers, hrounds]
    · simp [Course.state, advance, hall, Course.mutators, Course.tiers, hrounds]
    · simp [Course.deeds, Course.opening]

end Definitions

end Pipeline

end Startup
