import Startup.Proofs.Pipeline.Rounds

/-!
The rounds come to an end, and when they do nothing is left to be done.

Main statement: `exhausted_and_bounded`. A run that reaches its factory phase has run every
definition mutator that is registered at that moment; each of its rounds but the last fetched
something new. If all names that can be registered lie in a finite set, there is at most one round
more than there are names.
-/

namespace Startup

variable {H : Host} {σ : Type}

theorem Journal.deeds_flatten (js : List (Journal H)) :
    Journal.deeds js.flatten = (js.map Journal.deeds).flatten :=
  List.filterMap_flatten

namespace Pipeline

variable {call : Call H σ} {v : View} {s : Invocation} {w : World H σ}

/-! ## What rounds leave -/

/-- A component was fetched for its definition callback, and after that the callback succeeded. -/
def Mutated (n : ComponentName) (ds : List (Deed H)) : Prop :=
  ∃ e, [.fetched n .definitionMutator (.ok e), .called .definition e none].Sublist ds

theorem Tier.mutated {t : Tier H .definition} {n : ComponentName} (h : n ∈ t.names) :
    Mutated n t.deeds := by
  obtain ⟨q, hq, rfl⟩ := List.mem_map.1 h
  have hfetched : .fetched q.1 .definitionMutator (.ok q.2) ∈
      Deed.fetches MutationPhase.definition.capability t.found := List.mem_map.2 ⟨q, hq, rfl⟩
  have hcalled : .called .definition q.2 none ∈ Deed.calls .definition t.extensions :=
    List.mem_map.2 ⟨q.2, List.mem_map.2 ⟨q, t.perm.mem_iff.2 hq, rfl⟩, rfl⟩
  exact ⟨q.2, (List.singleton_sublist.2 hfetched).append (List.singleton_sublist.2 hcalled)⟩

namespace Course

theorem infix_deeds {c : Course H} {t : Tier H .definition} (h : t ∈ c.tiers) :
    t.deeds <:+: c.deeds := by
  rcases List.mem_cons.1 h with rfl | h
  · exact ⟨.entered .separatingSupplied :: (Deed.calls .definition c.first ++
      [.entered .priorityTier]), .entered .orderedTier :: (c.ordered.deeds ++
        .entered .fixedPointTier :: c.rounds.flatMap Tier.deeds), by simp [deeds, opening]⟩
  · rcases List.mem_cons.1 h with rfl | h
    · exact ⟨.entered .separatingSupplied :: (Deed.calls .definition c.first ++
        .entered .priorityTier :: (c.priority.deeds ++ [.entered .orderedTier])),
        .entered .fixedPointTier :: c.rounds.flatMap Tier.deeds, by simp [deeds, opening]⟩
    · obtain ⟨before, after, hrounds⟩ := List.append_of_mem h
      exact ⟨c.opening ++ before.flatMap Tier.deeds, after.flatMap Tier.deeds,
        by simp [deeds, hrounds]⟩

/-- All components that were fetched are through. -/
theorem mutated {c : Course H} {n : ComponentName} (h : n ∈ c.names) : Mutated n c.deeds := by
  obtain ⟨t, ht, hn⟩ := List.mem_flatMap.1 h
  obtain ⟨e, he⟩ := Tier.mutated hn
  exact ⟨e, he.trans (infix_deeds ht).sublist⟩

/-- A round that finds something finds a component that was not fetched before. -/
theorem exists_new {c : Course H} {t : Tier H .definition}
    {before after : List (Tier H .definition)} (hnames : c.names.Nodup)
    (hrounds : c.rounds = before ++ t :: after) (ht : t.found ≠ []) :
    ∃ n ∈ t.names, n ∉ Deed.fetchedNames (c.opening ++ before.flatMap Tier.deeds) := by
  obtain ⟨q, hq⟩ := List.exists_mem_of_ne_nil _ ht
  have hmem : q.1 ∈ t.names := List.mem_map_of_mem hq
  have hearlier : Deed.fetchedNames (c.opening ++ before.flatMap Tier.deeds) =
      (c.priority.names ++ c.ordered.names) ++ before.flatMap Tier.names := by
    rw [Deed.fetchedNames_append, fetchedNames_tiers]
    simp [opening]
  rw [names_eq, hrounds, List.flatMap_append, List.flatMap_cons, ← List.append_assoc] at hnames
  refine ⟨q.1, hmem, fun hold => ?_⟩
  rw [hearlier] at hold
  have hlater := List.mem_append_left (after.flatMap Tier.names) hmem
  exact (List.nodup_append.1 hnames).2.2 q.1 hold q.1 hlater rfl

end Course

/-- In each tier that is not empty, something is found. -/
theorem length_le_names {p : MutationPhase} {ts : List (Tier H p)} (h : ∀ t ∈ ts, t.found ≠ []) :
    ts.length ≤ (ts.flatMap Tier.names).length := by
  induction ts with
  | nil => exact Nat.zero_le _
  | cons t rest ih =>
    obtain ⟨ht, hrest⟩ := List.forall_mem_cons.1 h
    have hnames : 0 < t.names.length := by
      rw [Tier.names, List.length_map]
      exact List.length_pos_iff.2 ht
    have hle := ih hrest
    rw [List.flatMap_cons, List.length_append, List.length_cons]
    omega

/-! ## The last round -/

variable {supplied : List (Extension H)} {depth : Nat} {opening : Journal H}
  {rounds : List (Journal H)}

/-- Rounds that come to an end have a last one, which finds nothing and changes nothing. -/
theorem fixedPoint_rounds {s₁ s₂ : Invocation} {w₁ w₂ : World H σ} {es : List (Extension H)}
    {j : Journal H} (h : RoundBegins call v supplied w opening rounds s₁ w₁)
    (hrun : (fixedPoint call v depth).on s₁ w₁ = some ((.ok es, s₂), w₂, j)) :
    ∃ more last s₃, RoundBegins call v supplied w opening (rounds ++ more) s₃ w₂ ∧
      (round call v).on s₃ w₂ = some ((.ok none, s₂), w₂, last) ∧ j = more.flatten ++ last := by
  induction depth generalizing rounds s₁ w₁ es j with
  | zero =>
    rw [fixedPoint, Stage.on_always] at hrun
    cases hrun
  | succ depth ih =>
    obtain ⟨tier, s', w', j₁, j₂, hround, hrest, rfl⟩ := Stage.bind_eq_ok.1 hrun
    cases tier with
    | none =>
      obtain ⟨hvalue, rfl, rfl⟩ := Run.pure_eq_some.1 hrest
      cases hvalue
      obtain ⟨-, -, rfl, -⟩ | ⟨t, hsome, -⟩ := round_leaves h.nodup _ _ _ hround
      · refine ⟨[], j₁, s₁, ?_, hround, List.append_nil _⟩
        rw [List.append_nil]
        exact h
      · cases hsome
    | some tier =>
      obtain ⟨later, s'', w'', j₂, j₃, hlater, hpure, rfl⟩ := Stage.bind_eq_ok.1 hrest
      obtain ⟨hvalue, rfl, rfl⟩ := Run.pure_eq_some.1 hpure
      cases hvalue
      obtain ⟨more, last, s₃, hbegins, hlast, rfl⟩ := ih (h.next hround) hlater
      refine ⟨j₁ :: more, last, s₃, ?_, hlast, by simp⟩
      rw [List.append_assoc, List.singleton_append] at hbegins
      exact hbegins

/-- The definition phase of a run, which ends in a world: the opening tiers, the rounds that found
something, and a last round that did not. -/
def DefinitionPhase (call : Call H σ) (v : View) (depth : Nat) (supplied : List (Extension H))
    (w : World H σ) (opening : Journal H) (rounds : List (Journal H)) (last : Journal H)
    (s₂ : Invocation) (w₂ : World H σ) : Prop :=
  ∃ p s₁, (mutateDefinitions call v depth supplied).on {} w =
      some ((.ok p, s₂), w₂, opening ++ rounds.flatten ++ last) ∧
    RoundBegins call v supplied w opening rounds s₁ w₂ ∧
    (round call v).on s₁ w₂ = some ((.ok none, s₂), w₂, last)

theorem exists_definitionPhase {p : List (Extension H) × List (Extension H)} {s₂ : Invocation}
    {w₂ : World H σ} {j : Journal H}
    (h : (mutateDefinitions call v depth supplied).on {} w = some ((.ok p, s₂), w₂, j)) :
    ∃ opening rounds last, j = opening ++ rounds.flatten ++ last ∧
      DefinitionPhase call v depth supplied w opening rounds last s₂ w₂ := by
  obtain ⟨q, s₁, w₁, opening, j₁, hopening, hrest, rfl⟩ := Stage.bind_eq_ok.1 h
  obtain ⟨es, s', w', j₂, j₃, hrounds, hpure, rfl⟩ := Stage.bind_eq_ok.1 hrest
  obtain ⟨hvalue, rfl, rfl⟩ := Run.pure_eq_some.1 hpure
  cases hvalue
  obtain ⟨rounds, last, s₃, hbegins, hlast, rfl⟩ := fixedPoint_rounds (.first hopening) hrounds
  have hj : opening ++ (rounds.flatten ++ last ++ []) = opening ++ rounds.flatten ++ last := by
    rw [List.append_nil, List.append_assoc]
  rw [hj] at h
  exact ⟨opening, rounds, last, hj, _, s₃, h, hbegins, hlast⟩

/-- What holds when the rounds of a run are over. -/
structure Exhausted (v : View) (opening : Journal H) (rounds : List (Journal H)) (count : Nat)
    (w₂ : World H σ) : Prop where
  /-- All definition mutators that are registered now are through. -/
  complete : ∀ n ∈ (w₂.registries.get v.registry).namesFor .definitionMutator true,
    Mutated n (Journal.deeds (opening ++ rounds.flatten))
  /-- Each round fetched something that was not fetched before. -/
  fresh : ∀ before r after, rounds = before ++ r :: after →
    ∃ n ∈ Deed.fetchedNames (Journal.deeds r),
      n ∉ Deed.fetchedNames (Journal.deeds (opening ++ before.flatten))
  distinct : (Deed.fetchedNames (Journal.deeds rounds.flatten)).Nodup
  /-- One more round found nothing. -/
  count_eq : count = rounds.length + 1
  count_le : count ≤ (Deed.fetchedNames (Journal.deeds rounds.flatten)).length + 1

theorem DefinitionPhase.exhausted {last : Journal H} {s₂ : Invocation} {w₂ : World H σ}
    (h : DefinitionPhase call v depth supplied w opening rounds last s₂ w₂) :
    Exhausted v opening rounds s₂.report.rounds w₂ := by
  obtain ⟨p, s₁, -, hbegins, hlast⟩ := h
  obtain ⟨c, hopening, hrounds, rfl, hnames, hfound⟩ := hbegins.course
  obtain ⟨-, rfl, -, -, hdone⟩ | ⟨t, hsome, -⟩ := round_leaves hnames _ _ _ hlast
  · have hdeeds : Journal.deeds rounds.flatten = c.rounds.flatMap Tier.deeds := by
      rw [Journal.deeds_flatten, hrounds, List.flatMap]
    have hfetched : Deed.fetchedNames (Journal.deeds rounds.flatten) =
        c.rounds.flatMap Tier.names := by
      rw [hdeeds, fetchedNames_tiers]
    have hcount : rounds.length = c.rounds.length := by
      have hlength := congrArg List.length hrounds
      rw [List.length_map, List.length_map] at hlength
      exact hlength
    have hdistinct : (c.rounds.flatMap Tier.names).Nodup := by
      rw [Course.names_eq] at hnames
      exact (List.nodup_append.1 hnames).2.1
    refine ⟨fun n hn => ?_, ?_, ?_, ?_, ?_⟩
    · rw [Journal.deeds_append, hopening, hdeeds]
      exact Course.mutated (hdone n hn)
    · rintro before r after rfl
      rw [List.map_append, List.map_cons] at hrounds
      obtain ⟨ts, ts', hc, hbefore, hafter⟩ := List.map_eq_append_iff.1 hrounds.symm
      obtain ⟨t, ts'', rfl, hr, -⟩ := List.map_eq_cons_iff.1 hafter
      have ht : t.found ≠ [] := hfound t (by simp [hc])
      obtain ⟨n, hn, hnew⟩ := Course.exists_new hnames hc ht
      have hearlier : Journal.deeds (opening ++ before.flatten) =
          c.opening ++ ts.flatMap Tier.deeds := by
        rw [Journal.deeds_append, hopening, Journal.deeds_flatten, ← hbefore, List.flatMap]
      refine ⟨n, ?_, ?_⟩
      · rw [← hr, Tier.fetchedNames_deeds]
        exact hn
      · rw [hearlier]
        exact hnew
    · rw [hfetched]
      exact hdistinct
    · rw [hcount]
      rfl
    · rw [hfetched]
      exact Nat.succ_le_succ (length_le_names hfound)
  · cases hsome

/-! ## A whole run -/

/-- A run leaves its definition phase with an error, or it enters the factory phase in the world in
which the definition phase ended. -/
theorem steps_phases (hv : v.writable = true) {result : Except ExtensionError Unit}
    {s : Invocation} {w' : World H σ} {j : Journal H}
    (h : (steps call v depth supplied).on {} w = some ((result, s), w', j)) :
    (∃ e, (mutateDefinitions call v depth supplied).on {} w = some ((.error e, s), w', j)) ∨
      ∃ p s₂ w₂ j₁ later,
        (mutateDefinitions call v depth supplied).on {} w = some ((.ok p, s₂), w₂, j₁) ∧
        s.report.rounds = s₂.report.rounds ∧
        j = j₁ ++ .fact (.phaseChanged .fixedPointTier .factoryCallbacks) :: later := by
  rw [steps_eq hv, Stage.on_bind] at h
  obtain ⟨⟨r, s₂⟩, w₂, j₁, j₂, hdefinition, hfactory, rfl⟩ := Run.bind_eq_some.1 h
  cases r with
  | error e =>
    obtain ⟨hvalue, rfl, rfl⟩ := Run.pure_eq_some.1 hfactory
    cases hvalue
    rw [List.append_nil]
    exact .inl ⟨e, hdefinition⟩
  | ok p =>
    have hrounds := AddsRounds.factoryPhase p s₂ w₂ result s w' j₂ hfactory
    obtain ⟨c, -, -, hstate, -⟩ := mutateDefinitions_leaves depth supplied _ _ _ hdefinition
    have hphase : s₂.report.phase = .fixedPointTier := by
      rw [show s₂ = c.state from hstate]
      rfl
    have hentered : s₂.report.phase ≠ .factoryCallbacks := by
      rw [hphase]
      exact Phase.noConfusion
    change (factoryPhase call v p).on s₂ w₂ = _ at hfactory
    unfold factoryPhase at hfactory
    rw [Stage.on_bind, Stage.on_enter, if_neg hentered, hphase] at hfactory
    obtain ⟨p', w₃, j₃, j₄, henter, -, rfl⟩ := Run.bind_eq_some.1 hfactory
    cases henter
    exact .inr ⟨p, s₂, w₂, j₁, j₄, hdefinition, by omega, rfl⟩

theorem exhausted_of_entered (hv : v.writable = true) {result : Except ExtensionError Unit}
    {report : Report} {w' : World H σ} {j : Journal H}
    (h : invoke call v depth supplied w = some ((result, report), w', j)) :
    ∃ body, j = [.scope (.pipeline v supplied report (error? result)) body] ∧
      (.entered .factoryCallbacks ∈ Journal.deeds body →
        ∃ opening rounds last later s₂ w₂,
          DefinitionPhase call v depth supplied w opening rounds last s₂ w₂ ∧
          body = .fact (.pipelineStarted supplied.length) :: (opening ++ rounds.flatten ++ last ++
            .fact (.phaseChanged .fixedPointTier .factoryCallbacks) :: later) ∧
          Exhausted v opening rounds report.rounds w₂) := by
  obtain ⟨s, w₁, j₁, p, j₂, hsteps, rfl, hclosing, rfl⟩ := invoke_eq_some h
  refine ⟨_, rfl, fun hentered => ?_⟩
  obtain ⟨e, hbroken⟩ | ⟨q, s₂, w₂, j₁, later, hdefinition, hrounds, rfl⟩ := steps_phases hv hsteps
  · have hfair := (mutateDefinitions_leaves depth supplied _ _ _ hbroken : Fair _ _ _)
    rw [deeds_started, Journal.deeds_append] at hentered
    exact absurd hentered (hfair.closing hclosing).not_entered
  · obtain ⟨opening, rounds, last, rfl, hphase⟩ := exists_definitionPhase hdefinition
    refine ⟨opening, rounds, last, later ++ j₂, s₂, w₂, hphase, by simp, ?_⟩
    have hexhausted := hphase.exhausted
    rw [← hrounds] at hexhausted
    exact hexhausted

/-- Any run that reaches its factory phase, and where definitions can be changed, has run all
definition mutators that are registered at that moment, whatever callbacks and creations did to the
registry in the meantime; and each of its rounds but the last fetched something new. If the
definition mutators that its rounds can find have names in a finite set, their number is bounded by
the size of the set: no larger bound makes a difference, no run has more rounds, and if all
callbacks come to an end, so does the run. -/
theorem exhausted_and_bounded (call : Call H σ) (v : View) (hv : v.writable = true)
    (supplied : List (Extension H)) (w : World H σ) :
    (∀ depth result report w' j,
      invoke call v depth supplied w = some ((result, report), w', j) →
      ∃ body, j = [.scope (.pipeline v supplied report (error? result)) body] ∧
        (.entered .factoryCallbacks ∈ Journal.deeds body →
          ∃ opening rounds last later s₂ w₂,
            DefinitionPhase call v depth supplied w opening rounds last s₂ w₂ ∧
            body = .fact (.pipelineStarted supplied.length) :: (opening ++ rounds.flatten ++ last ++
              .fact (.phaseChanged .fixedPointTier .factoryCallbacks) :: later) ∧
            Exhausted v opening rounds report.rounds w₂)) ∧
      ∀ S, ListedIn call v supplied w S →
        (∀ depth, S.card < depth →
          invoke call v depth supplied w = invoke call v (S.card + 1) supplied w) ∧
        (∀ depth result report w' j,
          invoke call v depth supplied w = some ((result, report), w', j) →
          report.rounds ≤ S.card + 1) ∧
        ((∀ cb w₁, (call cb w₁).isSome = true) →
          (invoke call v (S.card + 1) supplied w).isSome = true) := by
  refine ⟨fun depth result report w' j h => exhausted_of_entered hv h, fun S hS => ⟨?_, ?_, ?_⟩⟩
  · exact fun depth hdepth => invoke_stable hv hS hdepth (Nat.lt_succ_self _)
  · exact fun depth result report w' j h => rounds_le_card hv hS h
  · exact fun hcall => invoke_total hcall hS

end Pipeline

namespace Scenario

/-- The definition mutators of the sample run. -/
def sampleNames : Finset ComponentName := {⟨"early"⟩, ⟨"late"⟩}

theorem sampleNames_listed :
    Pipeline.ListedIn patient (.direct Setup.base) sampleSupplied sampleWorld sampleNames :=
  .of_rehearsal (k := 3) (by decide +kernel)

theorem patientRun_isOk : (Pipeline.invoke patient (.direct Setup.base) 3 sampleSupplied
    sampleWorld).map (·.1.1.isOk) = some true := by
  decide +kernel

/-- The sample run leaves its rounds with nothing left to be done, after at most three of them, and
whatever more rounds it is given. -/
theorem sampleRun_exhausted :
    (∃ report w' body opening rounds, ∃ w₂ : World Scripted Memory,
      Pipeline.invoke patient (.direct Setup.base) 3 sampleSupplied sampleWorld =
        some ((.ok (), report), w',
          [.scope (.pipeline (.direct Setup.base) sampleSupplied report none) body]) ∧
      .entered .factoryCallbacks ∈ Journal.deeds body ∧
      Pipeline.Exhausted (.direct Setup.base) opening rounds report.rounds w₂ ∧
      report.rounds ≤ 3) ∧
    (∀ depth, 2 < depth →
      Pipeline.invoke patient (.direct Setup.base) depth sampleSupplied sampleWorld =
        Pipeline.invoke patient (.direct Setup.base) 3 sampleSupplied sampleWorld) ∧
    (Pipeline.invoke patient (.direct Setup.base) 3 sampleSupplied sampleWorld).isSome = true := by
  obtain ⟨hall, hbounded⟩ := Pipeline.exhausted_and_bounded patient (.direct Setup.base) rfl
    sampleSupplied sampleWorld
  obtain ⟨hsame, hrounds, htotal⟩ := hbounded sampleNames sampleNames_listed
  refine ⟨?_, hsame, htotal (Call.completed_isSome _ _)⟩
  obtain ⟨⟨⟨result, report⟩, w', j⟩, hrun, hok⟩ := Option.map_eq_some_iff.1 patientRun_isOk
  cases result with
  | error e => cases hok
  | ok _ =>
    obtain ⟨body, rfl, hexhausted⟩ := hall 3 (.ok ()) report w' j hrun
    obtain ⟨body', hbody, hconduct⟩ := Pipeline.invoke_conduct hrun
    cases hbody
    have hentered := hconduct.entered
    obtain ⟨opening, rounds, last, later, s₂, w₂, -, -, hdone⟩ := hexhausted hentered
    exact ⟨report, w', body, opening, rounds, w₂, hrun, hentered, hdone,
      hrounds _ _ _ _ _ hrun⟩

end Scenario

end Startup
