import Startup.Proofs.Pipeline.FixedPoint

/-!
Definition mutators that come too late for their definition callback. When the rounds of a run are
over, no definition callback is made any more; but whatever mutates definitions is a factory
mutator, too, and those are asked for once more. So a definition mutator that turns up only then has
its factory callback made and not its definition callback: because a factory callback registered it,
or because its definition did not declare what it is.

Main statement: `prepared_or_late`, that there are no others.
-/

namespace Startup

variable {H : Host} {σ : Type}

/-- If an element does not stand in the first part of a list, what comes before it begins with that
part. -/
theorem split_after {α : Type} {before after front rest : List α} {x : α}
    (h : before ++ x :: after = front ++ rest) (hx : x ∉ front) :
    ∃ more, before = front ++ more ∧ more ++ x :: after = rest := by
  obtain ⟨more, rfl, hrest⟩ | ⟨more, rfl, hrest⟩ := List.append_eq_append_iff.1 h
  · cases more with
    | nil => exact ⟨[], by simp, hrest⟩
    | cons y more =>
      obtain ⟨rfl, -⟩ := List.cons.inj hrest
      exact absurd (List.mem_append_right before List.mem_cons_self) hx
  · exact ⟨more, rfl, hrest.symm⟩

namespace Pipeline

variable {call : Call H σ} {v : View} {supplied : List (Extension H)}

theorem called_mem_calls {p : MutationPhase} {es : List (Extension H)} {e : Extension H}
    {f : Option Failure} : .called p e f ∈ Deed.calls p es ↔ e ∈ es ∧ f = none := by
  constructor
  · intro h
    obtain ⟨e', he', heq⟩ := List.mem_map.1 h
    cases heq
    exact ⟨he', rfl⟩
  · rintro ⟨he, rfl⟩
    exact List.mem_map_of_mem he

/-- Each definition mutator of a run had its definition callback made. -/
theorem Course.called {c : Course H} {e : Extension H} (h : e ∈ c.mutators) :
    .called .definition e none ∈ c.deeds := by
  rcases List.mem_append.1 h with hfirst | htier
  · have hcall : .called .definition e none ∈ Deed.calls .definition c.first :=
      called_mem_calls.2 ⟨hfirst, rfl⟩
    simp [Course.deeds, Course.opening, hcall]
  · obtain ⟨t, ht, he⟩ := List.mem_flatMap.1 htier
    have hcall : .called .definition e none ∈ t.deeds :=
      List.mem_append_right _ (called_mem_calls.2 ⟨he, rfl⟩)
    exact (infix_deeds ht).subset hcall

/-! ## Callbacks of a factory tier -/

/-- Before a tier calls an extension, it fetches it. -/
theorem Tier.fetched_before {p : MutationPhase} {t : Tier H p} {before after rest : List (Deed H)}
    {e : Extension H} {f : Option Failure} (h : before ++ .called p e f :: after = t.deeds ++ rest)
    (hmem : .called p e f ∈ t.deeds) :
    f = none ∧ ∃ n ∈ t.names, .fetched n p.capability (.ok e) ∈ before := by
  have hnot : .called p e f ∉ Deed.fetches p.capability t.found := by
    intro hin
    obtain ⟨q, -, hq⟩ := List.mem_map.1 hin
    cases hq
  rw [Tier.deeds, List.append_assoc] at h
  obtain ⟨more, rfl, -⟩ := split_after h hnot
  obtain ⟨he, rfl⟩ := called_mem_calls.1 ((List.mem_append.1 hmem).resolve_left hnot)
  obtain ⟨q, hq, rfl⟩ := List.mem_map.1 he
  have hfound : q ∈ t.found := t.perm.mem_iff.1 hq
  exact ⟨rfl, q.1, List.mem_map_of_mem hfound,
    List.mem_append_left _ (List.mem_map.2 ⟨q, hfound, rfl⟩)⟩

theorem fetched_before_tiers {p : MutationPhase} {ts : List (Tier H p)}
    {before after rest : List (Deed H)} {e : Extension H} {f : Option Failure}
    (h : before ++ .called p e f :: after = ts.flatMap Tier.deeds ++ rest)
    (hrest : .called p e f ∉ rest) :
    f = none ∧ ∃ n ∈ ts.flatMap Tier.names, .fetched n p.capability (.ok e) ∈ before := by
  induction ts generalizing before with
  | nil =>
    have hmem : .called p e f ∈ rest := by
      rw [List.flatMap_nil, List.nil_append] at h
      rw [← h]
      exact List.mem_append_right _ List.mem_cons_self
    exact absurd hmem hrest
  | cons t ts ih =>
    rw [List.flatMap_cons, List.append_assoc] at h
    by_cases ht : .called p e f ∈ t.deeds
    · obtain ⟨hf, n, hn, hfetched⟩ := Tier.fetched_before h ht
      exact ⟨hf, n, List.mem_append_left _ hn, hfetched⟩
    · obtain ⟨more, rfl, hmore⟩ := split_after h ht
      obtain ⟨hf, n, hn, hfetched⟩ := ih hmore
      exact ⟨hf, n, List.mem_append_right _ hn, List.mem_append_right _ hfetched⟩

/-! ## Callbacks of a whole run -/

/-- In a run that did everything, before each factory callback of an extension that mutates
definitions either its definition callback was made, or it was fetched as a factory mutator. -/
theorem fullDeeds_split {c : Course H} {ts : List (Tier H .factory)}
    {ds before after : List (Deed H)} {e : Extension H} {f : Option Failure}
    (hnames : c.names.Nodup) (hclosing : Closing ds)
    (he : e.views.definitionMutator = true)
    (h : before ++ .called .factory e f :: after =
      fullDeeds c (supplied.filter isRegular) ts ++ ds) :
    f = none ∧ (.called .definition e none ∈ before ∨
      ∃ n ∈ ts.flatMap Tier.names, .fetched n .factoryMutator (.ok e) ∈ before) := by
  have hdefinition : .called .factory e f ∉ c.deeds ++ [.entered .factoryCallbacks] := by
    intro hin
    rcases List.mem_append.1 hin with hin | hin
    · exact MutationPhase.noConfusion ((Course.fair_deeds hnames).within _ hin)
    · simp at hin
  have hregular : .called .factory e f ∉ Deed.calls .factory (supplied.filter isRegular) := by
    intro hin
    have hkind := (List.mem_filter.1 (called_mem_calls.1 hin).1).2
    simp [isRegular, he] at hkind
  have hend : .called .factory e f ∉ ds := by
    obtain rfl | ⟨q, -, rfl⟩ := hclosing <;> simp
  have hparts : fullDeeds c (supplied.filter isRegular) ts ++ ds =
      (c.deeds ++ [.entered .factoryCallbacks]) ++ (Deed.calls .factory c.mutators ++
        (Deed.calls .factory (supplied.filter isRegular) ++
          (ts.flatMap Tier.deeds ++ ds))) := by
    simp [fullDeeds, factoryDeeds]
  rw [hparts] at h
  obtain ⟨mid, rfl, hmid⟩ := split_after h hdefinition
  by_cases hmutator : .called .factory e f ∈ Deed.calls .factory c.mutators
  · obtain ⟨hmem, rfl⟩ := called_mem_calls.1 hmutator
    exact ⟨rfl, .inl (List.mem_append_left _ (List.mem_append_left _ (Course.called hmem)))⟩
  · obtain ⟨mid', rfl, hmid'⟩ := split_after hmid hmutator
    obtain ⟨last, rfl, hlast⟩ := split_after hmid' hregular
    obtain ⟨hf, n, hn, hfetched⟩ := fetched_before_tiers hlast hend
    refine ⟨hf, .inr ⟨n, hn, ?_⟩⟩
    simp only [List.mem_append]
    exact .inr (.inr (.inr hfetched))

/-- What a run fetched in its definition phase, it does not fetch in its factory phase. -/
theorem fetched_once {c : Course H} {ts : List (Tier H .factory)} {regular : List (Extension H)}
    {ds : List (Deed H)} (hnames : (c.names ++ ts.flatMap Tier.names).Nodup)
    (hclosing : Closing ds) {n : ComponentName} {e : Extension H}
    (h : .fetched n .definitionMutator (.ok e) ∈ fullDeeds c regular ts ++ ds) :
    n ∉ ts.flatMap Tier.names := by
  have hfactory : Fair c.names .factory
      (.entered .factoryCallbacks :: factoryDeeds c regular ts ++ ds) :=
    (fair_factoryDeeds hnames).closing hclosing
  rw [fullDeeds, List.append_assoc] at h
  rcases List.mem_append.1 h with hin | hin
  · have hn : n ∈ Deed.fetchedNames c.deeds := List.mem_filterMap.2 ⟨_, hin, rfl⟩
    rw [Course.fetchedNames_deeds] at hn
    exact fun hlater => (List.nodup_append.1 hnames).2.2 n hn n hlater rfl
  · have hkind : Capability.definitionMutator = MutationPhase.factory.capability :=
      hfactory.within _ hin
    cases hkind

/-- In every run that succeeds where definitions can be changed, consider the factory callback of an
extension that mutates definitions. Before it, the definition callback of the extension succeeded;
or the extension was fetched as a factory mutator, under a name that was not among the registered
definition mutators at the moment in which the factory phase began. -/
theorem prepared_or_late (call : Call H σ) (v : View) (hv : v.writable = true) (depth : Nat)
    (supplied : List (Extension H)) {w w' : World H σ} {report : Report} {j : Journal H}
    (h : invoke call v depth supplied w = some ((.ok (), report), w', j)) :
    ∃ body opening rounds last later s₂ w₂,
      j = [.scope (.pipeline v supplied report none) body] ∧
      DefinitionPhase call v depth supplied w opening rounds last s₂ w₂ ∧
      body = .fact (.pipelineStarted supplied.length) :: (opening ++ rounds.flatten ++ last ++
        .fact (.phaseChanged .fixedPointTier .factoryCallbacks) :: later) ∧
      ∀ before e f after, Journal.deeds body = before ++ .called .factory e f :: after →
        e.views.definitionMutator = true →
          f = none ∧ (.called .definition e none ∈ before ∨
            ∃ n, .fetched n .factoryMutator (.ok e) ∈ before ∧
              n ∉ (w₂.registries.get v.registry).namesFor .definitionMutator true) := by
  obtain ⟨body, rfl, hconduct⟩ := invoke_conduct h
  obtain ⟨body', hbody', hphases⟩ := exhausted_of_entered hv h
  cases hbody'
  obtain ⟨opening, rounds, last, later, s₂, w₂, hphase, hbody, hexhausted⟩ :=
    hphases hconduct.entered
  refine ⟨body, opening, rounds, last, later, s₂, w₂, rfl, hphase, hbody, ?_⟩
  intro before e f after hsplit he
  -- what was fetched in the definition phase is among the deeds of the run
  have hopening : ∀ d ∈ Journal.deeds (opening ++ rounds.flatten), d ∈ Journal.deeds body := by
    intro d hd
    rw [hbody, deeds_started, List.append_assoc, Journal.deeds_append]
    exact List.mem_append_left _ hd
  generalize Journal.deeds body = ds' at hconduct hsplit hopening
  cases hconduct with
  | degraded ts r ds hv' =>
    rw [hv] at hv'
    cases hv'
  | complete c ts p ds _ _ hnames hclosing =>
    obtain ⟨hf, hcalled | ⟨n, hn, hfetched⟩⟩ :=
      fullDeeds_split (List.nodup_append.1 hnames).1 hclosing he hsplit.symm
    · exact ⟨hf, .inl hcalled⟩
    · refine ⟨hf, .inr ⟨n, hfetched, fun hlisted => ?_⟩⟩
      obtain ⟨e', hmutated⟩ := hexhausted.complete n hlisted
      have hearlier := hopening _ (hmutated.subset List.mem_cons_self)
      exact fetched_once hnames hclosing hearlier hn

end Pipeline

/-! ### An extension that comes too late -/

namespace Scenario

/-- A definition mutator whose factory callback registers another one. -/
def tardy : DefinitionSpec :=
  .mk "tardy" .extension [.definitionMutator] .unordered .application .singleton false [] []
    (.extension "tardy" .unordered { definitionMutator := true } false []
      [.mk {} (.perform .quiet (.register late))] [] [] [] [])

def tardyWorld : World Scripted Memory :=
  (Setup.world {}).setRegistry Setup.base (({} : Registry Scripted).define tardy.toDefinition)

def tardyRun : Option ((Except ExtensionError Unit × Report) × World Scripted Memory ×
    Journal Scripted) :=
  Pipeline.invoke (behaviour.call 3) (.direct Setup.base) 3 [] tardyWorld

/-- The callback of a deed: its phase, the name of the extension, and whether that mutates
definitions. -/
def callOf? : Deed Scripted → Option (MutationPhase × String × Bool)
  | .called p e _ => some (p, e.name, e.views.definitionMutator)
  | _ => none

/-- The callbacks of a run, one after the other. -/
def callsOf : Journal Scripted → List (MutationPhase × String × Bool)
  | [.scope _ body] => (Journal.deeds body).filterMap callOf?
  | _ => []

theorem tardyRun_report :
    tardyRun.map (fun p => (p.1.1.isOk, callsOf p.2.2)) =
      some (true, [(.definition, "tardy", true), (.factory, "tardy", true),
        (.factory, "late", true)]) := by
  decide +kernel

/-- The run succeeds. It calls the factory callback of the extension that came late, and never its
definition callback. -/
theorem tardyRun_calls : ∃ report w' body e f, tardyRun = some ((.ok (), report), w',
      [.scope (.pipeline (.direct Setup.base) [] report none) body]) ∧
    .called .factory e f ∈ Journal.deeds body ∧ e.name = "late" ∧
    e.views.definitionMutator = true ∧ ∀ g, .called .definition e g ∉ Journal.deeds body := by
  obtain ⟨⟨⟨result, report⟩, w', j⟩, hrun, hreport⟩ := Option.map_eq_some_iff.1 tardyRun_report
  simp only [Prod.mk.injEq] at hreport
  obtain ⟨hok, hcalls⟩ := hreport
  obtain ⟨body, rfl, -⟩ := Pipeline.invoke_conduct hrun
  cases result with
  | error e => cases hok
  | ok _ =>
    have hlate : (.factory, "late", true) ∈ (Journal.deeds body).filterMap callOf? := by
      rw [show (Journal.deeds body).filterMap callOf? = _ from hcalls]
      simp
    obtain ⟨d, hd, hcall⟩ := List.mem_filterMap.1 hlate
    cases d with
    | called p e f =>
      simp only [callOf?, Option.some.injEq, Prod.mk.injEq] at hcall
      obtain ⟨rfl, hname, hview⟩ := hcall
      refine ⟨report, w', body, e, f, hrun, hd, hname, hview, fun g hg => ?_⟩
      have hearly : (.definition, "late", true) ∈ (Journal.deeds body).filterMap callOf? :=
        List.mem_filterMap.2 ⟨_, hg, by simp [callOf?, hname, hview]⟩
      rw [show (Journal.deeds body).filterMap callOf? = _ from hcalls] at hearly
      simp at hearly
    | _ => cases hcall

/-- An extension that mutates definitions has its factory callback made and not its definition
callback, although the run succeeds and definitions can be changed. -/
theorem half_run : ∃ report w' body e f, tardyRun = some ((.ok (), report), w',
      [.scope (.pipeline (.direct Setup.base) [] report none) body]) ∧
    .called .factory e f ∈ Journal.deeds body ∧ e.views.definitionMutator = true ∧
    ∀ g, .called .definition e g ∉ Journal.deeds body := by
  obtain ⟨report, w', body, e, f, hrun, hcalled, -, hview, hnever⟩ := tardyRun_calls
  exact ⟨report, w', body, e, f, hrun, hcalled, hview, hnever⟩

/-- It was fetched as a factory mutator, under a name that was no definition mutator when the
factory phase began. -/
theorem tardyRun_late : ∃ report w' body e n, ∃ w₂ : World Scripted Memory,
    tardyRun = some ((.ok (), report), w',
      [.scope (.pipeline (.direct Setup.base) [] report none) body]) ∧
    e.name = "late" ∧ .fetched n .factoryMutator (.ok e) ∈ Journal.deeds body ∧
    n ∉ (w₂.registries.get Setup.base).namesFor .definitionMutator true := by
  obtain ⟨report, w', body, e, f, hrun, hcalled, hname, hview, hnever⟩ := tardyRun_calls
  obtain ⟨body', opening, rounds, last, later, s₂, w₂, hbody, -, -, hsplits⟩ :=
    Pipeline.prepared_or_late (behaviour.call 3) (.direct Setup.base) rfl 3 [] hrun
  cases hbody
  obtain ⟨before, after, hsplit⟩ := List.append_of_mem hcalled
  obtain ⟨-, hprepared | ⟨n, hfetched, hn⟩⟩ := hsplits before e f after hsplit hview
  · have hearlier : .called .definition e none ∈ Journal.deeds body := by
      rw [hsplit]
      exact List.mem_append_left _ hprepared
    exact absurd hearlier (hnever none)
  · refine ⟨report, w', body, e, n, w₂, hrun, hname, ?_, hn⟩
    rw [hsplit]
    exact List.mem_append_left _ hfetched

end Scenario

end Startup
