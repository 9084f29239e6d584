import Startup.Proofs.Registry.Capabilities
import Startup.Proofs.Registry.Turns

/-!
The order in which a query lists names. The names that have the capability by their definition come
first, in the order of the definitions. Those that were put in by hand follow, and the list of these
grows with every such registration and never shrinks: it has names twice, names that have got a
definition since, and names whose singleton is gone. Each is listed where it occurs first, and only
if its singleton is there and supports the capability.

Main statement: `query_lists_in_order`, for every moment of a run that began with an empty registry.
No name is listed twice, and whoever asks for a listed name is not told that it is unknown.
-/

namespace Startup

variable {H : Host} {σ : Type}

/-! ## Unknown names -/

/-- No turn is blamed for an unknown name as such. -/
theorem Creation.Turn.blame_ne_notRegistered (t : Creation.Turn H) (n : ComponentName) (f : Failure)
    (text : String) : t.blame n f ≠ .notRegistered text := by
  cases t <;> exact nofun

/-- A name is unknown only if it has no singleton and no definition. -/
theorem View.resolve_unregistered {call : Call H σ} {v : View} {n : ComponentName}
    {w w' : World H σ} {text : String} {j : Journal H}
    (h : (v.resolve call n).run w = some (.error (.notRegistered text), w', j)) :
    (w.registries.get v.registry).singletons.get? n = none ∧
      (w.registries.get v.registry).definitions.get? n = none := by
  obtain ⟨i, -, ha, -, -⟩ | ⟨hnone, ⟨hlook, -, -, -⟩ | ⟨d, j', -, hcreate, -⟩⟩ :=
    View.resolve_eq_some call h
  · cases ha
  · refine ⟨hnone, ?_⟩
    cases hd : (w.registries.get v.registry).definitions.get? n with
    | none => rfl
    | some d => exact absurd hlook (Registry.lookup_ne_none hd)
  · obtain ⟨-, ha, -, -⟩ | ⟨-, result, w₁, j₁, hbuild, ha, -, -⟩ :=
      Creation.create_eq_some call hcreate
    · cases ha
    · -- the creation failed, and its error is blamed on one of its turns
      have hresult := Registry.conclude_eq_error.1 ha.symm
      have hturns := Creation.build_performed hbuild
      rw [hresult] at hturns
      obtain ⟨_, t, _, _, _, _, f, _, _, _, _, hblame⟩ := hturns.split_of_error
      exact absurd hblame.symm (t.blame_ne_notRegistered n f text)

/-- A listed name has a singleton or a definition. -/
theorem Registry.known_of_listed {s : Registry H} {n : ComponentName} {c : Capability} {all : Bool}
    (hn : n ∈ s.namesFor c all) :
    s.singletons.get? n ≠ none ∨ s.definitions.get? n ≠ none := by
  by_cases hd : s.definitions.get? n = none
  · obtain ⟨i, hi⟩ := singleton_of_listed hn hd
    left
    simp [hi]
  · exact .inr hd

/-! ## Lists of names -/

/-- The names that were put in by hand, in the order of time, each as often as that happened. -/
def keptNames (r : ObjectId) (past : List (Moment H)) : List ComponentName :=
  past.filterMap (Moment.kept? r)

/-- The names that a query lists, in terms of the registry and of what has happened to it: first
`defined` and then `byHand`. -/
structure Listing (r : ObjectId) (past : List (Moment H)) (s : Registry H) (c : Capability)
    (all : Bool) (defined byHand : List ComponentName) : Prop where
  eq : s.namesFor c all = defined ++ byHand
  nodup : (s.namesFor c all).Nodup
  mem_defined : ∀ n, n ∈ defined ↔ ∃ d, s.definitions.get? n = some d ∧
    d.hasCapability c = true ∧ (all = true ∨ d.isSingleton = true)
  /-- In the order of the definitions. -/
  defined_order : defined.Sublist s.definitions.keys
  mem_byHand : ∀ n, n ∈ byHand ↔
    n ∈ keptNames r past ∧ s.singletonSupports n c = true ∧ n ∉ defined
  /-- In the order in which they were first put in. -/
  byHand_order : byHand.Pairwise fun a b =>
    (keptNames r past).idxOf a < (keptNames r past).idxOf b

theorem Registry.listing {r : ObjectId} {past : List (Moment H)} {s : Registry H}
    (hmanual : s.manual = keptNames r past) (c : Capability) (all : Bool) :
    ∃ defined byHand, Listing r past s c all defined byHand := by
  obtain ⟨added, heq, hmem, horder⟩ :=
    exists_appendNew (s.singletonSupports · c) (s.definedNamesFor c all) s.manual
  rw [hmanual] at hmem horder
  have hsublist : (s.definedNamesFor c all).Sublist s.definitions.keys :=
    List.filter_sublist.map Prod.fst
  exact ⟨s.definedNamesFor c all, added,
    { eq := heq
      nodup := s.namesFor_nodup c all
      mem_defined := fun n => mem_definedNamesFor_iff
      defined_order := hsublist
      mem_byHand := hmem
      byHand_order := horder }⟩

/-! ## Runs -/

/-- A query at any moment of a run that began with an empty registry, and the resolutions that ask
for what it lists. Whoever queries the registry as it is at that moment gets the list as it is said
here, whatever he allows to be created, and nothing changes; whoever resolves a listed name then may
fail, but never because that name is not registered. -/
theorem query_lists_in_order {α : Type} (b : Behaviour H σ) (depth : Nat) (x : Program H σ α)
    (r : ObjectId) (c : Option (Comparator H)) {w w' : World H σ} {a : α} {j : Journal H}
    (hempty : w.registries.get r = { comparator? := c })
    (hrun : b.run depth x w = some (a, w', j)) :
    ((Ledger.start c).after r (Journal.moments j)).registry = w'.registries.get r ∧
    ∀ past future, Journal.moments j = past ++ future →
      let s := ((Ledger.start c).after r past).registry
      ∀ (k : Capability) (all : Bool),
        (∃ defined byHand, Listing r past s k all defined byHand) ∧
        ∀ (v : View) (u : World H σ), v.registry = r → u.registries.get r = s →
          (∀ eager, v.names k all eager u =
            some (s.namesFor k all, u, [.fact (.querying v k all eager)])) ∧
          ∀ n ∈ s.namesFor k all, ∀ (call : Call H σ) answer u' j',
            (v.resolve call n).run u = some (answer, u', j') →
              ∀ text, answer ≠ .error (.notRegistered text) := by
  obtain ⟨hlaw, hregistry, -⟩ :=
    Tracks.program b depth x (Ledger.start c) w a w' j hrun (by rw [hempty]; rfl)
  refine ⟨hregistry, fun past future hsplit => ?_⟩
  intro s k all
  rw [hsplit] at hlaw
  have hmanual : s.manual = keptNames r past := (Ledger.lawful_append.1 hlaw).1.manual
  refine ⟨Registry.listing hmanual k all, ?_⟩
  intro v u hv hu
  subst hv
  constructor
  · intro eager
    rw [← hu]
    rfl
  · rintro n hn call answer u' j' hresolve text rfl
    obtain ⟨hsingleton, hdefinition⟩ := View.resolve_unregistered hresolve
    rw [hu] at hsingleton hdefinition
    rcases Registry.known_of_listed hn with h | h
    · exact h hsingleton
    · exact h hdefinition

/-! ### Names that were put in by hand more than once -/

namespace Scenario

/-- A definition that declares itself a mutator. -/
def declaredMutator (name : String) : DefinitionSpec :=
  .mk name .extension [.definitionMutator] .unordered .application .singleton false [] []
    (.minimal name { definitionMutator := true })

/-- `x` is put in by hand, loses its singleton to an overriding definition, and is put in again
after `y`; `z` is put in by hand and then defined as a mutator. -/
def relisted : Program Scripted Memory Unit := do
  let _ ← Program.request (.registerInstance Setup.base ⟨"x"⟩ mutatorInstance)
  let _ ← Program.request (.register Setup.base (plain "x" []).toDefinition)
  let _ ← Program.request (.register Setup.base (plain "x" []).toDefinition)
  let _ ← Program.request (.registerInstance Setup.base ⟨"y"⟩ mutatorInstance)
  let _ ← Program.request (.registerInstance Setup.base ⟨"x"⟩ mutatorInstance)
  let _ ← Program.request (.registerInstance Setup.base ⟨"z"⟩ mutatorInstance)
  let _ ← Program.request (.register Setup.base (declaredMutator "d").toDefinition)
  let _ ← Program.request (.register Setup.base (declaredMutator "z").toDefinition)
  return ()

/-- Definitions come first, also that of a name that was put in by hand, and `x` stands where it was
put in for the first time. -/
theorem relisted_in_order :
    ∃ p, behaviour.run 3 relisted (Setup.world {}) = some p ∧
      (keptNames Setup.base (Journal.moments p.2.2)).map (·.text) = ["x", "y", "x", "z"] ∧
      ((p.2.1.registries.get Setup.base).namesFor .definitionMutator true).map (·.text) =
        ["d", "z", "x", "y"] ∧
      ∃ defined byHand, Listing Setup.base (Journal.moments p.2.2)
        (p.2.1.registries.get Setup.base) .definitionMutator true defined byHand := by
  have hnames : (behaviour.run 3 relisted (Setup.world {})).map (fun p =>
      ((keptNames Setup.base (Journal.moments p.2.2)).map (·.text),
        ((p.2.1.registries.get Setup.base).namesFor .definitionMutator true).map (·.text))) =
      some (["x", "y", "x", "z"], ["d", "z", "x", "y"]) := by
    decide +kernel
  obtain ⟨⟨a, w', j⟩, hrun, hpair⟩ := Option.map_eq_some_iff.1 hnames
  obtain ⟨hkept, hlisted⟩ := Prod.mk.inj hpair
  obtain ⟨hregistry, hlists⟩ :=
    query_lists_in_order behaviour 3 relisted Setup.base none rfl hrun
  have hnow := (hlists (Journal.moments j) [] (List.append_nil _).symm .definitionMutator true).1
  rw [hregistry] at hnow
  exact ⟨(a, w', j), hrun, hkept, hlisted, hnow⟩

end Scenario

end Startup
