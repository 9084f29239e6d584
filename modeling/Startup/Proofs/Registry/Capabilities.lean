import Startup.Proofs.Registry.Definitions
import Startup.Proofs.Registry.Queries

/-!
The two questions about capabilities: which names have one, and whether a name has it. Both look at
the definition of a name first. Besides, the first question lists names whose singleton was put in
by hand, and a name stays on that list for good; the second one asks the singleton, wherever it came
from, if there is no definition.

So the answers differ in two cases. A name that was put in by hand may get a definition that does
not declare what its singleton supports. And a definition may be taken out while its component is
being created, so that the singleton that results has no definition and was not put in by hand.

Main statement: `capability_queries_agree_iff`, that these are the only cases, at any moment of a
run that began with an empty registry.
-/

namespace Startup

variable {H : Host} {σ : Type}

/-! ## Names put in by hand -/

/-- The name under which a finished instance is put in. -/
def Moment.kept? (r : ObjectId) : Moment H → Option ComponentName
  | .fact (.instanceKept r' n _) => if r' = r then some n else none
  | _ => none

theorem Moment.kept?_eq_some {r : ObjectId} {n : ComponentName} {m : Moment H} :
    m.kept? r = some n ↔ ∃ i, m = .fact (.instanceKept r n i) := by
  constructor
  · intro h
    unfold kept? at h
    split at h
    · split at h <;> cases h
      subst_vars
      exact ⟨_, rfl⟩
    · cases h
  · rintro ⟨i, rfl⟩
    exact if_pos rfl

namespace Ledger

variable {r : ObjectId} {l : Ledger H}

theorem Step.manual {m : Moment H} {s : Registry H} (h : l.Step r m s) :
    s.manual = l.registry.manual ++ (m.kept? r).toList := by
  cases h with
  | kept n i hn => simp [Moment.kept?, Registry.keep]
  | resolution =>
    rw [Registry.prepare_eq]
    simp [Moment.kept?]
  | ended =>
    rw [Registry.conclude_eq]
    simp [Moment.kept?, Registry.endCreation]
  | elsewhere hm =>
    cases hk : m.kept? r with
    | none => simp
    | some n =>
      obtain ⟨i, rfl⟩ := Moment.kept?_eq_some.1 hk
      exact absurd rfl hm
  | _ => simp [Moment.kept?, Registry.define, Registry.undefine, Registry.install,
      Registry.clearCache, Registry.beginCreation]

/-- No name is ever taken from the list of those that were put in by hand. -/
theorem Lawful.manual {ms : List (Moment H)} (hlaw : l.Lawful r ms) :
    (l.after r ms).registry.manual = l.registry.manual ++ ms.filterMap (Moment.kept? r) := by
  induction ms generalizing l with
  | nil => simp [after_nil]
  | cons m ms ih =>
    obtain ⟨hm, hrest⟩ := hlaw
    rw [after_cons, ih hrest, (step hm).manual, List.append_assoc, List.filterMap_cons]
    cases m.kept? r <;> rfl

theorem mem_manual_iff {c : Option (Comparator H)} {past : List (Moment H)} {n : ComponentName}
    (hlaw : (start c).Lawful r past) :
    n ∈ ((start c).after r past).registry.manual ↔ ∃ i, .fact (.instanceKept r n i) ∈ past := by
  rw [hlaw.manual, show (start c : Ledger H).registry.manual = [] from rfl, List.nil_append,
    List.mem_filterMap]
  constructor
  · rintro ⟨m, hm, hk⟩
    obtain ⟨i, rfl⟩ := Moment.kept?_eq_some.1 hk
    exact ⟨i, hm⟩
  · rintro ⟨i, hm⟩
    exact ⟨_, hm, Moment.kept?_eq_some.2 ⟨i, rfl⟩⟩

end Ledger

/-! ## Where the answers differ -/

/-- The name was put in by hand at some time, and its definition does not declare what its singleton
supports. -/
structure Shadowed (r : ObjectId) (past : List (Moment H)) (s : Registry H) (n : ComponentName)
    (c : Capability) : Prop where
  kept : ∃ i, .fact (.instanceKept r n i) ∈ past
  supports : s.singletonSupports n c = true
  undeclared : ∃ d, s.definitions.get? n = some d ∧ d.hasCapability c = false

/-- The name was never put in by hand, and its singleton has no definition. -/
structure Unlisted (r : ObjectId) (past : List (Moment H)) (s : Registry H) (n : ComponentName)
    (c : Capability) : Prop where
  made : ∀ i, .fact (.instanceKept r n i) ∉ past
  supports : s.singletonSupports n c = true
  undefined : s.definitions.get? n = none

/-- A singleton without a definition that was not put in by hand comes from a creation in the middle
of which its definition was taken out. -/
theorem Unlisted.revised {r : ObjectId} {past : List (Moment H)} {l : Ledger H}
    {n : ComponentName} {c : Capability} (h : Unlisted r past l.registry n c)
    (hsound : l.Sound r past) :
    ∃ m during since, m.name = n ∧ Ledger.Happened r past m during since ∧
      ¬ Unrevised r n during := by
  obtain ⟨hmade, hsupports, hundefined⟩ := h
  obtain ⟨i, hi⟩ : ∃ i, l.registry.singletons.get? n = some i := by
    refine Option.ne_none_iff_exists'.1 fun hnone => ?_
    rw [Registry.singletonSupports, hnone] at hsupports
    cases hsupports
  obtain hkept | ⟨m, during, since, -, hname, hhappened, hrevised⟩ :=
    hsound.undefined hi hundefined
  · exact absurd hkept (hmade i)
  · exact ⟨m, during, since, hname, hhappened, hrevised⟩

/-- At any moment of a run that began with an empty registry, the two questions about capabilities
have the same answer for a name and a capability unless the name is shadowed or unlisted. It is
unlisted only after its definition was revised in the middle of a creation. So the answers agree for
every name that is not both put in by hand and defined, as long as no definition is revised during
the creation of its component. -/
theorem capability_queries_agree_iff {α : Type} (b : Behaviour H σ) (depth : Nat)
    (x : Program H σ α) (r : ObjectId) (c : Option (Comparator H)) {w w' : World H σ} {a : α}
    {j : Journal H} (hempty : w.registries.get r = { comparator? := c })
    (hrun : b.run depth x w = some (a, w', j)) :
    ((Ledger.start c).after r (Journal.moments j)).registry = w'.registries.get r ∧
    ∀ past future, Journal.moments j = past ++ future →
      let s := ((Ledger.start c).after r past).registry
      ∀ n k,
        ((n ∈ s.namesFor k true ↔ s.isMatch n k = true) ↔
          ¬ Shadowed r past s n k ∧ ¬ Unlisted r past s n k) ∧
        (Unlisted r past s n k → ∃ m during since, m.name = n ∧
          Ledger.Happened r past m during since ∧ ¬ Unrevised r n during) ∧
        ((∀ i, .fact (.instanceKept r n i) ∈ past →
            ∀ d overrides, .fact (.defined r d overrides) ∈ past → d.name ≠ n) →
          (∀ m during since, m.name = n → Ledger.Happened r past m during since →
            Unrevised r n during) →
          (n ∈ s.namesFor k true ↔ s.isMatch n k = true)) := by
  obtain ⟨hlaw, hregistry, -⟩ :=
    Tracks.program b depth x (Ledger.start c) w a w' j hrun (by rw [hempty]; rfl)
  refine ⟨hregistry, fun past future hsplit n k => ?_⟩
  rw [hsplit] at hlaw
  have hpast := (Ledger.lawful_append.1 hlaw).1
  have hsound := (Ledger.sound_start c).after hpast
  have hagree : (n ∈ ((Ledger.start c).after r past).registry.namesFor k true ↔
      ((Ledger.start c).after r past).registry.isMatch n k = true) ↔
        ¬ Shadowed r past ((Ledger.start c).after r past).registry n k ∧
          ¬ Unlisted r past ((Ledger.start c).after r past).registry n k := by
    rw [Registry.queries_agree_iff, Ledger.mem_manual_iff hpast]
    refine and_congr (not_congr ?_) (not_congr ?_)
    · exact ⟨fun ⟨hkept, hsupports, hd⟩ => ⟨hkept, hsupports, hd⟩,
        fun ⟨hkept, hsupports, hd⟩ => ⟨hkept, hsupports, hd⟩⟩
    · exact ⟨fun ⟨hmade, hsupports, hd⟩ => ⟨not_exists.1 hmade, hsupports, hd⟩,
        fun ⟨hmade, hsupports, hd⟩ => ⟨not_exists.2 hmade, hsupports, hd⟩⟩
  refine ⟨hagree, fun h => h.revised hsound, fun hapart hcalm => hagree.2 ⟨?_, ?_⟩⟩
  · rintro ⟨⟨i, hi⟩, -, d, hd, -⟩
    obtain ⟨before, overrides, since, hbefore, hname, -⟩ :=
      ((chronicle_after hpast).latest n d).1 hd
    refine hapart i hi d overrides ?_ hname
    rw [hbefore]
    simp
  · intro h
    obtain ⟨m, during, since, hname, hhappened, hrevised⟩ := h.revised hsound
    exact hrevised (hcalm m during since hname hhappened)

/-! ### Two names whose answers differ, and one whose answers agree -/

namespace Scenario

/-- An object that presents itself as a mutator of definitions. -/
def mutatorInstance : Instance Scripted where
  id := 9
  typeName := "driver::scripted::Min"
  value := .extension "x" 0
  extension? := some
    { id := 9, name := "x", tier := .unordered, views := { definitionMutator := true },
      body := .code .minimal }
  listener? := none

/-- A definition whose factory takes it out and makes a mutator. -/
def selfRemoving : DefinitionSpec :=
  .mk "y" .extension [] .unordered .application .singleton false []
    [.mk {} (.perform .quiet (.remove "y"))] (.minimal "y" { definitionMutator := true })

/-- `x` is put in by hand and then defined; `y` loses its definition while it is created. -/
def disagreeing : Program Scripted Memory Unit := do
  let _ ← Program.request (.registerInstance Setup.base ⟨"x"⟩ mutatorInstance)
  let _ ← Program.request (.register Setup.base (plain "x" []).toDefinition)
  let _ ← Program.request (.register Setup.base selfRemoving.toDefinition)
  let _ ← Program.request (.resolve (.direct Setup.base) ⟨"y"⟩)
  return ()

/-- What both questions answer about a name, and whether it has a definition. -/
def answersOf (s : Registry Scripted) (name : String) : Bool × Bool × Bool :=
  (decide (⟨name⟩ ∈ s.namesFor .definitionMutator true), s.isMatch ⟨name⟩ .definitionMutator,
    s.definitions.contains ⟨name⟩)

/-- `x` is listed and does not match, `y` matches and is not listed. -/
theorem answersOf_disagreeing :
    (behaviour.run 3 disagreeing (Setup.world {})).map (fun p =>
      (answersOf (p.2.1.registries.get Setup.base) "x",
        answersOf (p.2.1.registries.get Setup.base) "y")) =
      some ((true, false, true), (false, true, false)) := by
  decide +kernel

theorem capability_queries_disagree :
    ∃ p, behaviour.run 3 disagreeing (Setup.world {}) = some p ∧
      ¬ (⟨"x"⟩ ∈ (p.2.1.registries.get Setup.base).namesFor .definitionMutator true ↔
        (p.2.1.registries.get Setup.base).isMatch ⟨"x"⟩ .definitionMutator = true) := by
  obtain ⟨⟨a, w', j⟩, hrun, hpair⟩ := Option.map_eq_some_iff.1 answersOf_disagreeing
  refine ⟨(a, w', j), hrun, fun hiff => ?_⟩
  simp only [answersOf, Prod.mk.injEq, decide_eq_true_eq] at hpair
  obtain ⟨⟨hlisted, hunmatched, -⟩, -⟩ := hpair
  rw [hiff.1 hlisted] at hunmatched
  cases hunmatched

/-- The same with a third component, which is what its definition declares and is put in by nobody
but its creation. -/
def declaring : Program Scripted Memory Unit := do
  disagreeing
  let mutator := DefinitionSpec.mk "z" .extension [.definitionMutator] .unordered .application
    .singleton false [] [] (.minimal "z" { definitionMutator := true })
  let _ ← Program.request (.register Setup.base mutator.toDefinition)
  let _ ← Program.request (.resolve (.direct Setup.base) ⟨"z"⟩)
  return ()

theorem answersOf_declaring :
    (behaviour.run 3 declaring (Setup.world {})).map (fun p =>
      (answersOf (p.2.1.registries.get Setup.base) "x",
        answersOf (p.2.1.registries.get Setup.base) "y",
        answersOf (p.2.1.registries.get Setup.base) "z")) =
      some ((true, false, true), (false, true, false), (true, true, true)) := by
  decide +kernel

/-- The first name is shadowed, the second one is unlisted, and the third one is neither. -/
theorem disagreeing_explained :
    ∃ p, behaviour.run 3 declaring (Setup.world {}) = some p ∧
      Shadowed Setup.base (Journal.moments p.2.2) (p.2.1.registries.get Setup.base) ⟨"x"⟩
        .definitionMutator ∧
      Unlisted Setup.base (Journal.moments p.2.2) (p.2.1.registries.get Setup.base) ⟨"y"⟩
        .definitionMutator ∧
      (p.2.1.registries.get Setup.base).isMatch ⟨"z"⟩ .definitionMutator = true ∧
      ¬ Shadowed Setup.base (Journal.moments p.2.2) (p.2.1.registries.get Setup.base) ⟨"z"⟩
        .definitionMutator ∧
      ¬ Unlisted Setup.base (Journal.moments p.2.2) (p.2.1.registries.get Setup.base) ⟨"z"⟩
        .definitionMutator := by
  obtain ⟨⟨a, w', j⟩, hrun, hall⟩ := Option.map_eq_some_iff.1 answersOf_declaring
  obtain ⟨hregistry, hagree⟩ :=
    capability_queries_agree_iff behaviour 3 declaring Setup.base none rfl hrun
  have hnow := hagree (Journal.moments j) [] (List.append_nil _).symm
  simp only [hregistry] at hnow
  simp only [answersOf, Prod.mk.injEq, decide_eq_true_eq, decide_eq_false_iff_not] at hall
  obtain ⟨⟨hlisted, hunmatched, hdefined⟩, ⟨hunlisted, hmatched, hundefined⟩, hboth⟩ := hall
  refine ⟨(a, w', j), hrun, ?_, ?_, hboth.2.1, ?_⟩
  · by_contra hshadowed
    have hiff := (hnow ⟨"x"⟩ .definitionMutator).1.2 ⟨hshadowed, fun h => ?_⟩
    · rw [hiff.1 hlisted] at hunmatched
      cases hunmatched
    · rw [OrderedMap.contains, h.undefined] at hdefined
      cases hdefined
  · by_contra hlisting
    have hiff := (hnow ⟨"y"⟩ .definitionMutator).1.2 ⟨fun h => ?_, hlisting⟩
    · exact hunlisted (hiff.2 hmatched)
    · obtain ⟨d, hd, -⟩ := h.undeclared
      rw [OrderedMap.contains, hd] at hundefined
      cases hundefined
  · exact (hnow ⟨"z"⟩ .definitionMutator).1.1 ⟨fun _ => hboth.2.1, fun _ => hboth.1⟩

end Scenario

end Startup
