import Startup.Proofs.Registry.Capabilities
import Startup.Proofs.Registry.Coherent

/-!
A definition that is registered and taken out again. To take a definition out drops the singleton
of its name, whether or not it was made from that definition. A name without a definition has a
singleton if one was put in by hand, or if its definition was taken out while its component was
being created. Such a singleton is lost.

Main statement: `restored_iff`, that the two operations leave the world as it was just when the name
had no singleton, and otherwise change nothing but that it is gone.
-/

namespace Startup

variable {H : Host} {σ : Type}

/-! ## The two operations -/

/-- Register a definition and take it out again. -/
def Registry.registerAndRemove (r : ObjectId) (d : Definition H) :
    Attempt H σ DependencyError (Definition H) := do
  Attempt.of (Registry.register r d)
  Attempt.of (Registry.remove r d.name)

namespace Registry

variable {s : Registry H} {n : ComponentName} {d : Definition H}

/-- The registry without the singleton of a name. -/
def forget (s : Registry H) (n : ComponentName) : Registry H :=
  { s with singletons := s.singletons.erase n }

theorem get?_forget (m : ComponentName) :
    (s.forget n).singletons.get? m = if n = m then none else s.singletons.get? m :=
  OrderedMap.get?_erase ..

theorem forget_eq_self_iff : s.forget n = s ↔ s.singletons.get? n = none := by
  constructor
  · intro h
    have hnone := s.get?_forget (n := n) n
    rw [h, if_pos rfl] at hnone
    exact hnone
  · intro h
    rw [forget, OrderedMap.erase_of_none h]

theorem singletonSupports_forget (m : ComponentName) (c : Capability) :
    (s.forget n).singletonSupports m c = (decide (m ≠ n) && s.singletonSupports m c) := by
  rw [singletonSupports, get?_forget]
  by_cases h : n = m
  · simp [h]
  · simp [h, Ne.symm h, singletonSupports]

/-- What a name without a definition has at all is its singleton. -/
theorem isMatch_forget (hn : s.definitions.get? n = none) (m : ComponentName) (c : Capability) :
    (s.forget n).isMatch m c = (decide (m ≠ n) && s.isMatch m c) := by
  have hdefinitions : (s.forget n).definitions = s.definitions := rfl
  rw [isMatch, isMatch, hdefinitions, singletonSupports_forget]
  cases hd : s.definitions.get? m with
  | none => rfl
  | some d =>
    have hne : m ≠ n := by
      rintro rfl
      rw [hn] at hd
      cases hd
    simp [hne]

theorem appendNew_filter {keep : ComponentName → Bool} (p : ComponentName → Bool)
    (acc l : List ComponentName) :
    appendNew (fun m => p m && keep m) (acc.filter p) l = (appendNew keep acc l).filter p := by
  induction l generalizing acc with
  | nil => rfl
  | cons m rest ih =>
    rw [appendNew, appendNew, ← ih]
    congr 1
    by_cases hp : p m = true <;> by_cases hk : keep m = true <;> by_cases hm : m ∈ acc <;>
      simp [hp, hk, hm]

/-- A query no longer lists the name, and lists all others in the same order. -/
theorem namesFor_forget (hn : s.definitions.get? n = none) (c : Capability) (all : Bool) :
    (s.forget n).namesFor c all = (s.namesFor c all).filter fun m => decide (m ≠ n) := by
  have hundefined : (s.definedNamesFor c all).filter (fun m => decide (m ≠ n)) =
      s.definedNamesFor c all := by
    apply List.filter_eq_self.2
    intro m hm
    obtain ⟨d, hd, -⟩ := mem_definedNamesFor_iff.1 hm
    have hne : m ≠ n := by
      rintro rfl
      rw [hn] at hd
      cases hd
    simpa using hne
  have hsupports : ((s.forget n).singletonSupports · c) =
      fun m => decide (m ≠ n) && s.singletonSupports m c :=
    funext fun m => singletonSupports_forget m c
  show appendNew _ (s.definedNamesFor c all) s.manual = _
  rw [hsupports, namesFor, ← appendNew_filter, hundefined]

/-- A new definition and its removal cancel out, but for the singleton. -/
theorem undefine_define (hs : s.Coherent) (hd : s.definitions.get? d.name = none) :
    (s.define d).undefine d.name = s.forget d.name := by
  have hmerged : s.merged.get? d.name = none := by
    refine Option.eq_none_iff_forall_ne_some.2 fun d' hd' => ?_
    rw [hs d.name d' hd'] at hd
    cases hd
  have hnew : s.definitions.contains d.name = false := by
    rw [OrderedMap.contains, hd]
    rfl
  simp only [undefine, define, forget, hnew, Bool.false_eq_true, if_false,
    OrderedMap.erase_insert, OrderedMap.erase_of_none hd, OrderedMap.erase_of_none hmerged]

theorem registerAndRemove_run {r : ObjectId} {w : World H σ} (hblank : d.name.isBlank = false)
    (hs : (w.registries.get r).Coherent)
    (hd : (w.registries.get r).definitions.get? d.name = none) :
    (registerAndRemove r d).run w =
      some (.ok d, w.setRegistry r ((w.registries.get r).forget d.name),
        [.fact (.defined r d false), .fact (.removed r d.name)]) := by
  have hregister : Registry.register r d w =
      some (.ok (), w.setRegistry r ((w.registries.get r).define d),
        [.fact (.defined r d false)]) := by
    rw [register_run, hblank, OrderedMap.contains, hd]
    rfl
  have hdefined : ((w.setRegistry r ((w.registries.get r).define d)).registries.get r) =
      (w.registries.get r).define d := by
    rw [World.get_setRegistry_self]
  have hfound : ((w.registries.get r).define d).definitions.get? d.name = some d := by
    simp [define, OrderedMap.get?_insert]
  rw [registerAndRemove, Attempt.run_bind, Attempt.run_of, Run.bind_def, Run.bind, hregister]
  simp only [Option.bind_some, Attempt.run_of, remove_run, hdefined, hfound, Option.map_some,
    World.setRegistry_setRegistry, undefine_define hs hd, List.singleton_append]

end Registry

/-! ## What is lost -/

/-- Between two worlds the instance `i` is lost that had the name `n`. In the first one it is what a
resolution of the name answers, and keeps others from being put in. In the second one nothing is
known of the name, and any instance may be put in. -/
structure Lost (call : Call H σ) (r : ObjectId) (n : ComponentName) (i : Instance H)
    (w w' : World H σ) : Prop where
  answered : ((View.direct r).resolve call n).run w =
    some (.ok i, w, [.scope (.resolution (.direct r) n (.ok i)) []])
  unknown : ((View.direct r).resolve call n).run w' =
    some (.error (.notRegistered n.text), w',
      [.scope (.resolution (.direct r) n (.error (.notRegistered n.text))) []])
  refused (k : Instance H) : ∃ e, Registry.registerInstance r n k w = some (.error e, w, [])
  accepted (k : Instance H) : ∃ w'' j, Registry.registerInstance r n k w' = some (.ok (), w'', j)

theorem Lost.of_forget {r : ObjectId} {n : ComponentName} {i : Instance H} {w w' : World H σ}
    (call : Call H σ) (hs : (w.registries.get r).Coherent)
    (hn : (w.registries.get r).definitions.get? n = none)
    (hi : (w.registries.get r).singletons.get? n = some i)
    (hw' : w'.registries.get r = (w.registries.get r).forget n) : Lost call r n i w w' := by
  have hnone : (w'.registries.get r).singletons.get? n = none := by
    rw [hw', Registry.get?_forget, if_pos rfl]
  have hcoherent : (w'.registries.get r).Coherent := by
    rw [hw']
    exact hs
  have hundefined : (w'.registries.get r).definitions.get? n = none := by
    rw [hw']
    exact hn
  constructor
  · exact View.resolve_cached call hi
  · exact View.resolve_unknown call hnone ((hcoherent.lookup n).trans hundefined)
  · intro k
    rw [Registry.registerInstance_run, OrderedMap.contains, hi]
    exact ⟨_, rfl⟩
  · intro k
    rw [Registry.registerInstance_run, OrderedMap.contains, hnone]
    exact ⟨_, _, rfl⟩

/-- At any moment of a run that began with an empty registry, let a name have no definition. To
register a definition of the name and to take it out again succeeds, hands the definition back and
leaves the world as it was, if and only if there is no singleton of the name; else it leaves the
registry without that singleton. Such a singleton was put in by hand, or comes from a creation in
the middle of which its definition was revised; it is lost, and so is the name in the answers to
questions about capabilities, which for all other names are the same. -/
theorem restored_iff {α : Type} (b : Behaviour H σ) (depth : Nat) (x : Program H σ α)
    (r : ObjectId) (c : Option (Comparator H)) {w w' : World H σ} {a : α} {j : Journal H}
    (hempty : w.registries.get r = { comparator? := c })
    (hrun : b.run depth x w = some (a, w', j)) :
    ∀ past future, Journal.moments j = past ++ future →
      let s := ((Ledger.start c).after r past).registry
      ∀ (d : Definition H) (now : World H σ), d.name.isBlank = false →
        s.definitions.get? d.name = none → Assoc.find? r now.registries.entries = some s →
        let after := now.setRegistry r (s.forget d.name)
        (Registry.registerAndRemove r d).run now =
            some (.ok d, after, [.fact (.defined r d false), .fact (.removed r d.name)]) ∧
          (after = now ↔ s.singletons.get? d.name = none) ∧
          ∀ i, s.singletons.get? d.name = some i →
            Lost (b.call depth) r d.name i now after ∧
            (.fact (.instanceKept r d.name i) ∈ past ∨
              ∃ m during since, m.result = .ok i ∧ m.name = d.name ∧
                Ledger.Happened r past m during since ∧ ¬ Unrevised r d.name during) ∧
            (∀ k all, (s.forget d.name).namesFor k all =
              (s.namesFor k all).filter fun n => decide (n ≠ d.name)) ∧
            ∀ n k, (s.forget d.name).isMatch n k = (decide (n ≠ d.name) && s.isMatch n k) := by
  intro past future hsplit s d now hblank hundefined hnow after
  obtain ⟨hlaw, -, -⟩ :=
    Tracks.program b depth x (Ledger.start c) w a w' j hrun (by rw [hempty]; rfl)
  rw [hsplit] at hlaw
  have hsound : ((Ledger.start c).after r past).Sound r past :=
    (Ledger.sound_start c).after (Ledger.lawful_append.1 hlaw).1
  have hcoherent : s.Coherent := hsound.merged
  have hget : now.registries.get r = s := by rw [Table.get, hnow, Option.getD_some]
  have hboth := Registry.registerAndRemove_run (w := now) hblank (hget ▸ hcoherent)
    (hget ▸ hundefined)
  rw [hget] at hboth
  refine ⟨hboth, ?_, fun i hi => ⟨?_, hsound.undefined hi hundefined, ?_, ?_⟩⟩
  · rw [World.setRegistry_eq_self_iff hnow, Registry.forget_eq_self_iff]
  · apply Lost.of_forget (b.call depth) <;> rw [hget]
    · exact hcoherent
    · exact hundefined
    · exact hi
    · rw [World.get_setRegistry_self]
  · exact fun k all => Registry.namesFor_forget hundefined k all
  · exact fun n k => Registry.isMatch_forget hundefined n k

/-! ### An instance that is lost -/

namespace Scenario

/-- An instance is put in by hand. -/
def handmade : Program Scripted Memory (Except Failure Answer) :=
  (Act.perform (.direct Setup.base) (.registerInstance "x" (.made (.plain "x")))).run

/-- Afterwards the registry holds nothing but this instance. -/
theorem handmade_report :
    (behaviour.run 3 handmade (Setup.world {})).map (fun p =>
      ((p.2.1.registries.get Setup.base).singletons.keys.map (·.text),
        (p.2.1.registries.get Setup.base).definitions.keys,
        (p.2.1.registries.get Setup.base).merged.keys,
        (p.2.1.registries.get Setup.base).inCreation,
        (Assoc.find? Setup.base p.2.1.registries.entries).isSome)) =
      some (["x"], [], [], [], true) := by
  decide +kernel

/-- The registry in which the instance was put, as it is at the end of the run. -/
theorem handmade_registry : ∃ p i, behaviour.run 3 handmade (Setup.world {}) = some p ∧
    Assoc.find? Setup.base p.2.1.registries.entries = some (p.2.1.registries.get Setup.base) ∧
    (p.2.1.registries.get Setup.base).Coherent ∧
    (∀ n, (p.2.1.registries.get Setup.base).definitions.get? n = none) ∧
    (p.2.1.registries.get Setup.base).inCreation = [] ∧
    (p.2.1.registries.get Setup.base).singletons.get? ⟨"x"⟩ = some i := by
  obtain ⟨⟨a, w, j⟩, hrun, hreport⟩ := Option.map_eq_some_iff.1 handmade_report
  simp only [Prod.mk.injEq] at hreport
  obtain ⟨hsingletons, hdefinitions, hmerged, hcreation, hentry⟩ := hreport
  have hnone {ν : Type} {m : OrderedMap ComponentName ν} (hm : m.keys = [])
      (n : ComponentName) : m.get? n = none := by
    have hn : ¬ n ∈ m.keys := by simp [hm]
    rw [OrderedMap.mem_keys_iff] at hn
    simpa using hn
  have hx : ⟨"x"⟩ ∈ (w.registries.get Setup.base).singletons.keys := by
    obtain ⟨n, hn, hname⟩ := List.mem_map.1
      (show "x" ∈ (w.registries.get Setup.base).singletons.keys.map (·.text) by
        rw [hsingletons]
        exact List.mem_singleton_self _)
    cases n
    cases hname
    exact hn
  obtain ⟨i, hi⟩ := Option.isSome_iff_exists.1 ((OrderedMap.mem_keys_iff _ _).1 hx)
  obtain ⟨s, hs⟩ := Option.isSome_iff_exists.1 hentry
  refine ⟨(a, w, j), i, hrun, ?_, ?_, hnone hdefinitions, hcreation, hi⟩
  · rw [Table.get, hs, Option.getD_some]
  · intro n d hd
    rw [hnone hmerged n] at hd
    cases hd

/-- A definition of the name is registered and taken out again, and the instance is gone: the name
is known before the two operations, and unknown after them. -/
theorem register_and_remove_loses : ∃ p i after j, ∃ d : Definition Scripted,
    behaviour.run 3 handmade (Setup.world {}) = some p ∧ d.name = ⟨"x"⟩ ∧
    (p.2.1.registries.get Setup.base).definitions.get? ⟨"x"⟩ = none ∧
    (p.2.1.registries.get Setup.base).inCreation = [] ∧
    (Registry.registerAndRemove Setup.base d).run p.2.1 = some (.ok d, after, j) ∧
    (∃ k, ((View.direct Setup.base).resolve (behaviour.call 3) ⟨"x"⟩).run p.2.1 =
      some (.ok i, p.2.1, k)) ∧
    ∃ k, ((View.direct Setup.base).resolve (behaviour.call 3) ⟨"x"⟩).run after =
      some (.error (.notRegistered "x"), after, k) := by
  obtain ⟨p, i, hrun, -, hcoherent, hundefined, hcreation, hi⟩ := handmade_registry
  have hboth := Registry.registerAndRemove_run (d := (plain "x" []).toDefinition) (by decide)
    hcoherent (hundefined _)
  have hafter : (p.2.1.setRegistry Setup.base
      ((p.2.1.registries.get Setup.base).forget ⟨"x"⟩)).registries.get Setup.base =
        (p.2.1.registries.get Setup.base).forget ⟨"x"⟩ := by
    rw [World.get_setRegistry_self]
  have hlost := Lost.of_forget (behaviour.call 3) hcoherent (hundefined ⟨"x"⟩) hi hafter
  exact ⟨p, i, _, _, _, hrun, rfl, hundefined _, hcreation, hboth, ⟨_, hlost.answered⟩,
    _, hlost.unknown⟩

/-- The instance that is lost was put in by hand: there is no creation that it could come from. -/
theorem handmade_lost : ∃ p i after, behaviour.run 3 handmade (Setup.world {}) = some p ∧
    Lost (behaviour.call 3) Setup.base ⟨"x"⟩ i p.2.1 after ∧ after ≠ p.2.1 ∧
    (.fact (.instanceKept Setup.base ⟨"x"⟩ i) ∈ Journal.moments p.2.2 ∨
      ∃ m during since, m.result = .ok i ∧ m.name = ⟨"x"⟩ ∧
        Ledger.Happened Setup.base (Journal.moments p.2.2) m during since ∧
        ¬ Unrevised Setup.base ⟨"x"⟩ during) := by
  obtain ⟨⟨a, w, j⟩, i, hrun, hentry, -, hundefined, -, hi⟩ := handmade_registry
  have hstart : (Ledger.start none : Ledger Scripted).registry =
      (Setup.world {}).registries.get Setup.base := rfl
  obtain ⟨-, hregistry, -⟩ :=
    Tracks.program behaviour 3 handmade (Ledger.start none) (Setup.world {}) _ w j hrun hstart
  obtain ⟨-, hsame, hlost⟩ := restored_iff behaviour 3 handmade Setup.base none rfl hrun
    (Journal.moments j) [] (List.append_nil _).symm (plain "x" []).toDefinition w (by decide)
    (by rw [hregistry]; exact hundefined _) (by rw [hregistry]; exact hentry)
  rw [hregistry] at hsame hlost
  obtain ⟨hwithout, hcause, -⟩ := hlost i hi
  refine ⟨(a, w, j), i, _, hrun, hwithout, fun heq => ?_, hcause⟩
  have hnone := hsame.1 heq
  rw [show (plain "x" []).toDefinition.name = (⟨"x"⟩ : ComponentName) from rfl, hi] at hnone
  cases hnone

end Scenario

end Startup
