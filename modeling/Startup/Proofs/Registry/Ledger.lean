import Mathlib.Logic.Function.Basic
import Startup.Proofs.Closed

/-!
The history of a registry. A journal, read in the order of time, is a sequence of moments. What a
reader of the moments so far knows of one registry is a `Ledger`: its state, the creations that
are under way, and where the cached singletons came from.

Main statements: `Ledger.step`, that a moment which may come makes one of a few changes, and
`Tracks.program`. The moments that a program leaves are lawful, and they lead from the registry
before the program to the registry after it. So the ledger of the first moments of a journal is the
state of the registry in the middle of a run, in whatever callback that is.
-/

namespace Startup

variable {H : Host} {σ : Type}

/-! ## Moments -/

/-- A fact, or the beginning or the end of an activity. -/
inductive Moment (H : Host) where
  | fact (f : Fact H)
  | opens (s : Scope H)
  | closes (s : Scope H)

mutual

def Event.moments : Event H → List (Moment H)
  | .fact f => [.fact f]
  | .scope s body => .opens s :: (Journal.moments body ++ [.closes s])

/-- The moments of a journal, in the order of time. -/
def Journal.moments : List (Event H) → List (Moment H)
  | [] => []
  | e :: rest => e.moments ++ Journal.moments rest

end

theorem Journal.moments_append (j k : Journal H) :
    Journal.moments (j ++ k) = Journal.moments j ++ Journal.moments k := by
  induction j with
  | nil => rfl
  | cons e rest ih =>
    simp only [List.cons_append, Journal.moments, List.append_assoc]
    rw [ih]

theorem Journal.moments_fact (f : Fact H) : Journal.moments [.fact f] = [.fact f] := rfl

theorem Journal.moments_scope (s : Scope H) (j : Journal H) :
    Journal.moments [.scope s j] = .opens s :: (Journal.moments j ++ [.closes s]) := by
  simp [Journal.moments, Event.moments]

/-- What is read off the moments of an activity is read off those inside of it, if its beginning and
its end say nothing. -/
theorem Journal.filterMap_moments_scope {α : Type} {f : Moment H → Option α} {s : Scope H}
    (hopens : f (.opens s) = none) (hcloses : f (.closes s) = none) (j : Journal H) :
    (Journal.moments [.scope s j]).filterMap f = (Journal.moments j).filterMap f := by
  rw [moments_scope, List.filterMap_cons_none hopens, List.filterMap_append,
    List.filterMap_cons_none hcloses, List.filterMap_nil, List.append_nil]

/-- Registry `r` is not concerned. -/
def Moment.IsElsewhere (r : ObjectId) : Moment H → Prop
  | .fact (.defined r' ..) | .fact (.removed r' _) | .fact (.instanceKept r' ..)
  | .fact (.installed r' ..) | .fact (.cacheCleared r' _) => r' ≠ r
  | .opens (.resolution v ..) => v.registry ≠ r
  | .opens (.creation r' ..) | .closes (.creation r' ..) => r' ≠ r
  | _ => True

/-! ## Ledgers -/

/-- A creation, as the journal tells of it. -/
structure Making (H : Host) where
  name : ComponentName
  definition : Definition H
  outer : List ComponentName
  chain : List (Extension H)
  result : Except DependencyError (Instance H)

/-- The entry of a creation. -/
def Making.scope (r : ObjectId) (m : Making H) : Scope H :=
  .creation r m.name m.definition m.outer m.chain m.result

/-- Where a singleton came from. -/
inductive Origin (H : Host) where
  /-- Put in as a finished instance. -/
  | byHand (i : Instance H)
  | made (m : Making H)

structure Ledger (H : Host) where
  registry : Registry H
  /-- The creations under way, innermost first. -/
  creations : List (Making H) := []
  /-- The origin of the singleton that a name got last. -/
  origin : ComponentName → Option (Origin H) := fun _ => none

/-- The ledger of a registry whose past does not matter. -/
def Ledger.of (s : Registry H) : Ledger H := { registry := s }

namespace Registry

variable {s : Registry H} {n : ComponentName}

/-- Look a name up for creation, unless there is a singleton. -/
def prepare (s : Registry H) (n : ComponentName) : Registry H :=
  if s.singletons.contains n then s else (s.lookup n).2

theorem prepare_of_some {i : Instance H} (h : s.singletons.get? n = some i) : s.prepare n = s :=
  if_pos (OrderedMap.contains_of_some h)

theorem prepare_of_none (h : s.singletons.get? n = none) : s.prepare n = (s.lookup n).2 :=
  if_neg (by rw [OrderedMap.contains, h]; simp)

theorem lookup_of_none (h : (s.lookup n).1 = none) : (s.lookup n).2 = s := by
  unfold lookup at h ⊢
  split <;> rename_i hm
  · simp [hm] at h
  · split <;> rename_i hd
    · simp [hm, hd] at h
    · rfl

/-- To look a name up changes nothing but what is remembered. -/
theorem lookup_eq : (s.lookup n).2 = { s with merged := (s.lookup n).2.merged } := by
  unfold lookup
  split
  · rfl
  · split <;> rfl

theorem singletons_lookup : (s.lookup n).2.singletons = s.singletons := by
  rw [lookup_eq]

theorem inCreation_lookup : (s.lookup n).2.inCreation = s.inCreation := by
  rw [lookup_eq]

theorem interceptors_lookup : (s.lookup n).2.interceptors = s.interceptors := by
  rw [lookup_eq]

theorem prepare_eq : s.prepare n = { s with merged := (s.prepare n).merged } := by
  unfold prepare
  split
  · rfl
  · exact lookup_eq

theorem definitions_prepare : (s.prepare n).definitions = s.definitions := by
  rw [prepare_eq]

theorem singletons_prepare : (s.prepare n).singletons = s.singletons := by
  rw [prepare_eq]

theorem inCreation_prepare : (s.prepare n).inCreation = s.inCreation := by
  rw [prepare_eq]

theorem interceptors_prepare : (s.prepare n).interceptors = s.interceptors := by
  rw [prepare_eq]

/-- The end of a creation takes the name from the stack and changes nothing but the singletons
besides. -/
theorem conclude_eq (d : Definition H) (a : Except DependencyError (Instance H)) :
    (s.conclude n d a).2 =
      { s.endCreation n with singletons := (s.conclude n d a).2.singletons } := by
  cases a with
  | error e => rfl
  | ok i =>
    simp only [conclude]
    split
    · unfold settle
      split <;> rfl
    · rfl

theorem definitions_conclude (d : Definition H) (a : Except DependencyError (Instance H)) :
    (s.conclude n d a).2.definitions = s.definitions := by
  rw [conclude_eq]
  rfl

theorem interceptors_conclude (d : Definition H) (a : Except DependencyError (Instance H)) :
    (s.conclude n d a).2.interceptors = s.interceptors := by
  rw [conclude_eq]
  rfl

/-- To drop a new name from the end of a list leaves the list. -/
theorem filter_snoc {names : List ComponentName} (hn : n ∉ names) :
    (names ++ [n]).filter (fun m => !decide (m = n)) = names := by
  rw [List.filter_append, List.filter_eq_self.2]
  · simp
  · intro m hm
    have hne : m ≠ n := fun heq => hn (heq ▸ hm)
    simpa using hne

theorem inCreation_conclude (d : Definition H) (a : Except DependencyError (Instance H)) :
    (s.conclude n d a).2.inCreation = s.inCreation.filter (fun m => !decide (m = n)) := by
  rw [conclude_eq]
  rfl

/-- The answer is an error just when the creation failed with it. -/
theorem conclude_eq_error {d : Definition H} {a : Except DependencyError (Instance H)}
    {e : DependencyError} : (s.conclude n d a).1 = .error e ↔ a = .error e := by
  cases a with
  | error e' => rfl
  | ok i =>
    simp only [conclude]
    split <;> simp

/-- What is registered is found. -/
theorem lookup_ne_none {d : Definition H} (hd : s.definitions.get? n = some d) :
    (s.lookup n).1 ≠ none := by
  unfold lookup
  split
  · simp
  · simp [hd]

/-- A definition that was looked up is remembered. -/
theorem merged_lookup {d : Definition H} (h : (s.lookup n).1 = some d) :
    (s.lookup n).2.merged.get? n = some d := by
  unfold lookup at h ⊢
  split <;> rename_i hm
  · simpa [hm] using h
  · split <;> rename_i hd
    · simpa [hm, hd, OrderedMap.get?_insert] using h
    · simp [hm, hd] at h

end Registry

namespace Ledger

/-- A creation begins. -/
def begin (l : Ledger H) (m : Making H) : Ledger H :=
  { l with registry := l.registry.beginCreation m.name, creations := m :: l.creations }

/-- The innermost creation ends. What it made is kept if it is a singleton and the first one. -/
def finish (l : Ledger H) : Ledger H :=
  match l.creations with
  | [] => l
  | m :: rest =>
    { registry := (l.registry.conclude m.name m.definition m.result).2
      creations := rest
      origin :=
        if m.result.isOk && m.definition.isSingleton &&
            !l.registry.singletons.contains m.name then
          Function.update l.origin m.name (some (.made m))
        else l.origin }

/-- The ledger of registry `r` one moment later. -/
def next (r : ObjectId) (l : Ledger H) : Moment H → Ledger H
  | .fact (.defined r' d _) =>
    if r' = r then { l with registry := l.registry.define d } else l
  | .fact (.removed r' n) =>
    if r' = r then { l with registry := l.registry.undefine n } else l
  | .fact (.instanceKept r' n i) =>
    if r' = r then
      { l with
        registry := l.registry.keep n i
        origin := Function.update l.origin n (some (.byHand i)) }
    else l
  | .fact (.installed r' e _) =>
    if r' = r then { l with registry := l.registry.install e } else l
  | .fact (.cacheCleared r' _) =>
    if r' = r then { l with registry := l.registry.clearCache } else l
  | .opens (.resolution v n _) =>
    if v.registry = r then { l with registry := l.registry.prepare n } else l
  | .opens (.creation r' n d outer chain result) =>
    if r' = r then l.begin ⟨n, d, outer, chain, result⟩ else l
  | .closes (.creation r' ..) => if r' = r then l.finish else l
  | _ => l

/-- The ledger after some moments. -/
def after (r : ObjectId) (l : Ledger H) (ms : List (Moment H)) : Ledger H := ms.foldl (next r) l

/-- What the library makes sure of before a moment comes. -/
def Allows (r : ObjectId) (l : Ledger H) : Moment H → Prop
  | .fact (.defined r' d overrides) => r' = r →
    d.name.isBlank = false ∧ overrides = l.registry.definitions.contains d.name
  | .fact (.removed r' n) => r' = r → l.registry.definitions.contains n = true
  | .fact (.instanceKept r' n _) => r' = r → l.registry.singletons.contains n = false
  | .fact (.installed r' e _) => r' = r → e.views.interceptor = true
  | .opens (.resolution v n result) => v.registry = r →
    ∀ i, l.registry.singletons.get? n = some i → result = .ok i
  | .opens (.creation r' n d outer chain _) => r' = r →
    l.registry.merged.get? n = some d ∧ l.registry.singletons.get? n = none ∧
      n ∉ l.registry.inCreation ∧ outer = l.registry.inCreation ∧
      chain = l.registry.interceptors
  | .closes (.creation r' n d outer chain result) => r' = r →
    ∃ rest, l.creations = ⟨n, d, outer, chain, result⟩ :: rest
  | _ => True

/-- Each moment comes when it may. -/
def Lawful (r : ObjectId) : Ledger H → List (Moment H) → Prop
  | _, [] => True
  | l, m :: ms => l.Allows r m ∧ (l.next r m).Lawful r ms

variable {r : ObjectId} {l : Ledger H}

theorem after_nil : l.after r [] = l := rfl

theorem after_cons (m : Moment H) (ms : List (Moment H)) :
    l.after r (m :: ms) = (l.next r m).after r ms := rfl

theorem after_single (m : Moment H) : l.after r [m] = l.next r m := rfl

theorem after_append (ms ms' : List (Moment H)) :
    l.after r (ms ++ ms') = (l.after r ms).after r ms' := List.foldl_append

theorem lawful_append {ms ms' : List (Moment H)} :
    l.Lawful r (ms ++ ms') ↔ l.Lawful r ms ∧ (l.after r ms).Lawful r ms' := by
  induction ms generalizing l with
  | nil => simp [Lawful, after]
  | cons m ms ih =>
    rw [List.cons_append, Lawful, Lawful, ih, and_assoc]
    rfl

theorem next_opens {s : Scope H} (hs : s.IsAside) : l.next r (.opens s) = l := by
  cases s <;> first | rfl | exact hs.elim

theorem next_closes {s : Scope H} (hs : s.IsAside) : l.next r (.closes s) = l := by
  cases s <;> first | rfl | exact hs.elim

theorem allows_opens {s : Scope H} (hs : s.IsAside) : l.Allows r (.opens s) := by
  cases s <;> trivial

theorem allows_closes {s : Scope H} (hs : s.IsAside) : l.Allows r (.closes s) := by
  cases s <;> trivial

/-- What a moment does to the registry, one case for each kind of change. -/
inductive Step (r : ObjectId) (l : Ledger H) : Moment H → Registry H → Prop
  | defined (d : Definition H) (hname : d.name.isBlank = false) :
      Step r l (.fact (.defined r d (l.registry.definitions.contains d.name)))
        (l.registry.define d)
  | removed (n : ComponentName) (hn : l.registry.definitions.contains n = true) :
      Step r l (.fact (.removed r n)) (l.registry.undefine n)
  | kept (n : ComponentName) (i : Instance H) (hn : l.registry.singletons.get? n = none) :
      Step r l (.fact (.instanceKept r n i)) (l.registry.keep n i)
  | installed (e : Extension H) (position : Nat) (he : e.views.interceptor = true) :
      Step r l (.fact (.installed r e position)) (l.registry.install e)
  | cleared (entries : Nat) : Step r l (.fact (.cacheCleared r entries)) l.registry.clearCache
  | resolution (v : View) (n : ComponentName) (a : Except DependencyError (Instance H))
      (hv : v.registry = r) : Step r l (.opens (.resolution v n a)) (l.registry.prepare n)
  | begun (n : ComponentName) (d : Definition H) (result : Except DependencyError (Instance H))
      (hd : l.registry.merged.get? n = some d) (hnone : l.registry.singletons.get? n = none)
      (hn : n ∉ l.registry.inCreation) :
      Step r l (.opens (.creation r n d l.registry.inCreation l.registry.interceptors result))
        (l.registry.beginCreation n)
  | ended (n : ComponentName) (d : Definition H) (outer : List ComponentName)
      (chain : List (Extension H)) (result : Except DependencyError (Instance H)) :
      Step r l (.closes (.creation r n d outer chain result)) (l.registry.conclude n d result).2
  | elsewhere {m : Moment H} (hm : m.IsElsewhere r) : Step r l m l.registry

/-- Every moment that may come is one of these changes. -/
theorem step {m : Moment H} (hm : l.Allows r m) : l.Step r m (l.next r m).registry := by
  cases m with
  | fact f =>
    cases f with
    | defined r' d overrides =>
      by_cases hr : r' = r
      · obtain ⟨hname, rfl⟩ := hm hr
        subst hr
        simpa only [next, if_true] using .defined d hname
      · simpa only [next, if_neg hr] using .elsewhere hr
    | removed r' n =>
      by_cases hr : r' = r
      · have hn := hm hr
        subst hr
        simpa only [next, if_true] using .removed n hn
      · simpa only [next, if_neg hr] using .elsewhere hr
    | instanceKept r' n i =>
      by_cases hr : r' = r
      · have hn := hm hr
        subst hr
        simpa only [next, if_true] using .kept n i (by simpa [OrderedMap.contains] using hn)
      · simpa only [next, if_neg hr] using .elsewhere hr
    | installed r' e position =>
      by_cases hr : r' = r
      · have he := hm hr
        subst hr
        simpa only [next, if_true] using .installed e position he
      · simpa only [next, if_neg hr] using .elsewhere hr
    | cacheCleared r' entries =>
      by_cases hr : r' = r
      · subst hr
        simpa only [next, if_true] using .cleared entries
      · simpa only [next, if_neg hr] using .elsewhere hr
    | _ => exact .elsewhere trivial
  | opens s =>
    cases s with
    | resolution v n a =>
      by_cases hv : v.registry = r
      · simpa only [next, if_pos hv] using .resolution v n a hv
      · simpa only [next, if_neg hv] using .elsewhere hv
    | creation r' n d outer chain result =>
      by_cases hr : r' = r
      · obtain ⟨hd, hnone, hn, rfl, rfl⟩ := hm hr
        subst hr
        simpa only [next, if_true] using .begun n d result hd hnone hn
      · simpa only [next, if_neg hr] using .elsewhere hr
    | _ => exact .elsewhere trivial
  | closes s =>
    cases s with
    | creation r' n d outer chain result =>
      by_cases hr : r' = r
      · obtain ⟨rest, hrest⟩ := hm hr
        subst hr
        simpa only [next, if_true, finish, hrest] using .ended n d outer chain result
      · simpa only [next, if_neg hr] using .elsewhere hr
    | _ => exact .elsewhere trivial

theorem next_fact {f : Fact H} (hf : f.IsAside) : l.next r (.fact f) = l := by
  cases f <;> first | rfl | exact hf.elim

theorem allows_fact {f : Fact H} (hf : f.IsAside) : l.Allows r (.fact f) := by
  cases f <;> trivial

end Ledger

namespace Ledger

/-! ## Journals and the registries they lead to -/

/-- The moments of a journal are lawful, lead to a state of the registry, and end every creation
that they begin. -/
structure Leads (r : ObjectId) (l : Ledger H) (j : Journal H) (s : Registry H) : Prop where
  lawful : l.Lawful r (Journal.moments j)
  registry : (l.after r (Journal.moments j)).registry = s
  creations : (l.after r (Journal.moments j)).creations = l.creations

variable {r : ObjectId} {l : Ledger H} {s : Registry H}

theorem Leads.nil (h : l.registry = s) : l.Leads r [] s := ⟨trivial, h, rfl⟩

theorem Leads.fact {f : Fact H} (hf : l.Allows r (.fact f)) (hr : (l.next r (.fact f)).registry = s)
    (hc : (l.next r (.fact f)).creations = l.creations) : l.Leads r [.fact f] s :=
  ⟨⟨hf, trivial⟩, hr, hc⟩

theorem Leads.aside {f : Fact H} (hf : f.IsAside) (h : l.registry = s) :
    l.Leads r [.fact f] s := by
  refine Leads.fact (allows_fact hf) ?_ ?_
  · rw [next_fact hf, h]
  · rw [next_fact hf]

/-- A fact that tells of a change leads to the changed registry, whichever that is. -/
theorem Leads.change {r' : ObjectId} {s' : Registry H} {w : World H σ} {l' : Ledger H}
    {f : Fact H} (hl : l.registry = w.registries.get r) (hf : l.Allows r (.fact f))
    (hnext : l.next r (.fact f) = if r' = r then l' else l)
    (hregistry : r' = r → l'.registry = s') (hcreations : l'.creations = l.creations) :
    l.Leads r [.fact f] ((w.setRegistry r' s').registries.get r) := by
  rw [World.get_setRegistry]
  by_cases hr : r' = r
  · rw [if_pos hr] at hnext ⊢
    refine Leads.fact hf ?_ ?_
    · rw [hnext, hregistry hr]
    · rw [hnext, hcreations]
  · rw [if_neg hr] at hnext ⊢
    refine Leads.fact hf ?_ ?_
    · rw [hnext, hl]
    · rw [hnext]

theorem Leads.append {j k : Journal H} {s' : Registry H} (hj : l.Leads r j s)
    (hk : (l.after r (Journal.moments j)).Leads r k s') : l.Leads r (j ++ k) s' := by
  constructor
  · rw [Journal.moments_append, lawful_append]
    exact ⟨hj.lawful, hk.lawful⟩
  · rw [Journal.moments_append, after_append]
    exact hk.registry
  · rw [Journal.moments_append, after_append]
    exact hk.creations.trans hj.creations

theorem Leads.aside_cons {f : Fact H} {j : Journal H} (hf : f.IsAside) (hj : l.Leads r j s) :
    l.Leads r (.fact f :: j) s := by
  refine Leads.append (Leads.aside hf rfl) ?_
  rw [Journal.moments_fact, after_single, next_fact hf]
  exact hj

theorem Leads.within {scope : Scope H} {j : Journal H} (hscope : scope.IsAside)
    (hj : l.Leads r j s) : l.Leads r [.scope scope j] s := by
  have hafter : l.after r (Journal.moments [.scope scope j]) = l.after r (Journal.moments j) := by
    rw [Journal.moments_scope, after_cons, after_append, next_opens hscope, after_single,
      next_closes hscope]
  constructor
  · rw [Journal.moments_scope, Lawful, lawful_append, next_opens hscope]
    exact ⟨allows_opens hscope, hj.lawful, allows_closes hscope, trivial⟩
  · rw [hafter, hj.registry]
  · rw [hafter, hj.creations]

/-- A creation leads where its conclusion leads. -/
theorem Leads.creation {r' : ObjectId} {n : ComponentName} {d : Definition H}
    {outer : List ComponentName} {chain : List (Extension H)}
    {result : Except DependencyError (Instance H)} {j : Journal H}
    (hopens : l.Allows r (.opens (.creation r' n d outer chain result)))
    (hj : (l.next r (.opens (.creation r' n d outer chain result))).Leads r j s) :
    l.Leads r [.scope (.creation r' n d outer chain result) j]
      (if r' = r then (s.conclude n d result).2 else s) := by
  by_cases hr : r' = r
  · subst hr
    have hnext : l.next r' (.opens (.creation r' n d outer chain result)) =
        l.begin ⟨n, d, outer, chain, result⟩ := if_pos rfl
    rw [hnext] at hj
    have hcreations :
        ((l.begin ⟨n, d, outer, chain, result⟩).after r' (Journal.moments j)).creations =
          ⟨n, d, outer, chain, result⟩ :: l.creations := hj.creations
    rw [if_pos rfl]
    constructor
    · rw [Journal.moments_scope, Lawful, lawful_append, hnext]
      exact ⟨hopens, hj.lawful, fun _ => ⟨l.creations, hcreations⟩, trivial⟩
    · rw [Journal.moments_scope, after_cons, after_append, after_single, hnext]
      simp only [next, if_true, finish, hcreations, hj.registry]
    · rw [Journal.moments_scope, after_cons, after_append, after_single, hnext]
      simp only [next, if_true, finish, hcreations]
  · have hafter : l.after r (Journal.moments [.scope (.creation r' n d outer chain result) j]) =
        l.after r (Journal.moments j) := by
      rw [Journal.moments_scope, after_cons, after_append, after_single]
      simp [next, hr]
    have hnext : l.next r (.opens (.creation r' n d outer chain result)) = l := if_neg hr
    rw [hnext] at hj
    rw [if_neg hr]
    constructor
    · rw [Journal.moments_scope, Lawful, lawful_append, hnext]
      exact ⟨hopens, hj.lawful, fun h => absurd h hr, trivial⟩
    · rw [hafter, hj.registry]
    · rw [hafter, hj.creations]

theorem next_resolution (v : View) (n : ComponentName)
    (a : Except DependencyError (Instance H)) :
    (l.next r (.opens (.resolution v n a))).registry =
      if v.registry = r then l.registry.prepare n else l.registry := by
  simp only [next]
  split <;> rfl

/-- A resolution that finds no singleton begins with the look at the definitions. -/
theorem next_resolution_of_none {v : View} {n : ComponentName} {w : World H σ}
    (hl : l.registry = w.registries.get r)
    (hnone : (w.registries.get v.registry).singletons.get? n = none)
    (a : Except DependencyError (Instance H)) :
    (l.next r (.opens (.resolution v n a))).registry =
      (w.setRegistry v.registry ((w.registries.get v.registry).lookup n).2).registries.get r := by
  rw [next_resolution, World.get_setRegistry]
  by_cases hr : v.registry = r
  · subst hr
    rw [if_pos rfl, if_pos rfl, hl, Registry.prepare_of_none hnone]
  · rw [if_neg hr, if_neg hr, hl]

/-- A creation begins with its name on the stack. -/
theorem next_creation {w : World H σ} (hl : l.registry = w.registries.get r) (r' : ObjectId)
    (m : Making H) :
    (l.next r (.opens (m.scope r'))).registry =
      (w.setRegistry r' ((w.registries.get r').beginCreation m.name)).registries.get r := by
  rw [World.get_setRegistry]
  by_cases hr : r' = r
  · subst hr
    simp [Making.scope, next, begin, hl]
  · simp [Making.scope, next, hr, hl]

/-- A resolution leads where its body leads. -/
theorem Leads.resolution {v : View} {n : ComponentName}
    {a : Except DependencyError (Instance H)} {j : Journal H}
    (hopens : l.Allows r (.opens (.resolution v n a)))
    (hj : (l.next r (.opens (.resolution v n a))).Leads r j s) :
    l.Leads r [.scope (.resolution v n a) j] s := by
  have hafter : l.after r (Journal.moments [.scope (.resolution v n a) j]) =
      (l.next r (.opens (.resolution v n a))).after r (Journal.moments j) := by
    rw [Journal.moments_scope, after_cons, after_append]
    rfl
  constructor
  · rw [Journal.moments_scope, Lawful, lawful_append]
    exact ⟨hopens, hj.lawful, trivial, trivial⟩
  · rw [hafter, hj.registry]
  · rw [hafter, hj.creations]
    simp only [next]
    split <;> rfl

end Ledger

/-! ## Runs and their moments -/

/-- The journal of a finished run leads from the registry before it to the one after it. -/
def Tracks (r : ObjectId) {α : Type} (x : Run H σ α) : Prop :=
  ∀ (l : Ledger H) (w : World H σ) (a : α) (w' : World H σ) (j : Journal H),
    x w = some (a, w', j) → l.registry = w.registries.get r → l.Leads r j (w'.registries.get r)

namespace Tracks

open Ledger (Leads)

variable {r : ObjectId} {α β : Type}

theorem pure (a : α) : Tracks r (Pure.pure a : Run H σ α) := by
  intro l w b w' j hx hl
  obtain ⟨-, rfl, rfl⟩ := Run.pure_eq_some.1 hx
  exact Leads.nil hl

theorem bind {x : Run H σ α} {f : α → Run H σ β} (hx : Tracks r x)
    (hf : ∀ a, Tracks r (f a)) : Tracks r (x >>= f) := by
  intro l w b w₂ j h hl
  obtain ⟨a, w₁, j₁, j₂, h₁, h₂, rfl⟩ := Run.bind_eq_some.1 h
  have hfirst := hx l w a w₁ j₁ h₁ hl
  exact hfirst.append (hf a _ w₁ b w₂ j₂ h₂ hfirst.registry)

theorem ask (f : World H σ → α) : Tracks r (Run.ask f) := by
  intro l w a w' j hx hl
  cases hx
  exact Leads.nil hl

theorem fresh : Tracks r (Run.fresh : Run H σ ObjectId) := by
  intro l w a w' j hx hl
  cases hx
  exact Leads.nil hl

theorem change {f : World H σ → World H σ} (hf : ∀ w, (f w).registries = w.registries) :
    Tracks r (Run.change f) := by
  intro l w a w' j hx hl
  cases hx
  rw [hf]
  exact Leads.nil hl

theorem exceeded : Tracks r (Run.exceeded : Run H σ α) := by
  intro l w a w' j hx
  cases hx

theorem record {f : Fact H} (hf : f.IsAside) : Tracks r (Run.record f : Run H σ Unit) := by
  intro l w a w' j hx hl
  cases hx
  exact Leads.aside hf hl

theorem within {s : α → Scope H} {x : Run H σ α} (hs : ∀ a, (s a).IsAside) (hx : Tracks r x) :
    Tracks r (Run.within s x) := by
  intro l w a w' j h hl
  obtain ⟨j', h', rfl⟩ := Run.within_eq_some.1 h
  exact (hx l w a w' j' h' hl).within (hs a)

/-! ### Changes of a registry -/

theorem register (r' : ObjectId) (d : Definition H) :
    Tracks r (Registry.register r' d : Run H σ _) := by
  intro l w a w' j hx hl
  rw [Registry.register_run] at hx
  split at hx
  · cases hx
    exact Leads.nil hl
  · rename_i hblank
    cases hx
    refine Leads.change hl (fun hr => ⟨by simpa using hblank, ?_⟩) rfl (fun hr => ?_) rfl
    · rw [hl, hr]
    · rw [hl, hr]

theorem remove (r' : ObjectId) (n : ComponentName) :
    Tracks r (Registry.remove r' n : Run H σ _) := by
  intro l w a w' j hx hl
  rw [Registry.remove_run] at hx
  split at hx
  · cases hx
    exact Leads.nil hl
  · rename_i d hd
    cases hx
    refine Leads.change hl (fun hr => ?_) rfl (fun hr => ?_) rfl
    · rw [hl, ← hr]
      exact OrderedMap.contains_of_some hd
    · rw [hl, hr]

theorem registerInstance (r' : ObjectId) (n : ComponentName) (i : Instance H) :
    Tracks r (Registry.registerInstance r' n i : Run H σ _) := by
  intro l w a w' j hx hl
  rw [Registry.registerInstance_run] at hx
  split at hx
  · cases hx
    exact Leads.nil hl
  · rename_i hnew
    cases hx
    refine Leads.change hl (fun hr => ?_) rfl (fun hr => ?_) rfl
    · rw [hl, ← hr]
      simpa using hnew
    · show l.registry.keep n i = _
      rw [hl, hr]

theorem install (v : View) (e : Extension H) : Tracks r (v.install e : Run H σ Unit) := by
  intro l w a w' j hx hl
  rw [View.install_run] at hx
  split at hx
  · rename_i hview
    cases hx
    refine Leads.aside_cons trivial (Leads.change hl (fun _ => hview) rfl (fun hr => ?_) rfl)
    rw [hl, hr]
  · cases hx
    exact Leads.aside_cons trivial (Leads.aside trivial hl)

theorem clearCache (v : View) : Tracks r (v.clearCache : Run H σ Unit) := by
  intro l w a w' j hx hl
  rw [View.clearCache_run] at hx
  cases hx
  refine Leads.aside_cons trivial (Leads.change hl trivial rfl (fun hr => ?_) rfl)
  rw [hl, hr]

/-! ### Creation -/

variable {call : Call H σ}

/-- The moments of a creation, if it begins with the definition that the registry remembers. -/
theorem create {r' : ObjectId} {n : ComponentName} {d : Definition H}
    (hbuild : ∀ chain, Tracks r (Creation.build call (.direct r') n d chain).run)
    {l : Ledger H} {w w' : World H σ} {a : Except DependencyError (Instance H)} {j : Journal H}
    (h : (Creation.create call r' n d).run w = some (a, w', j))
    (hl : l.registry = w.registries.get r)
    (hd : r' = r → l.registry.merged.get? n = some d ∧ l.registry.singletons.get? n = none) :
    l.Leads r j (w'.registries.get r) := by
  obtain ⟨-, -, rfl, rfl⟩ | ⟨hin, result, w₁, j₁, hrun, -, rfl, rfl⟩ :=
    Creation.create_eq_some call h
  · exact Leads.nil hl
  · have hopens : l.Allows r (.opens (.creation r' n d (w.registries.get r').inCreation
        (w.registries.get r').interceptors result)) := by
      rintro rfl
      rw [← hl] at hin ⊢
      exact ⟨(hd rfl).1, (hd rfl).2, hin, rfl, rfl⟩
    have hbegin := Ledger.next_creation hl r' ⟨n, d, (w.registries.get r').inCreation,
      (w.registries.get r').interceptors, result⟩
    have hbody := hbuild _ _ _ result w₁ j₁ hrun hbegin
    have hlead := Leads.creation hopens hbody
    rw [World.get_setRegistry]
    by_cases hr : r' = r
    · subst hr
      simpa using hlead
    · simpa [hr] using hlead

theorem resolve (v : View) (n : ComponentName)
    (hbuild : ∀ d chain, Tracks r (Creation.build call (.direct v.registry) n d chain).run) :
    Tracks r (v.resolve call n).run := by
  intro l w a w' j h hl
  have hopens (hnone : (w.registries.get v.registry).singletons.get? n = none) (b) :
      l.Allows r (.opens (.resolution v n b)) := by
    rintro rfl i hi
    rw [hl, hnone] at hi
    cases hi
  obtain ⟨i, hi, rfl, rfl, rfl⟩ | ⟨hnone, ⟨hlook, rfl, rfl, rfl⟩ | ⟨d, j', hlook, hcreate, rfl⟩⟩ :=
    View.resolve_eq_some call h
  · refine Leads.resolution ?_ (Leads.nil ?_)
    · rintro rfl i' hi'
      rw [hl, hi] at hi'
      rw [Option.some.inj hi']
    · by_cases hr : v.registry = r
      · subst hr
        rw [Ledger.next_resolution, if_pos rfl, hl, Registry.prepare_of_some hi]
      · rw [Ledger.next_resolution, if_neg hr, hl]
  · refine Leads.resolution (hopens hnone _) (Leads.nil ?_)
    rw [Ledger.next_resolution_of_none hl hnone, World.get_setRegistry,
      Registry.lookup_of_none hlook]
    split
    · rename_i hr
      rw [hr]
    · rfl
  · have hnext := Ledger.next_resolution_of_none hl hnone a
    refine Leads.resolution (hopens hnone a) (create (hbuild d) hcreate hnext fun hr => ?_)
    rw [hnext, World.get_setRegistry, if_pos hr]
    exact ⟨Registry.merged_lookup hlook, by rw [Registry.singletons_lookup, hnone]⟩

theorem coarse : Coarse (fun {α} (x : Run H σ α) => Tracks r x) where
  pure := pure
  bind := bind
  ask := ask
  fresh := fresh
  change _ hf := change hf
  record _ hf := record hf
  within _ _ hs hx := within hs hx

theorem closed (hcall : ∀ cb, Tracks r (call cb)) :
    Closed call (fun {α} (x : Run H σ α) => Tracks r x) :=
  coarse.closed register remove registerInstance install clearCache (fun v n h => resolve v n h)
    hcall

/-- What the library does among callbacks of a behaviour is tracked. -/
theorem behaviour (b : Behaviour H σ) (depth : Nat) :
    Closed (b.call depth) (fun {α} (x : Run H σ α) => Tracks r x) :=
  b.closed (fun _ => exceeded) (fun _ => closed) depth

/-- The journal of a program leads from the registry before it to the one after it. -/
theorem program (b : Behaviour H σ) (depth : Nat) (x : Program H σ α) :
    Tracks r (b.run depth x) :=
  (behaviour b depth).program (fun _ => exceeded) depth x

end Tracks

end Startup
