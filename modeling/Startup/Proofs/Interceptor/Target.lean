import Startup.Proofs.Interceptor.FinalChain
import Startup.Proofs.Interceptor.Watch

/-!
Whether a registration reaches the number of interceptors that its checker expects. What is
expected counts the interceptors that are installed, the checker and every name that is found; what
is reached counts objects. An object that was installed before, or is found under several names,
counts several times for the one and once for the other, and the detector counts for the latter
alone.

Main statement: `target_reached_iff`. The number is reached just when there are as many new objects
in the chain as there are names, and one more. If it is reached the checker never again notes a
component of its registry; if not, it goes on noting them, however complete the chain is.
-/

namespace Startup

variable {H : Host} {σ : Type}

/-! ## New objects -/

/-- Members of a chain that were in no place of an earlier one. -/
def newcomers (old chain : List (Extension H)) : List (Extension H) :=
  chain.filter fun e => !decide (e.id ∈ old.map (·.id))

/-- A chain that keeps all old objects is longer by the new ones. -/
theorem length_eq_add_newcomers {old chain : List (Extension H)} (hold : Distinct old)
    (hchain : Distinct chain) (hkept : ∀ e ∈ old, ∃ x ∈ chain, x.id = e.id) :
    chain.length = old.length + (newcomers old chain).length := by
  have hsame : ((chain.filter fun e => decide (e.id ∈ old.map (·.id))).map (·.id)).Perm
      (old.map (·.id)) := by
    have hleft : ((chain.filter fun e => decide (e.id ∈ old.map (·.id))).map (·.id)).Nodup :=
      List.pairwise_map.2 (hchain.sublist List.filter_sublist)
    have hright : (old.map (·.id)).Nodup := List.pairwise_map.2 hold
    apply (List.perm_ext_iff_of_nodup hleft hright).2
    intro i
    constructor
    · intro hi
      obtain ⟨x, hx, rfl⟩ := List.mem_map.1 hi
      simpa using (List.mem_filter.1 hx).2
    · intro hi
      obtain ⟨e, he, rfl⟩ := List.mem_map.1 hi
      obtain ⟨x, hx, hid⟩ := hkept e he
      refine List.mem_map.2 ⟨x, List.mem_filter.2 ⟨hx, ?_⟩, hid⟩
      simpa [hid] using hi
  have hcount := hsame.length_eq
  rw [List.length_map, List.length_map] at hcount
  rw [List.length_eq_length_filter_add fun e => decide (e.id ∈ old.map (·.id)), hcount]
  rfl

/-! ## After the registration -/

namespace Tracks

variable {α : Type} {r : ObjectId} {x : Run H σ α} {w w' : World H σ} {a : α} {j : Journal H}

/-- All objects of a chain stay in it. -/
theorem kept (hx : Tracks r x) (hrun : x w = some (a, w', j))
    (h : Distinct (w.registries.get r).interceptors) :
    ∀ e ∈ (w.registries.get r).interceptors,
      ∃ y ∈ (w'.registries.get r).interceptors, y.id = e.id := by
  intro e he
  rw [hx.chain hrun h]
  exact exists_mem_keepLast (List.mem_append_left _ he)

/-- The chain is never shorter than it was, neither after a run nor in the middle of it. -/
theorem length_le (hx : Tracks r x) (hrun : x w = some (a, w', j))
    (h : Distinct (w.registries.get r).interceptors) {e : Event H} {past : List (Moment H)}
    (hoccurs : Journal.Occurs e past j) :
    (w.registries.get r).interceptors.length ≤
      ((Ledger.of (w.registries.get r)).after r past).registry.interceptors.length := by
  obtain ⟨hlaw, -, -⟩ := hx (.of (w.registries.get r)) w a w' j hrun rfl
  have hpast := (hlaw.at_entry hoccurs).1
  have hle := length_keepLast_le (w.registries.get r).interceptors (installs r past)
  rw [keepLast_of_distinct h] at hle
  rw [hpast.chain h]
  exact hle

end Tracks

/-- With enough interceptors in place there is nothing to object to. -/
theorem Consultation.verdict_of_le (c : Consultation H) {target : Nat} {s : Registry H}
    (h : target ≤ s.interceptors.length) : c.verdict target s = [] := by
  apply verdict_eq_nil
  rw [objects, decide_eq_false (Nat.not_lt.2 h), Bool.and_false]

open Registration (discovered expected)

/-- A registration that succeeds, whatever the state of the registry is and whatever its callbacks
do, and any program that runs after it. The registration expects one interceptor for each that was
installed, one for the checker, and one for each name; the chain is then longer by its new objects,
so it is as long as expected just when there are more new objects than names.

Later the checker notes those of its registry that it is asked about, that are neither interceptors
nor internal, and that find fewer interceptors than expected. So where that number was reached it
notes none of them; what it still notes, it was asked about on behalf of another registry. -/
theorem target_reached_iff (b : Behaviour H σ) (depth : Nat) (v : View) (context : ObjectId)
    {w w' : World H σ} {reg : Registration H} {j : Journal H}
    (hdistinct : Distinct (w.registries.get v.registry).interceptors)
    (hrun : (v.registerInterceptors (b.call depth) context).run w = some (.ok reg, w', j)) :
    let s := w.registries.get v.registry
    let chain := (w'.registries.get v.registry).interceptors
    reg.target = s.interceptors.length + 1 + (discovered s).length ∧
      chain.length = s.interceptors.length + (newcomers s.interceptors chain).length ∧
      (reg.target ≤ chain.length ↔
        (discovered s).length < (newcomers s.interceptors chain).length) ∧
      ∀ (α : Type) (depth' : Nat) (x : Program H σ α) (a : α) (w'' : World H σ) (k : Journal H),
        b.run depth' x w' = some (a, w'', k) →
        (w''.checkers.get reg.checker.id).bypassed = (w'.checkers.get reg.checker.id).bypassed ++
          bypasses reg.checker.id (Journal.moments k) ∧
        (∀ past t body c, Journal.Occurs (.scope t body) past k → t.consultation? = some c →
          c.checker = reg.checker.id → c.view.registry = v.registry →
            body = c.verdict reg.target ((Ledger.of (w'.registries.get v.registry)).after
              v.registry past).registry) ∧
        (reg.target ≤ chain.length →
          (∀ past t body c, Journal.Occurs (.scope t body) past k → t.consultation? = some c →
            c.checker = reg.checker.id → c.view.registry = v.registry → body = []) ∧
          ∀ n ∈ bypasses reg.checker.id (Journal.moments k), ∃ past t body c,
            Journal.Occurs (.scope t body) past k ∧ t.consultation? = some c ∧
              c.checker = reg.checker.id ∧ c.name = n ∧ c.view.registry ≠ v.registry) := by
  intro s chain
  have htracks := (Tracks.behaviour (r := v.registry) b depth).registerInterceptors v context
  have hchain : Distinct chain := htracks.distinct hrun hdistinct
  have hlength : chain.length = s.interceptors.length + (newcomers s.interceptors chain).length :=
    length_eq_add_newcomers hdistinct hchain (htracks.kept hrun hdistinct)
  obtain ⟨id, rfl⟩ := Registration.eq_of_ok hrun
  have htarget : expected s = s.interceptors.length + 1 + (discovered s).length := rfl
  refine ⟨htarget, hlength, ?_, ?_⟩
  · show expected s ≤ chain.length ↔ _
    rw [htarget, hlength]
    omega
  · intro α depth' x a w'' k hx
    obtain ⟨body, hfurnish, -⟩ := Registration.registerInterceptors_eq_some hrun
    have hmade := Registration.furnish_watch hfurnish
    have hwatch : Watch v.registry w.next w' w'' k :=
      (Watches.program b depth' x).watch w' a w'' k hx hmade.next
    have hexpected : (w'.checkers.get w.next).target = expected s := by
      rw [hmade.target, World.checkers_withChecker]
    have hdecided : ∀ past t body c, Journal.Occurs (.scope t body) past k →
        t.consultation? = some c → c.checker = w.next → c.view.registry = v.registry →
          body = c.verdict (expected s) ((Ledger.of (w'.registries.get v.registry)).after
            v.registry past).registry := by
      intro past t body c hoccurs hc hid hr
      rw [← hexpected]
      exact hwatch.decided _ rfl past t body c hoccurs hc hid hr
    have hsilent (hreached : expected s ≤ chain.length) : ∀ past t body c,
        Journal.Occurs (.scope t body) past k → t.consultation? = some c →
          c.checker = w.next → c.view.registry = v.registry → body = [] := by
      intro past t body c hoccurs hc hid hr
      have hlonger := (Tracks.program (r := v.registry) b depth' x).length_le hx hchain hoccurs
      rw [hdecided past t body c hoccurs hc hid hr]
      exact c.verdict_of_le (Nat.le_trans hreached hlonger)
    refine ⟨hwatch.bypassed, hdecided, fun hreached => ⟨hsilent hreached, fun n hn => ?_⟩⟩
    obtain ⟨type, installed, target, hfact⟩ := mem_bypasses.1 hn
    obtain ⟨past, t, c, hoccurs, hc, hid, hname⟩ := hwatch.asked n type installed target hfact
    refine ⟨past, t, _, c, hoccurs, hc, hid, hname, fun hr => ?_⟩
    cases hsilent hreached past t _ c hoccurs hc hid hr

/-! ### Interceptors that are installed already -/

namespace Scenario

/-- Two interceptors. The operations that follow are done once they are registered. -/
def pairWorld (ops : List Operation) : World Scripted Memory :=
  worldAfter (.register (interceptorSpec "first" (.priority 0) false) ::
    .register (interceptorSpec "second" (.ordered 1) false) :: ops)

/-- One of the two is installed already. -/
def halfInstalled : World Scripted Memory :=
  pairWorld [.resolve "first", .install (.handle 0)]

/-- Both are installed already. -/
def bothInstalled : World Scripted Memory :=
  pairWorld [.resolve "first", .resolve "second", .install (.handle 0), .install (.handle 1)]

/-- Create a component that is neither an interceptor nor internal. -/
def createLate : Program Scripted Memory (Except DependencyError (Instance Scripted)) := do
  let _ ← Program.request (.register Setup.base (labelled "late" []).toDefinition)
  Program.request (.resolve (.direct Setup.base) ⟨"a"⟩)

/-- What is left of a registration and a creation after it: the number that was expected, the one
that was reached, and the components that the checker has noted by the end of each. -/
def lateReport (w : World Scripted Memory) :
    Option (Option (Nat × List ComponentName × List ComponentName) × Nat) :=
  (registeringIn w).bind fun p => (behaviour.run 3 createLate p.2.1).map fun q =>
    (p.1.toOption.map fun reg => (reg.target, (p.2.1.checkers.get reg.checker.id).bypassed,
      (q.2.1.checkers.get reg.checker.id).bypassed),
        (p.2.1.registries.get Setup.base).interceptors.length)

theorem lateReport_eq_some {w : World Scripted Memory} {target reached : Nat}
    {before after : List ComponentName}
    (h : lateReport w = some (some (target, before, after), reached)) :
    ∃ reg w' j a w'' k, registeringIn w = some (.ok reg, w', j) ∧
      behaviour.run 3 createLate w' = some (a, w'', k) ∧ reg.target = target ∧
      (w'.registries.get Setup.base).interceptors.length = reached ∧
      (w'.checkers.get reg.checker.id).bypassed = before ∧
      (w''.checkers.get reg.checker.id).bypassed = after := by
  obtain ⟨⟨result, w', j⟩, hregistered, hmap⟩ := Option.bind_eq_some_iff.1 h
  obtain ⟨⟨a, w'', k⟩, hcreated, htold⟩ := Option.map_eq_some_iff.1 hmap
  cases result with
  | error e => cases htold
  | ok reg =>
    cases htold
    exact ⟨reg, w', j, a, w'', k, hregistered, hcreated, rfl, rfl, rfl, rfl⟩

/-- One of two interceptors was installed before. The number is just reached, and the checker has
nothing to object to. -/
theorem halfInstalled_reached :
    ∃ reg w' j a w'' k, registeringIn halfInstalled = some (.ok reg, w', j) ∧
      behaviour.run 3 createLate w' = some (a, w'', k) ∧
      reg.target = (w'.registries.get Setup.base).interceptors.length ∧
      (newcomers (halfInstalled.registries.get Setup.base).interceptors
        (w'.registries.get Setup.base).interceptors).length = 3 ∧
      ∀ past t body c, Journal.Occurs (.scope t body) past k → t.consultation? = some c →
        c.checker = reg.checker.id → c.view.registry = Setup.base → body = [] := by
  have hreport : lateReport halfInstalled = some (some (4, [], []), 4) := by decide +kernel
  obtain ⟨reg, w', j, a, w'', k, hrun, hlater, htarget, hlength, -, -⟩ :=
    lateReport_eq_some hreport
  have hids : ((halfInstalled.registries.get Setup.base).interceptors.map (·.id)).Nodup := by
    decide +kernel
  have hinstalled : (halfInstalled.registries.get Setup.base).interceptors.length = 1 := by
    decide +kernel
  obtain ⟨-, hcount, -, hafter⟩ := target_reached_iff behaviour 3 (.direct Setup.base)
    Setup.context (List.pairwise_map.1 hids) hrun
  have hreached : reg.target = (w'.registries.get Setup.base).interceptors.length := by
    rw [htarget, hlength]
  obtain ⟨-, -, hsilent⟩ := hafter _ 3 createLate a w'' k hlater
  refine ⟨reg, w', j, a, w'', k, hrun, hlater, hreached, ?_, (hsilent (Nat.le_of_eq hreached)).1⟩
  have hsum : 4 = 1 + (newcomers (halfInstalled.registries.get Setup.base).interceptors
      (w'.registries.get Setup.base).interceptors).length := by
    rw [← hlength, ← hinstalled]
    exact hcount
  omega

/-- Both interceptors were installed before. The number is missed although all of them are in
place, and the checker notes a component that passed every one of them. -/
theorem bothInstalled_missed :
    ∃ reg w' j a w'' k, registeringIn bothInstalled = some (.ok reg, w', j) ∧
      behaviour.run 3 createLate w' = some (a, w'', k) ∧
      (w'.registries.get Setup.base).interceptors.length < reg.target ∧
      (w'.checkers.get reg.checker.id).bypassed = [] ∧
      (w''.checkers.get reg.checker.id).bypassed = [⟨"a"⟩] := by
  have hreport : lateReport bothInstalled = some (some (5, [], [⟨"a"⟩]), 4) := by decide +kernel
  obtain ⟨reg, w', j, a, w'', k, hrun, hlater, htarget, hlength, hbefore, hafter⟩ :=
    lateReport_eq_some hreport
  refine ⟨reg, w', j, a, w'', k, hrun, hlater, ?_, hbefore, hafter⟩
  omega

end Scenario

end Startup
