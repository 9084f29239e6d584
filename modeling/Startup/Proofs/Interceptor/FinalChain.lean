import Startup.Proofs.Interceptor.Course
import Startup.Proofs.Pipeline.Conduct
import Startup.Proofs.Registry.Chain

/-!
The chain of interceptors after a registration. A registration installs its checker, then tier
after tier what it finds, then once more those interceptors that are shown definitions, and its
detector. To install what is in the chain already moves it to the end, so the last installation of
an object decides where it stands.

Main statement: `final_chain`, for a registration that succeeds while callbacks are quiet. So
whatever was found is in the chain once, what is shown definitions stands behind what is not, and
the detector is last.
-/

namespace Startup

variable {H : Host} {σ : Type}

/-! ## Objects in a chain -/

/-- Either an object is shown definitions or it is not, in whatever place it stands. -/
def Consistent (l : List (Extension H)) : Prop :=
  ∀ a ∈ l, ∀ b ∈ l, a.id = b.id → a.views.mergeAware = b.views.mergeAware

section Chains

variable {l k m : List (Extension H)} {e x : Extension H}

/-- In a chain without repetitions a member is alone with its identity. -/
theorem Distinct.filter_id (h : Distinct l) (hx : x ∈ l) :
    l.filter (fun y => y.id = x.id) = [x] := by
  induction l with
  | nil => cases hx
  | cons y rest ih =>
    obtain ⟨hy, hrest⟩ := List.pairwise_cons.1 h
    rcases List.mem_cons.1 hx with rfl | hin
    · have hnone : rest.filter (fun y => y.id = x.id) = [] := by
        apply List.filter_eq_nil_iff.2
        intro z hz
        simpa using Ne.symm (hy z hz)
      rw [List.filter_cons_of_pos (by simp), hnone]
    · rw [List.filter_cons_of_neg (by simpa using hy x hin), ih hrest hin]

/-- Of each object one occurrence is kept. -/
theorem countP_keepLast (h : e ∈ l) : (keepLast l).countP (fun x => x.id = e.id) = 1 := by
  obtain ⟨x, hx, hid⟩ := exists_mem_keepLast h
  rw [List.countP_eq_length_filter, ← hid, (distinct_keepLast l).filter_id hx]
  rfl

/-- An object that does not come again stands before all that comes last. -/
theorem sublist_keepLast (hx : x ∈ k) (he : e ∈ m) (hnew : ∀ y ∈ m, y.id ≠ x.id) :
    [x.id, e.id].Sublist ((keepLast (l ++ k ++ m)).map (·.id)) := by
  obtain ⟨x', hx', hid⟩ := exists_mem_keepLast (List.mem_append_right l hx)
  obtain ⟨e', he', hid'⟩ := exists_mem_keepLast he
  have hfirst : x' ∈ (keepLast (l ++ k)).filter
      (fun x => m.all fun y => !decide (y.id = x.id)) := by
    apply List.mem_filter.2
    exact ⟨hx', by simpa [hid] using hnew⟩
  rw [keepLast_append, ← hid, ← hid']
  exact ((List.singleton_sublist.2 hfirst).append (List.singleton_sublist.2 he')).map (·.id)

end Chains

/-! ## The installations of a registration -/

namespace Findings

/-- Interceptors were found, so none of those that are moved is left out. -/
theorem filter_moved {found : Findings H} (c : Comparator H)
    (h : ∀ q ∈ found.inOrder, q.2.supports .lifecycleInterceptor = true) :
    (c.sortBy ((found.ranked c).filter (·.views.mergeAware))).filter (·.views.interceptor) =
      found.moved c := by
  apply List.filter_eq_self.2
  intro e he
  obtain ⟨q, hq, rfl⟩ := List.mem_map.1 (mem_ranked.1 (mem_moved.1 he).1)
  exact h q hq

end Findings

/-- To install an interceptor leaves all else alone. -/
theorem Registry.Retains.install (s : Registry H) (e : Extension H) : s.Retains (s.install e) :=
  ⟨fun _ => rfl, rfl, fun _ _ => id⟩

namespace Registration

/-- So does the registration of a checker, which is installed as soon as it is made. -/
theorem retains_checker (w : World H σ) (r : ObjectId) (target : Nat) (checker : Extension H) :
    (w.registries.get r).Retains (((w.withChecker target).setRegistry r
      ((w.registries.get r).install checker)).registries.get r) := by
  rw [World.get_setRegistry_self]
  exact .install _ _

/-- What a registration has installed in the end, one after the other, if callbacks were quiet. -/
theorem installs_of_ok {call : Call H σ} {v : View} {context : ObjectId} {w w' : World H σ}
    {reg : Registration H} {j : Journal H}
    (hc : Closed call (fun {α} (x : Run H σ α) => Tracks v.registry x))
    (hrun : (v.registerInterceptors call context).run w = some (.ok reg, w', j))
    (hquiet : j.Quiet v.registry) :
    ∃ (found : Findings H) (id : ObjectId) (body : Journal H),
      j = [.scope (.registration v context none) body] ∧
      Journal.deeds body = Deed.fetches .lifecycleInterceptor found.inOrder ∧
      (∀ t, (found t).map Prod.fst = (discovered (w.registries.get v.registry)).filter
        (fun n => (w.registries.get v.registry).tierOf n = t)) ∧
      reg.checker = Checker.extension w.next ∧ reg.detector = Detector.extension id ∧
      installs v.registry (Journal.moments j) =
        reg.checker :: (found.ranked (v.sorter (w.registries.get v.registry)) ++
          (found.moved (v.sorter (w.registries.get v.registry)) ++ [reg.detector])) := by
  obtain ⟨body, hfurnish, rfl⟩ := registerInterceptors_eq_some hrun
  have hbody := (Journal.quiet_scope (s := .registration v context none) rfl).1 hquiet
  obtain ⟨a, w₁, j₁, k, hnamed, rfl, hnotes, ⟨e, -, hfailed, -⟩ | ⟨es, w₂, rfl, hreg, -, hmoved⟩⟩ :=
    furnish_eq_some rfl hfurnish
  · cases hfailed
  · cases hreg
    simp only [Journal.quiet_fact, Journal.quiet_append] at hbody
    obtain ⟨hretains, found, hnames, hall, hdeeds, rfl, hinstalls⟩ :=
      installNamed_ok hc (fun n hn => hn) (retains_checker ..) hnamed hbody.2.1
    rw [hretains.sorter v] at hmoved
    refine ⟨found, w₂.next, _, rfl, ?_, hnames, rfl, rfl, ?_⟩
    · show Journal.deeds (installedChecker _ _ _ ++ (j₁ ++ k)) = _
      rw [Journal.deeds_append, Journal.deeds_append, (installedChecker_notes _ _ _).deeds,
        hnotes.deeds, List.nil_append, List.append_nil, hdeeds]
    · rw [installs_scope]
      show installs _ (Journal.moments (installedChecker _ _ _ ++ (j₁ ++ k))) = _
      rw [Journal.moments_append, Journal.moments_append, installs_append, installs_append,
        installs_installedChecker, hinstalls, hmoved, found.filter_moved _ hall,
        List.singleton_append]

end Registration

/-! ## The final chain -/

open Registration (discovered)

/-- A registration that succeeds while callbacks install no interceptors and change no definitions.
The components that it finds are fetched tier by tier, as they were declared when it began; their
interceptors are sorted within each tier by the comparator of the registry, and once more those of
them that are shown definitions. The chain is then what it was, followed by the checker, the tiers,
those of the latter kind and the detector, with the last occurrence of each object kept. -/
theorem final_chain (b : Behaviour H σ) (depth : Nat) (v : View) (context : ObjectId)
    {w w' : World H σ} {reg : Registration H} {j : Journal H}
    (hdistinct : Distinct (w.registries.get v.registry).interceptors)
    (hrun : (v.registerInterceptors (b.call depth) context).run w = some (.ok reg, w', j))
    (hquiet : j.Quiet v.registry) :
    let s := w.registries.get v.registry
    let c := v.sorter s
    let chain := (w'.registries.get v.registry).interceptors
    ∃ (found : Findings H) (id : ObjectId) (body : Journal H),
      j = [.scope (.registration v context none) body] ∧
      Journal.deeds body = Deed.fetches .lifecycleInterceptor found.inOrder ∧
      (∀ t, (found t).map Prod.fst = (discovered s).filter (fun n => s.tierOf n = t)) ∧
      reg.checker = Checker.extension w.next ∧ reg.detector = Detector.extension id ∧
      chain = keepLast (s.interceptors ++ [reg.checker] ++ found.ranked c ++
        (found.moved c ++ [reg.detector])) ∧
      chain.getLast? = some reg.detector ∧
      (∀ e ∈ found.ranked c, chain.countP (fun x => x.id = e.id) = 1) ∧
      (Consistent (found.ranked c ++ [reg.detector]) →
        ∀ e ∈ found.ranked c, e.views.mergeAware = true →
          ∀ x ∈ found.ranked c, x.views.mergeAware = false →
            [x.id, e.id].Sublist (chain.map (·.id))) := by
  intro s c chain
  have hclosed := Tracks.behaviour (r := v.registry) b depth
  have hchain : chain = keepLast (s.interceptors ++ installs v.registry (Journal.moments j)) :=
    (hclosed.registerInterceptors v context).chain hrun hdistinct
  obtain ⟨found, id, body, rfl, hdeeds, hnames, hchecker, hdetector, hinstalls⟩ :=
    Registration.installs_of_ok hclosed hrun hquiet
  have hparts : chain = keepLast (s.interceptors ++ [reg.checker] ++ found.ranked c ++
      (found.moved c ++ [reg.detector])) := by
    rw [hchain, hinstalls]
    simp only [List.append_assoc, List.singleton_append]
    rfl
  refine ⟨found, id, body, rfl, hdeeds, hnames, hchecker, hdetector, hparts, ?_, ?_, ?_⟩
  · rw [hparts, ← List.append_assoc, getLast?_keepLast_concat]
  · intro e he
    rw [hparts]
    apply countP_keepLast
    exact List.mem_append_left _ (List.mem_append_right _ he)
  · intro hconsistent e he haware x hx hplain
    have hlast : ∀ y ∈ found.moved c ++ [reg.detector],
        y ∈ found.ranked c ++ [reg.detector] ∧ y.views.mergeAware = true := by
      intro y hy
      rcases List.mem_append.1 hy with hmoved | hend
      · obtain ⟨hranked, hyaware⟩ := Findings.mem_moved.1 hmoved
        exact ⟨List.mem_append_left _ hranked, hyaware⟩
      · refine ⟨List.mem_append_right _ hend, ?_⟩
        rw [List.mem_singleton.1 hend, hdetector]
        rfl
    have hnew : ∀ y ∈ found.moved c ++ [reg.detector], y.id ≠ x.id := by
      intro y hy hid
      obtain ⟨hmem, hyaware⟩ := hlast y hy
      have hsame := hconsistent y hmem x (List.mem_append_left _ hx) hid
      rw [hyaware, hplain] at hsame
      cases hsame
    rw [hparts]
    exact sublist_keepLast hx (List.mem_append_left _ (Findings.mem_moved.2 ⟨he, haware⟩)) hnew

/-! ### A chain in which an object comes again -/

namespace Scenario

/-- A component that is an interceptor. -/
def interceptorSpec (name : String) (tier : OrderTier) (mergeAware : Bool) : DefinitionSpec :=
  extensionSpec name .lifecycleInterceptor tier { interceptor := true, mergeAware } []

/-- An interceptor under another name. -/
def sharedSpec (name original : String) : DefinitionSpec :=
  .mk name .extension [.lifecycleInterceptor] .unordered .application .singleton false [] []
    (.component original)

/-- The world after some operations. -/
def worldAfter (ops : List Operation) : World Scripted Memory :=
  ops.foldl (fun w op =>
    ((behaviour.run 3 (Act.perform w.memory.view op).run w).map (·.2.1)).getD w) (Setup.world {})

/-- An interceptor is installed already, and there to be found under two names. -/
def sharingWorld : World Scripted Memory :=
  worldAfter [.register (interceptorSpec "ordered" (.ordered 1) false),
    .register (interceptorSpec "aware" (.priority 0) true),
    .register (sharedSpec "again" "ordered"), .install (.made (.component "ordered"))]

/-- Register the interceptors that are to be found. -/
def registeringIn (w : World Scripted Memory) : Option (Except ExtensionError
    (Registration Scripted) × World Scripted Memory × Journal Scripted) :=
  ((View.direct Setup.base).registerInterceptors (behaviour.call 3) Setup.context).run w

/-- The objects that some fetches brought, and whether they are shown definitions. -/
def fetchedObjects (ds : List (Deed Scripted)) : List (ObjectId × Bool) :=
  ds.filterMap fun
    | .fetched _ _ (.ok e) => some (e.id, e.views.mergeAware)
    | _ => none

theorem fetchedObjects_fetches (c : Capability)
    (found : List (ComponentName × Extension Scripted)) :
    fetchedObjects (Deed.fetches c found) = found.map fun q => (q.2.id, q.2.views.mergeAware) := by
  simp [fetchedObjects, Deed.fetches, List.filterMap_map]

/-- The entries inside of an activity. -/
def entriesOf : Journal Scripted → Journal Scripted
  | [.scope _ body] => body
  | _ => []

theorem sharingRun_report :
    (registeringIn sharingWorld).map (fun p => (p.1.toOption.map (·.detector.id), chainNames p.2.1,
      decide (p.2.2.Quiet Setup.base), fetchedObjects (Journal.deeds (entriesOf p.2.2)))) =
        some (some 5, ["eligibility-checker", "ordered", "aware",
          "inner-component-listener-detector"], true, [(4, true), (2, false), (2, false)]) := by
  decide +kernel

/-- The object that was there under two names is in the chain once, before the one that is shown
definitions. -/
theorem sharingRun_chain :
    ∃ reg w' j, ∃ found : Findings Scripted, registeringIn sharingWorld = some (.ok reg, w', j) ∧
      chainNames w' = ["eligibility-checker", "ordered", "aware",
        "inner-component-listener-detector"] ∧
      found.inOrder.map (fun q => (q.2.id, q.2.views.mergeAware)) =
        [(4, true), (2, false), (2, false)] ∧
      (w'.registries.get Setup.base).interceptors =
        keepLast ((sharingWorld.registries.get Setup.base).interceptors ++ [reg.checker] ++
          found.ranked Comparator.standard ++
            (found.moved Comparator.standard ++ [reg.detector])) ∧
      ∀ e ∈ found.ranked Comparator.standard, e.views.mergeAware = true →
        ∀ x ∈ found.ranked Comparator.standard, x.views.mergeAware = false →
          [x.id, e.id].Sublist ((w'.registries.get Setup.base).interceptors.map (·.id)) := by
  obtain ⟨⟨result, w', j⟩, hrun, hreport⟩ := Option.map_eq_some_iff.1 sharingRun_report
  simp only [Prod.mk.injEq] at hreport
  obtain ⟨hid, hnames, hquiet, hobjects⟩ := hreport
  cases result with
  | error e => cases hid
  | ok reg =>
    have hids : ((sharingWorld.registries.get Setup.base).interceptors.map (·.id)).Nodup := by
      decide +kernel
    obtain ⟨found, id, body, rfl, hdeeds, -, -, hdetector, hchain, -, -, horder⟩ :=
      final_chain behaviour 3 (.direct Setup.base) Setup.context (List.pairwise_map.1 hids)
        hrun (of_decide_eq_true hquiet)
    have hfound : found.inOrder.map (fun q => (q.2.id, q.2.views.mergeAware)) =
        [(4, true), (2, false), (2, false)] := by
      rw [← fetchedObjects_fetches .lifecycleInterceptor, ← hdeeds]
      exact hobjects
    have hsorter : (View.direct Setup.base).sorter
        (sharingWorld.registries.get (View.direct Setup.base).registry) = Comparator.standard := by
      have hnone : (sharingWorld.registries.get Setup.base).comparator?.isNone = true := by
        decide +kernel
      have hchoice : (sharingWorld.registries.get (View.direct Setup.base).registry).comparator? =
          none := Option.isNone_iff_eq_none.1 hnone
      rw [View.sorter, hchoice]
      rfl
    rw [hsorter] at hchain horder
    have hknown : ∀ a ∈ found.ranked Comparator.standard ++ [reg.detector],
        (a.id, a.views.mergeAware) ∈ [(4, true), (2, false), (2, false), (5, true)] := by
      intro a ha
      rcases List.mem_append.1 ha with hranked | hend
      · obtain ⟨q, hq, rfl⟩ := List.mem_map.1 (Findings.mem_ranked.1 hranked)
        have hmem : (q.2.id, q.2.views.mergeAware) ∈ [(4, true), (2, false), (2, false)] := by
          rw [← hfound]
          exact List.mem_map_of_mem hq
        exact List.mem_append_left [(5, true)] hmem
      · have hfive : reg.detector.id = 5 := Option.some.inj hid
        rw [List.mem_singleton.1 hend, hfive, hdetector]
        simp [Detector.extension]
    have htable : ∀ p ∈ [(4, true), (2, false), (2, false), (5, true)],
        ∀ q ∈ [(4, true), (2, false), (2, false), (5, true)], p.1 = q.1 → p.2 = q.2 := by
      decide
    refine ⟨reg, w', _, found, hrun, hnames, hfound, hchain, horder ?_⟩
    intro a ha x hx hsame
    exact htable _ (hknown a ha) _ (hknown x hx) hsame

end Scenario

end Startup
