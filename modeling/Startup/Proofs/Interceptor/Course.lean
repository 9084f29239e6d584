import Startup.Proofs.Pipeline.Callbacks
import Startup.Proofs.Registry.Installed
import Startup.Proofs.Registry.Queries
import Startup.Proofs.Interceptor.Delegation

/-!
The course of a registration of interceptors. All that a registration does itself is to look at
the registry, to fetch components and to install interceptors; definitions are changed, and other
interceptors installed, by callbacks only.

Main statements: `View.divide_ok`, that names are divided by the tiers that were declared when the
registration began, as long as callbacks change no definitions; `Registration.installNamed_ok`, what
a registration then installs.
-/

namespace Startup

variable {H : Host} {σ : Type}

/-! ## Attempts that succeed -/

namespace Attempt

variable {ε ε' α β : Type} {w w' : World H σ} {j : Journal H}

theorem bind_eq_ok {x : Attempt H σ ε α} {f : α → Attempt H σ ε β} {b : β}
    (h : (x >>= f).run w = some (.ok b, w', j)) :
    ∃ a w₁ j₁ j₂, x.run w = some (.ok a, w₁, j₁) ∧ (f a).run w₁ = some (.ok b, w', j₂) ∧
      j = j₁ ++ j₂ := by
  obtain ⟨e, hb, -⟩ | hboth := Attempt.bind_eq_some h
  · cases hb
  · exact hboth

theorem always_bind_eq_some {x : Run H σ α} {f : α → Attempt H σ ε β} {r : Except ε β} :
    (always x >>= f).run w = some (r, w', j) ↔
      ∃ a w₁ j₁ j₂, x w = some (a, w₁, j₁) ∧ (f a).run w₁ = some (r, w', j₂) ∧ j = j₁ ++ j₂ := by
  rw [run_bind_always]
  exact Run.bind_eq_some

theorem blame_eq_some {f : ε → ε'} {x : Attempt H σ ε α} {r : Except ε' α}
    (h : (x.blame f).run w = some (r, w', j)) :
    ∃ a, x.run w = some (a, w', j) ∧ r = a.mapError f := by
  have hmap : (x.run >>= fun a => pure (a.mapError f)) w = some (r, w', j) := by
    rw [bind_pure_comp]
    exact h
  obtain ⟨a, w₁, j₁, j₂, hx, hpure, rfl⟩ := Run.bind_eq_some.1 hmap
  obtain ⟨rfl, rfl, rfl⟩ := Run.pure_eq_some.1 hpure
  rw [List.append_nil]
  exact ⟨a, hx, rfl⟩

/-- A success has nobody to blame. -/
theorem blame_eq_ok {f : ε → ε'} {x : Attempt H σ ε α} {a : α}
    (h : (x.blame f).run w = some (.ok a, w', j)) : x.run w = some (.ok a, w', j) := by
  obtain ⟨r, hx, hr⟩ := blame_eq_some h
  cases r with
  | error e => cases hr
  | ok b =>
    cases hr
    exact hx

end Attempt

/-! ## Registries whose definitions are left alone -/

/-- Definitions and comparator are the same, and no singleton is missing. -/
structure Registry.Retains (s s' : Registry H) : Prop where
  definitions (n : ComponentName) : s'.definitions.get? n = s.definitions.get? n
  comparator : s'.comparator? = s.comparator?
  singletons (n : ComponentName) (i : Instance H) (hi : s.singletons.get? n = some i) :
    s'.singletons.get? n = some i

namespace Registry

variable {s s' s'' : Registry H} {n : ComponentName}

theorem Retains.trans (h : s.Retains s') (h' : s'.Retains s'') : s.Retains s'' where
  definitions n := (h'.definitions n).trans (h.definitions n)
  comparator := h'.comparator.trans h.comparator
  singletons n i hi := h'.singletons n i (h.singletons n i hi)

/-- What a listed name is declared to be stays as it is. -/
theorem Retains.isMatch (h : s.Retains s') {c : Capability} {all : Bool}
    (hn : n ∈ s.namesFor c all) (c' : Capability) : s'.isMatch n c' = s.isMatch n c' := by
  unfold Registry.isMatch
  rw [h.definitions n]
  cases hd : s.definitions.get? n with
  | some d => rfl
  | none =>
    obtain ⟨i, hi⟩ := singleton_of_listed hn hd
    simp only [singletonSupports, hi, h.singletons n i hi]

/-- The tier that a component is declared to be in. -/
def tierOf (s : Registry H) (n : ComponentName) : TierClass :=
  if s.isMatch n .priorityOrdered then .priority
  else if s.isMatch n .ordered then .ordered
  else .unordered

end Registry

/-- The comparator by which the holder of a view sorts. -/
def View.sorter (v : View) (s : Registry H) : Comparator H :=
  (if v.ordering then s.comparator? else none).getD Comparator.standard

theorem Registry.Retains.sorter {s s' : Registry H} (h : s.Retains s') (v : View) :
    v.sorter s' = v.sorter s := by
  rw [View.sorter, View.sorter, h.comparator]

theorem Moment.Evicts.revises {r : ObjectId} {n : ComponentName} {m : Moment H}
    (h : m.Evicts r n) : m.Revises r n := by
  cases m with
  | fact f =>
    cases f with
    | defined r' d overrides => exact ⟨h.1, h.2.1⟩
    | removed r' k => exact h
    | _ => exact h.elim
  | _ => exact h.elim

namespace Tracks

variable {α : Type} {r : ObjectId} {x : Run H σ α} {w w' : World H σ} {a : α} {j : Journal H}

/-- The chain after a run. -/
theorem chain (hx : Tracks r x) (hrun : x w = some (a, w', j))
    (h : Distinct (w.registries.get r).interceptors) :
    (w'.registries.get r).interceptors =
      keepLast ((w.registries.get r).interceptors ++ installs r (Journal.moments j)) := by
  obtain ⟨hlaw, hregistry, -⟩ := hx (.of (w.registries.get r)) w a w' j hrun rfl
  rw [← hregistry, hlaw.chain h]
  rfl

/-- No run puts an object into a chain twice. -/
theorem distinct (hx : Tracks r x) (hrun : x w = some (a, w', j))
    (h : Distinct (w.registries.get r).interceptors) :
    Distinct (w'.registries.get r).interceptors := by
  obtain ⟨hlaw, hregistry, -⟩ := hx (.of (w.registries.get r)) w a w' j hrun rfl
  rw [← hregistry]
  exact hlaw.distinct h

/-- A run that revises no definition. -/
theorem retains (hx : Tracks r x) (hrun : x w = some (a, w', j))
    (hj : ∀ n, Unrevised r n (Journal.moments j)) :
    (w.registries.get r).Retains (w'.registries.get r) := by
  obtain ⟨hlaw, hregistry, -⟩ := hx (.of (w.registries.get r)) w a w' j hrun rfl
  rw [← hregistry]
  refine ⟨fun n => Ledger.get?_after (hj n), hlaw.comparator, fun n i hi => ?_⟩
  exact (hlaw.keeps (fun m hm hevicts => hj n m hm hevicts.revises) hi).1

end Tracks

/-! ## Quiet callbacks -/

/-- An interceptor is installed in registry `r`, or a definition is put in or taken out. -/
def Moment.disturbs (r : ObjectId) : Moment H → Bool
  | .fact (.installed r' ..) | .fact (.defined r' ..) | .fact (.removed r' _) => r' = r
  | _ => false

/-- Inside of callbacks no interceptor is installed in registry `r`, and no definition changed. -/
def Journal.Quiet (r : ObjectId) (j : Journal H) : Prop :=
  ∀ m ∈ called j, m.disturbs r = false

instance (r : ObjectId) (j : Journal H) : Decidable (j.Quiet r) :=
  inferInstanceAs (Decidable (∀ m ∈ Journal.called j, m.disturbs r = false))

namespace Journal

variable {r : ObjectId} {j k : Journal H}

theorem quiet_append : Quiet r (j ++ k) ↔ Quiet r j ∧ Quiet r k := by
  unfold Quiet
  rw [called_append]
  exact List.forall_mem_append

theorem quiet_scope {s : Scope H} (hs : s.isCall = false) : Quiet r [.scope s j] ↔ Quiet r j := by
  unfold Quiet
  rw [called_scope hs]

theorem quiet_fact {f : Fact H} : Quiet r (.fact f :: j) ↔ Quiet r j := Iff.rfl

theorem Quiet.installs (h : j.Quiet r) : Startup.installs r (called j) = [] := by
  apply List.filterMap_eq_nil_iff.2
  intro m hm
  have hquiet := h m hm
  cases m with
  | fact f =>
    cases f with
    | installed r' e position => exact if_neg (by simpa [Moment.disturbs] using hquiet)
    | _ => rfl
  | _ => rfl

theorem Quiet.unrevised (h : j.Quiet r) (n : ComponentName) : Unrevised r n (called j) := by
  intro m hm hrevises
  have hquiet := h m hm
  obtain ⟨d, overrides, rfl, -⟩ | rfl := hrevises.eq
  · simp [Moment.disturbs] at hquiet
  · simp [Moment.disturbs] at hquiet

end Journal

theorem Journal.Delegates.unrevised {j : Journal H} (hj : j.Delegates) {r : ObjectId}
    {n : ComponentName} (h : Unrevised r n (Journal.called j)) :
    Unrevised r n (Journal.moments j) := by
  intro m hm hrevises
  obtain ⟨d, overrides, rfl, -⟩ | rfl := hrevises.eq
  · exact h _ (hj _ hm) hrevises
  · exact h _ (hj _ hm) hrevises

theorem Journal.Delegates.installs {j : Journal H} (hj : j.Delegates) {r : ObjectId}
    (h : installs r (Journal.called j) = []) : installs r (Journal.moments j) = [] := by
  apply List.filterMap_eq_nil_iff.2
  intro m hm
  cases m with
  | fact f => exact List.filterMap_eq_nil_iff.1 h _ (hj f hm)
  | _ => rfl

/-- What a run leaves alone that does everything in callbacks, if these are quiet. -/
theorem Tracks.retains_of_quiet {r : ObjectId} {α : Type} {x : Run H σ α} {w w' : World H σ}
    {a : α} {j : Journal H} (hx : Tracks r x) (hd : Run.Delegates x)
    (hrun : x w = some (a, w', j)) (hquiet : j.Quiet r) :
    (w.registries.get r).Retains (w'.registries.get r) ∧ installs r (Journal.moments j) = [] := by
  have hdelegates := hd w a w' j hrun
  exact ⟨hx.retains hrun fun n => hdelegates.unrevised (hquiet.unrevised n),
    hdelegates.installs hquiet.installs⟩

/-! ## Sorting and installing -/

theorem View.sort_eq_some {v : View} {l sorted : List (Extension H)} {w w' : World H σ}
    {j : Journal H} (h : v.sort l w = some (sorted, w', j)) :
    sorted = (v.sorter (w.registries.get v.registry)).sortBy l ∧ w' = w ∧ j.Notes ∧
      ∀ r, installs r (Journal.moments j) = [] := by
  unfold View.sort at h
  split at h <;> rename_i hlength
  · cases h
    refine ⟨?_, rfl, .nil, fun r => rfl⟩
    rcases l with _ | ⟨e, _ | ⟨e', rest⟩⟩
    · rfl
    · rfl
    · simp at hlength
  · obtain ⟨c, w₁, j₁, j₂, hask, hrest, rfl⟩ := Run.bind_eq_some.1 h
    have hanswer : some ((if v.ordering then (w.registries.get v.registry).comparator? else none),
        w, []) = some (c, w₁, j₁) := hask
    simp only [Option.some.injEq, Prod.mk.injEq] at hanswer
    obtain ⟨hc, rfl, rfl⟩ := hanswer
    rw [View.sorter, hc]
    cases c with
    | none =>
      cases hrest
      exact ⟨rfl, rfl, .nil, fun r => rfl⟩
    | some c =>
      cases hrest
      exact ⟨rfl, rfl, .cons trivial .nil, fun r => rfl⟩

/-- The moments of one installation. -/
theorem installs_install (v : View) (e : Extension H) (position : Nat) :
    installs v.registry (Journal.moments [.fact (.installing v e),
      .fact (.installed v.registry e position)]) = [e] := by
  have hinstalled : Moment.installed? v.registry (.fact (.installed v.registry e position)) =
      some e := if_pos rfl
  show List.filterMap _ [_, _] = _
  rw [List.filterMap_cons_none rfl, List.filterMap_cons_some hinstalled, List.filterMap_nil]

/-- Of some extensions the interceptors are installed. -/
theorem View.installAll_eq_some {v : View} {es : List (Extension H)} {w w' : World H σ} {u : Unit}
    {j : Journal H} (h : v.installAll es w = some (u, w', j)) :
    j.Notes ∧ installs v.registry (Journal.moments j) = es.filter (·.views.interceptor) := by
  induction es generalizing w j with
  | nil =>
    cases h
    exact ⟨.nil, rfl⟩
  | cons e rest ih =>
    unfold View.installAll at h
    split at h <;> rename_i he
    · obtain ⟨_, w₁, j₁, j₂, hfirst, hrest, rfl⟩ := Run.bind_eq_some.1 h
      obtain ⟨hnotes, hinstalls⟩ := ih hrest
      rw [View.install_run, if_pos he] at hfirst
      cases hfirst
      refine ⟨.append (.cons trivial (.cons trivial .nil)) hnotes, ?_⟩
      rw [Journal.moments_append, installs_append, hinstalls, installs_install]
      simp [he]
    · obtain ⟨_, w₁, j₁, j₂, hfirst, hrest, rfl⟩ := Run.bind_eq_some.1 h
      obtain ⟨hnotes, hinstalls⟩ := ih hrest
      cases hfirst
      refine ⟨.append (.cons trivial .nil) hnotes, ?_⟩
      rw [Journal.moments_append, installs_append, hinstalls]
      simp [he, Journal.moments, Event.moments, installs, Moment.installed?]

namespace Registration

variable {v : View} {w w' : World H σ} {j : Journal H}

/-- A sorted tier is installed, as far as it consists of interceptors. -/
theorem installTier_eq_some {t : TierClass} {tier sorted : List (Extension H)}
    (h : installTier v t tier w = some (sorted, w', j)) :
    sorted = (v.sorter (w.registries.get v.registry)).sortBy tier ∧ j.Notes ∧
      installs v.registry (Journal.moments j) = sorted.filter (·.views.interceptor) := by
  obtain ⟨l, w₁, j₁, j₂, hsort, hnoted, rfl⟩ := Run.bind_eq_some.1 h
  obtain ⟨rfl, rfl, hnotes, hnone⟩ := View.sort_eq_some hsort
  obtain ⟨_, w₂, j₃, j₄, hrecord, hinstalled, rfl⟩ := Run.bind_eq_some.1 hnoted
  obtain ⟨_, w₃, j₅, j₆, hinstall, hpure, rfl⟩ := Run.bind_eq_some.1 hinstalled
  obtain ⟨rfl, rfl, rfl⟩ := Run.pure_eq_some.1 hpure
  obtain ⟨hnotes', hinstalls⟩ := View.installAll_eq_some hinstall
  cases hrecord
  rw [List.append_nil, Journal.moments_append, installs_append, hnone]
  exact ⟨rfl, hnotes.append (.cons trivial hnotes'), hinstalls⟩

/-- Interceptors are installed once more, sorted. -/
theorem relocate_eq_some {es : List (Extension H)} {u : Unit}
    (h : relocate v es w = some (u, w', j)) :
    j.Notes ∧ installs v.registry (Journal.moments j) =
      ((v.sorter (w.registries.get v.registry)).sortBy es).filter (·.views.interceptor) := by
  obtain ⟨l, w₁, j₁, j₂, hsort, hnoted, rfl⟩ := Run.bind_eq_some.1 h
  obtain ⟨rfl, rfl, hnotes, hnone⟩ := View.sort_eq_some hsort
  obtain ⟨_, w₂, j₃, j₄, hrecord, hinstall, rfl⟩ := Run.bind_eq_some.1 hnoted
  obtain ⟨hnotes', hinstalls⟩ := View.installAll_eq_some hinstall
  cases hrecord
  rw [Journal.moments_append, installs_append, hnone]
  exact ⟨hnotes.append (.cons trivial hnotes'), hinstalls⟩

end Registration

/-! ## Tiers, as they were declared -/

section Tiers

variable {call : Call H σ} {v : View} {s : Registry H} {w w' : World H σ} {j : Journal H}

theorem View.isMatch_bind {ε α : Type} (v : View) (n : ComponentName) (c : Capability)
    (f : Bool → Attempt H σ ε α) (w : World H σ) :
    (Attempt.always (v.isMatch n c) >>= f).run w =
      (f ((w.registries.get v.registry).isMatch n c)).run w := by
  rw [Attempt.run_bind_always, View.isMatch, bind_assoc, Run.registry, Run.ask_bind, pure_bind]

/-- What a fetch gives that succeeds. -/
theorem View.fetch_ok {n : ComponentName} {c : Capability} {e : Extension H}
    (h : (v.fetch call n c).run w = some (.ok e, w', j)) :
    e.supports c = true ∧ Journal.deeds j = [.fetched n c (.ok e)] :=
  v.fetch_leaves call n c w _ w' j h

/-- Names are divided by the tiers that were declared in the beginning, if callbacks change no
definitions meanwhile. -/
theorem View.divide_ok (hc : Closed call (fun {α} (x : Run H σ α) => Tracks v.registry x))
    {c : Capability} {all : Bool} {names : List ComponentName} {t : Tiers H}
    (hnames : ∀ n ∈ names, n ∈ s.namesFor c all) (hs : s.Retains (w.registries.get v.registry))
    (h : (v.divide call c (fun _ => false) names).run w = some (.ok t, w', j))
    (hquiet : j.Quiet v.registry) :
    ∃ found : List (ComponentName × Extension H), t.priority = found.map Prod.snd ∧
      found.map Prod.fst = names.filter (fun n => s.tierOf n = .priority) ∧
      t.ordered = names.filter (fun n => s.tierOf n = .ordered) ∧
      t.unordered = names.filter (fun n => s.tierOf n = .unordered) ∧
      Journal.deeds j = Deed.fetches c found ∧ ∀ q ∈ found, q.2.supports c = true := by
  induction names generalizing w j t with
  | nil =>
    cases h
    exact ⟨[], rfl, rfl, rfl, rfl, rfl, fun _ hq => absurd hq List.not_mem_nil⟩
  | cons n rest ih =>
    obtain ⟨hn, hrest⟩ := List.forall_mem_cons.1 hnames
    unfold View.divide at h
    simp only [Bool.false_eq_true, if_false] at h
    rw [View.isMatch_bind, hs.isMatch hn] at h
    split at h <;> rename_i hpriority
    · obtain ⟨e, w₁, j₁, j₂, hfetch, htail, rfl⟩ := Attempt.bind_eq_ok h
      obtain ⟨t', w₂, j₃, j₄, hdivide, hpure, rfl⟩ := Attempt.bind_eq_ok htail
      cases hpure
      obtain ⟨hquiet₁, hquiet₂⟩ := Journal.quiet_append.1 hquiet
      obtain ⟨hquiet₃, -⟩ := Journal.quiet_append.1 hquiet₂
      obtain ⟨hretains, -⟩ :=
        (hc.fetch v n c).retains_of_quiet (View.fetch_delegates v n c) hfetch hquiet₁
      obtain ⟨found, hfound, hnamed, hordered, hunordered, hdeeds, hall⟩ :=
        ih hrest (hs.trans hretains) hdivide hquiet₃
      obtain ⟨hsupports, hdeed⟩ := View.fetch_ok hfetch
      have htier : s.tierOf n = .priority := by rw [Registry.tierOf, if_pos hpriority]
      refine ⟨(n, e) :: found, by simp [hfound], by simp [htier, hnamed], by simp [htier, hordered],
        by simp [htier, hunordered], ?_, List.forall_mem_cons.2 ⟨hsupports, hall⟩⟩
      rw [List.append_nil, Journal.deeds_append, hdeed, hdeeds]
      rfl
    · rw [View.isMatch_bind, hs.isMatch hn] at h
      split at h <;> rename_i hordered
      · obtain ⟨t', w₁, j₁, j₂, hdivide, hpure, rfl⟩ := Attempt.bind_eq_ok h
        cases hpure
        rw [List.append_nil] at hquiet ⊢
        obtain ⟨found, hfound, hnamed, hordereds, hunordered, hdeeds, hall⟩ :=
          ih hrest hs hdivide hquiet
        have htier : s.tierOf n = .ordered := by
          rw [Registry.tierOf, if_neg hpriority, if_pos hordered]
        exact ⟨found, hfound, by simp [htier, hnamed], by simp [htier, hordereds],
          by simp [htier, hunordered], hdeeds, hall⟩
      · obtain ⟨t', w₁, j₁, j₂, hdivide, hpure, rfl⟩ := Attempt.bind_eq_ok h
        cases hpure
        rw [List.append_nil] at hquiet ⊢
        obtain ⟨found, hfound, hnamed, hordereds, hunordered, hdeeds, hall⟩ :=
          ih hrest hs hdivide hquiet
        have htier : s.tierOf n = .unordered := by
          rw [Registry.tierOf, if_neg hpriority, if_neg hordered]
        exact ⟨found, hfound, by simp [htier, hnamed], by simp [htier, hordereds],
          by simp [htier, hunordered], hdeeds, hall⟩

end Tiers

/-! ## What a registration installs -/

/-- Interceptors with the names under which they were found, by the tiers of these. -/
def Findings (H : Host) := TierClass → List (ComponentName × Extension H)

namespace Findings

/-- What was found in three tiers. -/
def ofTiers (priority ordered unordered : List (ComponentName × Extension H)) : Findings H
  | .priority => priority
  | .ordered => ordered
  | .unordered => unordered

variable (found : Findings H) (c : Comparator H)

/-- In the order of their creation. -/
def inOrder : List (ComponentName × Extension H) :=
  found .priority ++ found .ordered ++ found .unordered

/-- A tier, sorted. -/
def tier (t : TierClass) : List (Extension H) := c.sortBy ((found t).map Prod.snd)

/-- The tiers, each of them sorted, one after the other. -/
def ranked : List (Extension H) :=
  found.tier c .priority ++ found.tier c .ordered ++ found.tier c .unordered

/-- Those that are shown definitions, sorted. -/
def moved : List (Extension H) := c.sortBy ((found.ranked c).filter (·.views.mergeAware))

variable {found c}

theorem mem_tier {t : TierClass} {e : Extension H} :
    e ∈ found.tier c t ↔ e ∈ (found t).map Prod.snd := (Comparator.sortBy_perm c _).mem_iff

theorem mem_ranked {e : Extension H} : e ∈ found.ranked c ↔ e ∈ found.inOrder.map Prod.snd := by
  simp only [ranked, inOrder, List.mem_append, List.map_append, mem_tier]

theorem mem_moved {e : Extension H} :
    e ∈ found.moved c ↔ e ∈ found.ranked c ∧ e.views.mergeAware = true := by
  rw [moved, (Comparator.sortBy_perm c _).mem_iff, List.mem_filter]

end Findings

namespace Registration

variable {call : Call H σ} {v : View} {s : Registry H} {w w' : World H σ} {j : Journal H}

/-- A tier is fetched by its names. -/
theorem fetchTier_ok (hc : Closed call (fun {α} (x : Run H σ α) => Tracks v.registry x))
    {names : List ComponentName} {es : List (Extension H)}
    (hs : s.Retains (w.registries.get v.registry))
    (h : (fetchTier call v names).run w = some (.ok es, w', j)) (hquiet : j.Quiet v.registry) :
    s.Retains (w'.registries.get v.registry) ∧ installs v.registry (Journal.moments j) = [] ∧
      ∃ found : List (ComponentName × Extension H), es = found.map Prod.snd ∧
        found.map Prod.fst = names ∧
        (∀ q ∈ found, q.2.supports .lifecycleInterceptor = true) ∧
        Journal.deeds j = Deed.fetches .lifecycleInterceptor found := by
  have hfetch := Attempt.blame_eq_ok h
  obtain ⟨hretains, hnone⟩ := (hc.fetchAll v .lifecycleInterceptor names).retains_of_quiet
    (View.fetchAll_delegates v _ names) hfetch hquiet
  exact ⟨hs.trans hretains, hnone, v.fetchAll_leaves call _ names w _ w' j hfetch⟩

/-- A tier of interceptors is installed, sorted. -/
theorem installTier_ok (hc : Closed call (fun {α} (x : Run H σ α) => Tracks v.registry x))
    {t : TierClass} {found : List (ComponentName × Extension H)} {sorted : List (Extension H)}
    (hall : ∀ q ∈ found, q.2.supports .lifecycleInterceptor = true)
    (hs : s.Retains (w.registries.get v.registry))
    (h : installTier v t (found.map Prod.snd) w = some (sorted, w', j)) :
    s.Retains (w'.registries.get v.registry) ∧
      sorted = (v.sorter s).sortBy (found.map Prod.snd) ∧ j.Notes ∧
      installs v.registry (Journal.moments j) = sorted := by
  obtain ⟨hsorted, hnotes, hinstalls⟩ := installTier_eq_some h
  rw [hs.sorter v] at hsorted
  have hinterceptors : ∀ e ∈ sorted, e.views.interceptor = true := by
    intro e he
    rw [hsorted, (Comparator.sortBy_perm _ _).mem_iff] at he
    obtain ⟨q, hq, rfl⟩ := List.mem_map.1 he
    exact hall q hq
  rw [List.filter_eq_self.2 hinterceptors] at hinstalls
  have hretains := (hc.installTier v t _).retains h (hnotes.unrevised v.registry)
  exact ⟨hs.trans hretains, hsorted, hnotes, hinstalls⟩

/-- What is installed by name, if callbacks are quiet: tier after tier what was found, each tier
sorted. -/
theorem installNamed_ok (hc : Closed call (fun {α} (x : Run H σ α) => Tracks v.registry x))
    {all : Bool} {names : List ComponentName} {es : List (Extension H)}
    (hnames : ∀ n ∈ names, n ∈ s.namesFor .lifecycleInterceptor all)
    (hs : s.Retains (w.registries.get v.registry))
    (h : (installNamed call v names).run w = some (.ok es, w', j))
    (hquiet : j.Quiet v.registry) :
    s.Retains (w'.registries.get v.registry) ∧ ∃ found : Findings H,
      (∀ t, (found t).map Prod.fst = names.filter (fun n => s.tierOf n = t)) ∧
      (∀ q ∈ found.inOrder, q.2.supports .lifecycleInterceptor = true) ∧
      Journal.deeds j = Deed.fetches .lifecycleInterceptor found.inOrder ∧
      es = found.ranked (v.sorter s) ∧ installs v.registry (Journal.moments j) = es := by
  obtain ⟨t, w₁, j₁, k₁, hdivide, h₁, rfl⟩ := Attempt.bind_eq_ok h
  obtain ⟨_, w₂, j₂, k₂, hpriority, h₂, rfl⟩ := Attempt.always_bind_eq_some.1 h₁
  obtain ⟨_, w₃, j₃, k₃, hfetchO, h₃, rfl⟩ := Attempt.bind_eq_ok h₂
  obtain ⟨_, w₄, j₄, k₄, hordered, h₄, rfl⟩ := Attempt.always_bind_eq_some.1 h₃
  obtain ⟨_, w₅, j₅, k₅, hfetchU, h₅, rfl⟩ := Attempt.bind_eq_ok h₄
  obtain ⟨_, w₆, j₆, k₆, hrest, hpure, rfl⟩ := Attempt.always_bind_eq_some.1 h₅
  cases hpure
  simp only [Journal.quiet_append] at hquiet
  obtain ⟨hquiet₁, -, hquiet₃, -, hquiet₅, -⟩ := hquiet
  have hdivided := Attempt.blame_eq_ok hdivide
  obtain ⟨P, hP, hPnames, hO, hU, hPdeeds, hPall⟩ :=
    View.divide_ok hc hnames hs hdivided hquiet₁
  obtain ⟨hretains, hnone₁⟩ := (hc.divide v _ _ names).retains_of_quiet
    (View.divide_delegates v _ _ names) hdivided hquiet₁
  rw [hP] at hpriority
  obtain ⟨hs₂, rfl, hnotes₂, hinstalls₂⟩ :=
    installTier_ok hc hPall (hs.trans hretains) hpriority
  obtain ⟨hs₃, hnone₃, O, rfl, hOnames, hOall, hOdeeds⟩ := fetchTier_ok hc hs₂ hfetchO hquiet₃
  obtain ⟨hs₄, rfl, hnotes₄, hinstalls₄⟩ := installTier_ok hc hOall hs₃ hordered
  obtain ⟨hs₅, hnone₅, U, rfl, hUnames, hUall, hUdeeds⟩ := fetchTier_ok hc hs₄ hfetchU hquiet₅
  obtain ⟨hs₆, rfl, hnotes₆, hinstalls₆⟩ := installTier_ok hc hUall hs₅ hrest
  refine ⟨hs₆, .ofTiers P O U, fun t => ?_, ?_, ?_, rfl, ?_⟩
  · cases t with
    | priority => exact hPnames
    | ordered => rw [← hO]; exact hOnames
    | unordered => rw [← hU]; exact hUnames
  · exact List.forall_mem_append.2 ⟨List.forall_mem_append.2 ⟨hPall, hOall⟩, hUall⟩
  · simp only [Journal.deeds_append, hPdeeds, hOdeeds, hUdeeds, hnotes₂.deeds, hnotes₄.deeds,
      hnotes₆.deeds, List.nil_append]
    simp [Findings.ofTiers, Findings.inOrder, Deed.fetches, Journal.deeds]
  · simp only [Journal.moments_append, installs_append, hnone₁, hnone₃, hnone₅, hinstalls₂,
      hinstalls₄, hinstalls₆, List.nil_append]
    simp [Journal.moments, installs]

end Registration

/-! ## The steps of a registration -/

/-- The checker with a given identity. -/
def Checker.extension (id : ObjectId) : Extension H :=
  { id, name := Checker.extensionName, tier := .unordered, views := { interceptor := true },
    body := .checker }

/-- The detector with a given identity. -/
def Detector.extension (id : ObjectId) : Extension H :=
  { id, name := Detector.extensionName, tier := .unordered,
    views := { interceptor := true, mergeAware := true }, body := .detector }

/-- The world in which there is a new checker, which expects `target` interceptors. -/
def World.withChecker (w : World H σ) (target : Nat) : World H σ :=
  { w with next := w.next + 1, checkers := w.checkers.set w.next { target } }

/-- The world in which there is a new detector, which offers listeners to `context`. -/
def World.withDetector (w : World H σ) (context : ObjectId) : World H σ :=
  { w with next := w.next + 1, detectors := w.detectors.set w.next { context } }

namespace Registration

variable {call : Call H σ} {v : View} {context : ObjectId} {w w' : World H σ} {j : Journal H}

/-- The steps that come after the checker was made. -/
def furnish (call : Call H σ) (v : View) (context : ObjectId) (names : List ComponentName)
    (target : Nat) (checker : Extension H) : Attempt H σ ExtensionError (Registration H) := do
  Attempt.always (v.install checker)
  let installed ← installNamed call v names
  Attempt.always (relocate v (installed.filter (·.views.mergeAware)))
  let detector ← Attempt.always (Detector.create context)
  Attempt.always (v.install detector)
  let total ← Attempt.always v.interceptorCount
  Attempt.always (Run.record (.registrationDone total))
  return { checker, detector, target }

/-- The names that a registration finds. -/
def discovered (s : Registry H) : List ComponentName := s.namesFor .lifecycleInterceptor true

/-- The number of interceptors that a registration expects in the end. -/
def expected (s : Registry H) : Nat := s.interceptors.length + 1 + (discovered s).length

/-- A registration counts, and makes its checker with what it counted. -/
theorem registerInterceptors_eq_some
    {result : Except ExtensionError (Registration H)}
    (h : (v.registerInterceptors call context).run w = some (result, w', j)) :
    ∃ body, (furnish call v context (discovered (w.registries.get v.registry))
        (expected (w.registries.get v.registry)) (Checker.extension w.next)).run
          (w.withChecker (expected (w.registries.get v.registry))) = some (result, w', body) ∧
      j = [.scope (.registration v context (View.error? result))
        (.fact (.querying v .lifecycleInterceptor true false) ::
          .fact (.registrationStarted (discovered (w.registries.get v.registry)).length
            (expected (w.registries.get v.registry))) :: body)] := by
  rw [View.registerInterceptors, Attempt.within, Attempt.run_of] at h
  obtain ⟨j', hsteps, rfl⟩ := Run.within_eq_some.1 h
  obtain ⟨_, w₁, j₁, k₁, hnames, h₁, rfl⟩ := Attempt.always_bind_eq_some.1 hsteps
  cases hnames
  obtain ⟨_, w₂, j₂, k₂, hcount, h₂, rfl⟩ := Attempt.always_bind_eq_some.1 h₁
  cases hcount
  obtain ⟨_, w₃, j₃, k₃, hrecord, h₃, rfl⟩ := Attempt.always_bind_eq_some.1 h₂
  cases hrecord
  obtain ⟨_, w₄, j₄, k₄, hchecker, h₄, rfl⟩ := Attempt.always_bind_eq_some.1 h₃
  cases hchecker
  exact ⟨k₄, h₄, rfl⟩

/-- The entries that come first after the checker was made: it is installed itself. -/
def installedChecker (s : Registry H) (v : View) (checker : Extension H) : Journal H :=
  [.fact (.installing v checker), .fact (.installed v.registry checker
    ((s.install checker).interceptors.length - 1))]

theorem installedChecker_notes (s : Registry H) (v : View) (checker : Extension H) :
    (installedChecker s v checker).Notes :=
  .cons trivial (.cons trivial .nil)

theorem installs_installedChecker (s : Registry H) (v : View) (checker : Extension H) :
    installs v.registry (Journal.moments (installedChecker s v checker)) = [checker] :=
  installs_install v checker _

/-- What comes after the checker was made. The registration fails just when an interceptor cannot
be had; otherwise it goes on by itself, with notes about what it does. -/
theorem furnish_eq_some {names : List ComponentName} {target : Nat} {checker : Extension H}
    {result : Except ExtensionError (Registration H)} (hview : checker.views.interceptor = true)
    (h : (furnish call v context names target checker).run w = some (result, w', j)) :
    ∃ a w₁ j₁ k, (installNamed call v names).run (w.setRegistry v.registry
        ((w.registries.get v.registry).install checker)) = some (a, w₁, j₁) ∧
      j = installedChecker (w.registries.get v.registry) v checker ++ (j₁ ++ k) ∧ k.Notes ∧
      ((∃ e, a = .error e ∧ result = .error e ∧ w' = w₁ ∧ k = []) ∨
        ∃ es, ∃ w₂ : World H σ, a = .ok es ∧
          result = .ok { checker, detector := Detector.extension w₂.next, target } ∧
          w' = (w₂.withDetector context).setRegistry v.registry
            ((w₂.registries.get v.registry).install (Detector.extension w₂.next)) ∧
          installs v.registry (Journal.moments k) =
            ((v.sorter (w₁.registries.get v.registry)).sortBy
              (es.filter (·.views.mergeAware))).filter (·.views.interceptor) ++
                [Detector.extension w₂.next]) := by
  obtain ⟨_, w₁, j₁, k₁, hchecker, h₁, rfl⟩ := Attempt.always_bind_eq_some.1 h
  rw [View.install_run, if_pos hview] at hchecker
  cases hchecker
  obtain ⟨e, rfl, hfailed⟩ | ⟨es, w₂, j₂, k₂, hnamed, h₂, rfl⟩ := Attempt.bind_eq_some h₁
  · exact ⟨.error e, w', k₁, [], hfailed, by rw [List.append_nil]; rfl, .nil,
      .inl ⟨e, rfl, rfl, rfl, rfl⟩⟩
  · obtain ⟨_, w₃, j₃, k₃, hmoved, h₃, rfl⟩ := Attempt.always_bind_eq_some.1 h₂
    obtain ⟨hnotes, hinstalls⟩ := relocate_eq_some hmoved
    obtain ⟨_, w₄, j₄, k₄, hcreated, h₄, rfl⟩ := Attempt.always_bind_eq_some.1 h₃
    cases hcreated
    obtain ⟨_, w₅, j₅, k₅, hinstalled, h₅, rfl⟩ := Attempt.always_bind_eq_some.1 h₄
    rw [View.install_run, if_pos rfl] at hinstalled
    cases hinstalled
    obtain ⟨_, w₆, j₆, k₆, hcount, h₆, rfl⟩ := Attempt.always_bind_eq_some.1 h₅
    cases hcount
    obtain ⟨_, w₇, j₇, k₇, hdone, hpure, rfl⟩ := Attempt.always_bind_eq_some.1 h₆
    cases hdone
    cases hpure
    refine ⟨.ok es, w₂, j₂, _, hnamed, rfl, ?_, .inr ⟨es, w₃, rfl, rfl, rfl, ?_⟩⟩
    · exact hnotes.append (.cons trivial (.cons trivial (.cons trivial .nil)))
    · rw [Journal.moments_append, installs_append, hinstalls]
      show _ ++ installs v.registry (Journal.moments ([_, _] ++ [_])) = _
      rw [Journal.moments_append, installs_append, installs_install]
      rfl

/-- What a registration leaves behind when it succeeds. -/
theorem eq_of_ok {reg : Registration H}
    (h : (v.registerInterceptors call context).run w = some (.ok reg, w', j)) :
    ∃ id, reg =
      { checker := Checker.extension w.next
        detector := Detector.extension id
        target := expected (w.registries.get v.registry) } := by
  obtain ⟨body, hfurnish, -⟩ := registerInterceptors_eq_some h
  obtain ⟨a, w₁, j₁, k, -, -, -, ⟨e, -, hfailed, -⟩ | ⟨es, w₂, -, hreg, -⟩⟩ :=
    furnish_eq_some rfl hfurnish
  · cases hfailed
  · exact ⟨w₂.next, Except.ok.inj hreg⟩

end Registration

end Startup
