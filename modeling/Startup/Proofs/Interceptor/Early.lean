import Startup.Proofs.Interceptor.FinalChain
import Startup.Proofs.Interceptor.Watch

/-!
Components that are created while a registration is under way. The checker is installed before
anything is fetched, and of the interceptors that are expected there is always one missing as long
as there is something left to fetch, so the checker notes every component that passes it.

Main statement: `early_noted`, for a registration that ends in whatever way, as long as callbacks
install no interceptors. The count behind it is `Registration.furnish_early`.
-/

namespace Startup

variable {H : Host} {σ : Type}

/-! ## Counting installations -/

namespace Ledger

variable {r : ObjectId} {l : Ledger H}

/-- A chain gets longer by no more than what is installed. -/
theorem Lawful.length_le {ms : List (Moment H)} (hlaw : l.Lawful r ms) :
    (l.after r ms).registry.interceptors.length ≤
      l.registry.interceptors.length + (installs r ms).length := by
  induction ms generalizing l with
  | nil => exact Nat.le_refl _
  | cons m ms ih =>
    obtain ⟨hm, hrest⟩ := hlaw
    have hnext := (step hm).interceptors
    have hle := ih hrest
    rw [after_cons]
    cases hi : m.installed? r with
    | none =>
      rw [hi] at hnext
      rw [hnext] at hle
      rw [installs, List.filterMap_cons_none hi]
      exact hle
    | some e =>
      rw [hi] at hnext
      have hinstall : (l.next r m).registry.interceptors.length ≤
          l.registry.interceptors.length + 1 := by
        rw [hnext]
        simp only [Registry.install, List.length_append, List.length_singleton]
        exact Nat.succ_le_succ (List.length_filter_le _ _)
      rw [installs, List.filterMap_cons_some hi, List.length_cons]
      simp only [installs] at hle
      omega

end Ledger

/-- Before each activity fewer than `k` interceptors have been installed in registry `r`. -/
def Journal.Early (r : ObjectId) (k : Nat) (j : Journal H) : Prop :=
  ∀ past s body, Occurs (.scope s body) past j → (installs r past).length < k

namespace Journal

variable {r : ObjectId} {j j' : Journal H} {k k' : Nat}

theorem Early.nil : Early r k ([] : Journal H) := fun _ _ _ hoccurs => nomatch hoccurs

theorem Early.mono (h : Early r k j) (hk : k ≤ k') : Early r k' j :=
  fun past s body hoccurs => Nat.lt_of_lt_of_le (h past s body hoccurs) hk

/-- Among notes there is no activity. -/
theorem Notes.not_occurs (h : Notes j) {past : List (Moment H)} {s : Scope H} {body : Journal H} :
    ¬ Occurs (.scope s body) past j := by
  intro hoccurs
  obtain ⟨f, hf⟩ := hoccurs.of_facts fun e he => (h e he).imp fun _ hf => hf.1
  cases hf

theorem Notes.early (h : Notes j) : Early r k j :=
  fun _ _ _ hoccurs => absurd hoccurs h.not_occurs

/-- What comes later may be preceded by what was installed before. -/
theorem Early.append (hj : Early r k j) (hj' : Early r k' j')
    (hk : (installs r (moments j)).length + k' ≤ k) : Early r k (j ++ j') := by
  intro past s body hoccurs
  rcases hoccurs.of_append with hfirst | ⟨past', rfl, hsecond⟩
  · exact hj past s body hfirst
  · have hlater := hj' past' s body hsecond
    rw [installs_append, List.length_append]
    omega

/-- Notes that follow are no activities. -/
theorem Early.append_notes (hj : Early r k j) (hj' : Notes j') : Early r k (j ++ j') := by
  intro past s body hoccurs
  rcases hoccurs.of_append with hfirst | ⟨past', -, hsecond⟩
  · exact hj past s body hfirst
  · exact absurd hsecond hj'.not_occurs

/-- Where nothing is installed at all, any bound holds. -/
theorem Early.of_installs (h : installs r (moments j) = []) (hk : 0 < k) : Early r k j := by
  intro past s body hoccurs
  obtain ⟨future, hsplit⟩ := hoccurs.split
  rw [hsplit, List.append_assoc, installs_append] at h
  rw [(List.append_eq_nil_iff.1 h).1]
  exact hk

end Journal

namespace Registration

variable {call : Call H σ} {v : View} {w w' : World H σ} {j : Journal H}

/-- What is fetched by names, if callbacks install nothing. Without names nothing happens. -/
theorem fetch_early {α : Type} {x : Run H σ α} {a : α} {names : List ComponentName}
    (hx : Run.Delegates x) (hnil : names = [] → j = []) (hrun : x w = some (a, w', j))
    (hquiet : installs v.registry (Journal.called j) = []) :
    installs v.registry (Journal.moments j) = [] ∧
      Journal.Early v.registry names.length j := by
  have hnone := (hx w a w' j hrun).installs hquiet
  refine ⟨hnone, ?_⟩
  cases names with
  | nil =>
    rw [hnil rfl]
    exact .nil
  | cons n rest => exact .of_installs hnone (Nat.succ_pos _)

/-- A tier that is installed. -/
theorem installTier_early {t : TierClass} {tier sorted : List (Extension H)}
    (h : installTier v t tier w = some (sorted, w', j)) :
    (installs v.registry (Journal.moments j)).length ≤ tier.length ∧ j.Notes := by
  obtain ⟨rfl, hnotes, hinstalls⟩ := installTier_eq_some h
  refine ⟨?_, hnotes⟩
  rw [hinstalls]
  exact Nat.le_trans (List.length_filter_le _ _)
    (Nat.le_of_eq (Comparator.sortBy_perm _ _).length_eq)

/-- Fetching a tier by its names. -/
theorem fetchTier_early {names : List ComponentName}
    {a : Except ExtensionError (List (Extension H))}
    (h : (fetchTier call v names).run w = some (a, w', j))
    (hquiet : installs v.registry (Journal.called j) = []) :
    installs v.registry (Journal.moments j) = [] ∧ Journal.Early v.registry names.length j ∧
      ∀ es, a = .ok es → es.length = names.length := by
  obtain ⟨r, hfetch, rfl⟩ := Attempt.blame_eq_some h
  have hnil : names = [] → j = [] := by
    rintro rfl
    cases hfetch
    rfl
  obtain ⟨hnone, hearly⟩ := fetch_early (View.fetchAll_delegates v _ names) hnil hfetch hquiet
  refine ⟨hnone, hearly, fun es hes => ?_⟩
  cases r with
  | error e => cases hes
  | ok es' =>
    cases hes
    obtain ⟨found, rfl, hnames, -⟩ := v.fetchAll_leaves call _ names w _ w' j hfetch
    rw [← hnames, List.length_map, List.length_map]

/-- Dividing names. -/
theorem divide_early {names : List ComponentName} {a : Except ExtensionError (Tiers H)}
    (h : ((v.divide call .lifecycleInterceptor (fun _ => false) names).blame .dependency).run w =
      some (a, w', j)) (hquiet : installs v.registry (Journal.called j) = []) :
    installs v.registry (Journal.moments j) = [] ∧ Journal.Early v.registry names.length j ∧
      ∀ t, a = .ok t → t.priority.length + (t.ordered.length + t.unordered.length) =
        names.length := by
  obtain ⟨r, hdivide, rfl⟩ := Attempt.blame_eq_some h
  have hnil : names = [] → j = [] := by
    rintro rfl
    cases hdivide
    rfl
  obtain ⟨hnone, hearly⟩ :=
    fetch_early (View.divide_delegates v _ _ names) hnil hdivide hquiet
  refine ⟨hnone, hearly, fun t ht => ?_⟩
  cases r with
  | error e => cases ht
  | ok t' =>
    cases ht
    obtain ⟨found, hfound, -, -, hperm⟩ := View.divide_leaves _ _ names w _ w' j hdivide
    have hlength := hperm.length_eq
    simpa [hfound] using hlength

/-- A tier is fetched and installed, and what comes after it has yet to fetch `k` interceptors. -/
theorem stage_early {ε : Type} {t : TierClass} {names : List ComponentName} {k : Nat}
    {f : List (Extension H) → Attempt H σ ExtensionError ε} {a : Except ExtensionError ε}
    (h : (fetchTier call v names >>= fun es =>
      Attempt.always (installTier v t es) >>= f).run w = some (a, w', j))
    (hquiet : installs v.registry (Journal.called j) = [])
    (hf : ∀ sorted w₁ j', (f sorted).run w₁ = some (a, w', j') →
      installs v.registry (Journal.called j') = [] → Journal.Early v.registry k j') :
    Journal.Early v.registry (names.length + k) j := by
  obtain ⟨e, -, hfetch⟩ | ⟨es, w₁, j₁, k₁, hfetch, h₁, rfl⟩ := Attempt.bind_eq_some h
  · exact (fetchTier_early hfetch hquiet).2.1.mono (Nat.le_add_right _ _)
  · obtain ⟨sorted, w₂, j₂, k₂, htier, h₂, rfl⟩ := Attempt.always_bind_eq_some.1 h₁
    simp only [Journal.called_append, installs_append, List.append_eq_nil_iff] at hquiet
    obtain ⟨hnone, hearly, hlength⟩ := fetchTier_early hfetch hquiet.1
    obtain ⟨hle, hnotes⟩ := installTier_early htier
    have hlater := hf sorted w₂ k₂ h₂ hquiet.2.2
    have hrest : Journal.Early v.registry (names.length + k) (j₂ ++ k₂) := by
      refine hnotes.early.append hlater ?_
      rw [hlength es rfl] at hle
      omega
    exact (hearly.mono (Nat.le_add_right _ _)).append hrest (by simp [hnone])

/-- As long as something is left to fetch, an interceptor is missing: of all that are found by
name, fewer than there are names have been installed. -/
theorem installNamed_early {names : List ComponentName}
    {a : Except ExtensionError (List (Extension H))}
    (h : (installNamed call v names).run w = some (a, w', j))
    (hquiet : installs v.registry (Journal.called j) = []) :
    Journal.Early v.registry names.length j := by
  obtain ⟨e, -, hdivide⟩ | ⟨t, w₁, j₁, k₁, hdivide, h₁, rfl⟩ := Attempt.bind_eq_some h
  · exact (divide_early hdivide hquiet).2.1
  · obtain ⟨priority, w₂, j₂, k₂, hpriority, h₂, rfl⟩ := Attempt.always_bind_eq_some.1 h₁
    simp only [Journal.called_append, installs_append, List.append_eq_nil_iff] at hquiet
    obtain ⟨hnone, hearly, hsum⟩ := divide_early hdivide hquiet.1
    obtain ⟨hle, hnotes⟩ := installTier_early hpriority
    have hstages : Journal.Early v.registry
        (t.ordered.length + (t.unordered.length + 0)) k₂ := by
      refine stage_early h₂ hquiet.2.2 fun ordered w₃ j₃ h₃ hquiet₃ => ?_
      refine stage_early h₃ hquiet₃ fun rest w₄ j₄ h₄ _ => ?_
      cases h₄
      exact .nil
    have hsum := hsum t rfl
    have hrest : Journal.Early v.registry names.length (j₂ ++ k₂) :=
      hnotes.early.append hstages (by omega)
    exact hearly.append hrest (by simp [hnone])

/-- The same with the checker, which is installed first. -/
theorem furnish_early {context : ObjectId} {names : List ComponentName} {target : Nat}
    {checker : Extension H} {result : Except ExtensionError (Registration H)}
    (hview : checker.views.interceptor = true)
    (h : (furnish call v context names target checker).run w = some (result, w', j))
    (hquiet : installs v.registry (Journal.called j) = []) :
    Journal.Early v.registry (1 + names.length) j := by
  obtain ⟨a, w₁, j₁, k, hnamed, rfl, hnotes, -⟩ := furnish_eq_some hview h
  simp only [Journal.called_append, installs_append, List.append_eq_nil_iff] at hquiet
  have hearly := (installNamed_early hnamed hquiet.2.1).append_notes hnotes
  refine (installedChecker_notes _ v checker).early.append hearly ?_
  exact Nat.le_of_eq (by rw [installs_installedChecker, List.length_singleton])

end Registration

/-! ## A checker in the chain -/

/-- There is a checker with identity `id` in the chain. -/
def Registry.Guarded (s : Registry H) (id : ObjectId) : Prop :=
  ∃ e ∈ s.interceptors, e.id = id ∧ e.body = .checker ∧ e.views.interceptor = true

namespace Ledger

variable {r id : ObjectId} {l : Ledger H}

/-- A checker leaves the chain only for another extension with its identity. -/
theorem Step.guarded {m : Moment H} {s : Registry H} (h : l.Step r m s)
    (hgenuine : ∀ e, m.installed? r = some e → e.id = id → e.body = .checker)
    (hl : l.registry.Guarded id) : s.Guarded id := by
  cases h with
  | installed e position he =>
    by_cases hid : e.id = id
    · exact ⟨e, List.mem_append_right _ List.mem_cons_self, hid, hgenuine e (if_pos rfl) hid, he⟩
    · obtain ⟨x, hx, hxid, hrest⟩ := hl
      have hother : x ∈ l.registry.interceptors.filter (fun y => !decide (y.id = e.id)) := by
        apply List.mem_filter.2
        exact ⟨hx, by simpa [hxid] using Ne.symm hid⟩
      exact ⟨x, List.mem_append_left _ hother, hxid, hrest⟩
  | resolution =>
    rw [Registry.Guarded, Registry.interceptors_prepare]
    exact hl
  | ended =>
    rw [Registry.Guarded, Registry.interceptors_conclude]
    exact hl
  | _ => exact hl

theorem Lawful.guarded {ms : List (Moment H)} (hlaw : l.Lawful r ms)
    (hgenuine : ∀ e ∈ installs r ms, e.id = id → e.body = .checker)
    (hl : l.registry.Guarded id) : (l.after r ms).registry.Guarded id := by
  induction ms generalizing l with
  | nil => exact hl
  | cons m ms ih =>
    obtain ⟨hm, hrest⟩ := hlaw
    have hfirst : ∀ e, m.installed? r = some e → e.id = id → e.body = .checker :=
      fun e he => hgenuine e (List.mem_filterMap.2 ⟨m, List.mem_cons_self, he⟩)
    refine ih hrest (fun e he => hgenuine e ?_) ((step hm).guarded hfirst hl)
    obtain ⟨m', hm', he'⟩ := List.mem_filterMap.1 he
    exact List.mem_filterMap.2 ⟨m', List.mem_cons_of_mem m hm', he'⟩

end Ledger

namespace Creation

variable {r : ObjectId} {n : ComponentName} {d : Definition H}

/-- After a success every turn has its entry. -/
theorem Performed.entry_of_mem {ts : List (Turn H)} {t : Turn H} {i i' : Option (Instance H)}
    {j : Journal H} (ht : t ∈ ts) (h : Performed r n d ts i j (.ok i')) :
    ∃ given entry handed before after, t.Leaves r n d given entry (.ok handed) ∧
      j = before ++ entry :: after := by
  induction ts generalizing i j with
  | nil => cases ht
  | cons t' ts ih =>
    cases h with
    | next hfirst hrest =>
      rcases List.mem_cons.1 ht with rfl | hlater
      · exact ⟨_, _, _, [], _, hfirst, rfl⟩
      · obtain ⟨given, entry, handed, before, after, hleaves, rfl⟩ := ih hlater hrest
        exact ⟨given, entry, handed, _ :: before, after, hleaves, rfl⟩

/-- The turn of a checker after initialization is a consultation. -/
theorem Turn.Leaves.consultation {e : Extension H} {i : Option (Instance H)} {entry : Event H}
    {a : Except Failure (Option (Instance H))} (hbody : e.body = .checker)
    (h : (Turn.after e).Leaves r n d i entry a) :
    ∃ s body product, entry = .scope s body ∧
      s.consultation? = some ⟨e.id, .direct r, product, n⟩ := by
  obtain ⟨id, name, tier, views, b⟩ := e
  cases hbody
  cases h with
  | after _ i a inner => exact ⟨_, inner, i, rfl, rfl⟩

/-- A creation that succeeds under a chain with a checker asks it about its component. -/
theorem Performed.consults {id : ObjectId} {chain : List (Extension H)} {i : Instance H}
    {j : Journal H} (h : Performed r n d (turns chain) none j (.ok (some i)))
    (hchain : ∃ e ∈ chain, e.id = id ∧ e.body = .checker ∧ e.views.interceptor = true) :
    ∃ before s body after product, j = before ++ .scope s body :: after ∧
      s.consultation? = some ⟨id, .direct r, product, n⟩ := by
  obtain ⟨e, he, rfl, hbody, hview⟩ := hchain
  obtain ⟨given, entry, handed, before, after, hleaves, hj⟩ :=
    h.entry_of_mem (after_mem_turns_iff.2 ⟨he, hview⟩)
  obtain ⟨s, body, product, rfl, hs⟩ := hleaves.consultation hbody
  exact ⟨before, s, body, after, product, hj, hs⟩

end Creation

/-! ## Early components -/

namespace Registration

variable {v : View} {context : ObjectId} {w w' : World H σ} {j : Journal H}

/-- From the moment at which the checker was installed it stands in the chain. -/
theorem furnish_guarded {call : Call H σ} {names : List ComponentName} {target : Nat}
    {id : ObjectId} {result : Except ExtensionError (Registration H)}
    (hrun : (furnish call v context names target (Checker.extension id)).run w =
      some (result, w', j))
    (hlaw : (Ledger.of (w.registries.get v.registry)).Lawful v.registry (Journal.moments j))
    (hgenuine : ∀ e ∈ installs v.registry (Journal.moments j), e.id = id → e.body = .checker)
    {past : List (Moment H)} {s : Scope H} {body : Journal H}
    (hoccurs : Journal.Occurs (.scope s body) past j) :
    ((Ledger.of (w.registries.get v.registry)).after v.registry past).registry.Guarded id := by
  have hpast := (hlaw.at_entry hoccurs).1
  have hinstalls := hoccurs.installs_subset v.registry
  obtain ⟨a, w₁, j₁, k, -, rfl, -, -⟩ := furnish_eq_some rfl hrun
  rcases hoccurs.of_append with hnote | ⟨past', rfl, -⟩
  · exact absurd hnote (installedChecker_notes _ v _).not_occurs
  · rw [Ledger.after_append]
    refine Ledger.Lawful.guarded (Ledger.lawful_append.1 hpast).2 (fun e he => ?_) ?_
    · refine hgenuine e (hinstalls ?_)
      rw [installs_append]
      exact List.mem_append_right _ he
    · have hinstalled : ((Ledger.of (w.registries.get v.registry)).after v.registry
          (Journal.moments (installedChecker (w.registries.get v.registry) v
            (Checker.extension id)))).registry =
          (w.registries.get v.registry).install (Checker.extension id) :=
        congrArg Ledger.registry (if_pos rfl)
      rw [hinstalled]
      exact ⟨Checker.extension id, List.mem_append_right _ List.mem_cons_self, rfl, rfl, rfl⟩

/-- In the course of a registration the chain is always shorter than expected. -/
theorem furnish_short {call : Call H σ} {names : List ComponentName} {target : Nat}
    {checker : Extension H} {result : Except ExtensionError (Registration H)}
    (hview : checker.views.interceptor = true)
    (hrun : (furnish call v context names target checker).run w = some (result, w', j))
    (hlaw : (Ledger.of (w.registries.get v.registry)).Lawful v.registry (Journal.moments j))
    (hquiet : installs v.registry (Journal.called j) = [])
    {past : List (Moment H)} {s : Scope H} {body : Journal H}
    (hoccurs : Journal.Occurs (.scope s body) past j) :
    ((Ledger.of (w.registries.get v.registry)).after v.registry past).registry.interceptors.length <
      (w.registries.get v.registry).interceptors.length + 1 + names.length := by
  have hlength := (hlaw.at_entry hoccurs).1.length_le
  have hearly := furnish_early hview hrun hquiet past s body hoccurs
  have hold : (Ledger.of (w.registries.get v.registry)).registry.interceptors.length =
      (w.registries.get v.registry).interceptors.length := rfl
  omega

/-- Every component that is created in the course of a registration is shown to the checker. -/
theorem furnish_consults {call : Call H σ} {names : List ComponentName} {target : Nat}
    {id : ObjectId} {result : Except ExtensionError (Registration H)}
    (haccounts : Accounts v.registry
      (furnish call v context names target (Checker.extension id)).run)
    (hrun : (furnish call v context names target (Checker.extension id)).run w =
      some (result, w', j))
    (hgenuine : ∀ e ∈ installs v.registry (Journal.moments j), e.id = id → e.body = .checker)
    {n : ComponentName} {d : Definition H} {outer : List ComponentName}
    {chain : List (Extension H)} {i : Instance H} {past : List (Moment H)} {inner : Journal H}
    (hoccurs : Journal.Occurs
      (.scope (.creation v.registry n d outer chain (.ok i)) inner) past j) :
    ∃ before t note after product, inner = before ++ .scope t note :: after ∧
      t.consultation? = some ⟨id, .direct v.registry, product, n⟩ ∧
      Journal.Occurs (.scope t note)
        (past ++ .opens (.creation v.registry n d outer chain (.ok i)) ::
          Journal.moments before) j := by
  have hlaw := (haccounts.tracks (.of (w.registries.get v.registry)) w _ w' j hrun rfl).lawful
  have hperformed :=
    haccounts.tells (.of (w.registries.get v.registry)) w _ w' j hrun rfl past _ inner hoccurs rfl
  have hguarded := furnish_guarded hrun hlaw hgenuine hoccurs
  obtain ⟨-, -, -, -, hchain⟩ := (hlaw.at_entry hoccurs).2.1 rfl
  rw [Registry.Guarded, ← hchain] at hguarded
  obtain ⟨before, t, note, after, product, rfl, ht⟩ := hperformed.consults hguarded
  exact ⟨before, t, note, after, product, rfl, ht, hoccurs.trans (.between before after)⟩

/-- What stands in the entry of a registration, apart from its first notes, stands in what came
after the checker was made, and for the registries it is the same moment. -/
theorem occurs_of_registration {f g : Fact H} {error : Option ExtensionError} {s : Scope H}
    {body inner : Journal H} {past : List (Moment H)}
    (hoccurs : Journal.Occurs (.scope s inner) past
      [.scope (.registration v context error) (.fact f :: .fact g :: body)])
    (hf : f.IsAside) (hg : g.IsAside) (hs : s ≠ .registration v context error) :
    ∃ past', Journal.Occurs (.scope s inner) past' body ∧
      ∀ (r : ObjectId) (l : Ledger H), l.after r past = l.after r past' := by
  rcases hoccurs.of_scope with ⟨hsame, -⟩ | ⟨past', rfl, hinside⟩
  · cases hsame
    exact absurd rfl hs
  · cases hinside with
    | later _ hinside =>
      cases hinside with
      | later _ hinside =>
        refine ⟨_, hinside, fun r l => ?_⟩
        have hopens : l.next r (.opens (.registration v context error)) = l :=
          Ledger.next_opens trivial
        have hfirst : l.next r (.fact f) = l := Ledger.next_fact hf
        have hsecond : l.next r (.fact g) = l := Ledger.next_fact hg
        simp only [Event.moments, List.cons_append, List.nil_append, Ledger.after_cons, hopens,
          hfirst, hsecond]

end Registration

open Registration (discovered expected)

/-- A registration in the course of which callbacks install no interceptors, however it ends, and
any component that is created from its beginning to its end, at whatever depth. The creation shows
the component to the checker while fewer interceptors are installed than are expected; if it is no
interceptor then, and not internal to the container, the checker notes it.

That an object with the identity of the checker is a checker has to be asked for, since an object
may be given any identity. -/
theorem early_noted (b : Behaviour H σ) (depth : Nat) (v : View) (context : ObjectId)
    {w w' : World H σ} {result : Except ExtensionError (Registration H)} {j : Journal H}
    (hrun : (v.registerInterceptors (b.call depth) context).run w = some (result, w', j))
    (hquiet : installs v.registry (Journal.called j) = [])
    (hgenuine : ∀ e ∈ installs v.registry (Journal.moments j),
      e.id = w.next → e.body = .checker) :
    let s := w.registries.get v.registry
    (∀ reg, result = .ok reg → reg.checker = Checker.extension w.next) ∧
      (w'.checkers.get w.next).bypassed = bypasses w.next (Journal.moments j) ∧
      ∀ n d outer chain i past inner,
        Journal.Occurs (.scope (.creation v.registry n d outer chain (.ok i)) inner) past j →
        ∃ before t note after product, inner = before ++ .scope t note :: after ∧
          t.consultation? = some ⟨w.next, .direct v.registry, product, n⟩ ∧
          let now := ((Ledger.of s).after v.registry
            (past ++ .opens (.creation v.registry n d outer chain (.ok i)) ::
              Journal.moments before)).registry
          now.interceptors.length < expected s ∧
            (product.isInterceptor = false → (now.role? n).any (·.isInfrastructure) = false →
              note = [.fact (.bypassed w.next n product.typeName now.interceptors.length
                (expected s))] ∧
              n ∈ (w'.checkers.get w.next).bypassed) := by
  intro s
  obtain ⟨body, hfurnish, rfl⟩ := Registration.registerInterceptors_eq_some hrun
  have hcalled : installs v.registry (Journal.called body) = [] := by
    rw [Journal.called_scope rfl] at hquiet
    exact hquiet
  have haccounts := Registration.furnish_closed (Accounts.behaviour (r := v.registry) b depth) v
    context (discovered s) (expected s) (Checker.extension w.next)
  have hlaw := (haccounts.tracks (.of s) _ _ w' body hfurnish rfl).lawful
  have hbody : ∀ e ∈ installs v.registry (Journal.moments body), e.id = w.next →
      e.body = .checker := by
    rw [installs_scope] at hgenuine
    exact hgenuine
  have hwatch := Registration.furnish_watch hfurnish
  have hmade := w.checkers_withChecker (expected s)
  have htarget : ((w.withChecker (expected s)).checkers.get w.next).target = expected s := by
    rw [hmade]
  refine ⟨?_, ?_, ?_⟩
  · rintro reg rfl
    obtain ⟨id, rfl⟩ := Registration.eq_of_ok hrun
    rfl
  · rw [hwatch.bypassed, hmade, bypasses_scope]
    rfl
  · intro n d outer chain i past inner hoccurs
    obtain ⟨past', hwithin, hsame⟩ :=
      Registration.occurs_of_registration hoccurs trivial trivial nofun
    obtain ⟨before, t, note, after, product, hinner, ht, hshown⟩ :=
      Registration.furnish_consults haccounts hfurnish hbody hwithin
    refine ⟨before, t, note, after, product, hinner, ht, ?_⟩
    rw [Ledger.after_append, hsame, ← Ledger.after_append]
    have hshort : ((Ledger.of s).after v.registry
        (past' ++ .opens (.creation v.registry n d outer chain (.ok i)) ::
          Journal.moments before)).registry.interceptors.length < expected s :=
      Registration.furnish_short rfl hfurnish hlaw hcalled hshown
    refine ⟨hshort, fun hproduct hrole => ?_⟩
    have hobjects : (Consultation.mk w.next (.direct v.registry) product n).objects (expected s)
        ((Ledger.of s).after v.registry
          (past' ++ .opens (.creation v.registry n d outer chain (.ok i)) ::
            Journal.moments before)).registry = true := by
      rw [Consultation.objects, hproduct, hrole, decide_eq_true hshort]
      rfl
    rw [← htarget] at hobjects
    have hnoted := hwatch.noted (l := .of s) rfl hshown ht rfl rfl hobjects
    rw [htarget] at hnoted
    exact hnoted

/-! ### A component that comes too early -/

namespace Scenario

/-- An interceptor that takes component `a` when it is created. -/
def borrowing : DefinitionSpec :=
  .mk "borrowing" .extension [.lifecycleInterceptor] (.priority 0) .application .singleton false []
    [.mk {} (.perform .quiet (.resolve "a"))] (.minimal "borrowing" { interceptor := true })

/-- An interceptor that cannot be created. -/
def broken : DefinitionSpec :=
  .mk "broken" .extension [.lifecycleInterceptor] .unordered .application .singleton false []
    [.mk {} (.fail "broken")] (.minimal "broken" { interceptor := true })

def earlyWorld : World Scripted Memory :=
  worldAfter [.register (labelled "early" []), .register borrowing, .register broken]

/-- The components that are created in the base registry. -/
def createdNames (j : Journal Scripted) : List ComponentName :=
  (Journal.moments j).filterMap fun
    | .opens (.creation r n _ _ _ (.ok _)) => if r = Setup.base then some n else none
    | _ => none

theorem occurs_of_created {j : Journal Scripted} {n : ComponentName} (h : n ∈ createdNames j) :
    ∃ d outer chain i past inner, Journal.Occurs
      (.scope (.creation Setup.base n d outer chain (.ok i)) inner) past j := by
  obtain ⟨m, hm, hname⟩ := List.mem_filterMap.1 h
  split at hname
  · rename_i r n' d outer chain i
    split at hname <;> rename_i hr
    · cases hname
      subst hr
      obtain ⟨past, inner, hoccurs⟩ := Journal.occurs_of_opens j hm
      exact ⟨d, outer, chain, i, past, inner, hoccurs⟩
    · cases hname
  · cases hname

/-- The components that are shown to a checker, and whether they are interceptors. -/
def shownNames (j : Journal Scripted) : List (ComponentName × Bool) :=
  (Journal.moments j).filterMap fun
    | .opens s => s.consultation?.map fun c => (c.name, c.product.isInterceptor)
    | _ => none

def isChecker (e : Extension Scripted) : Bool :=
  match e.body with
  | .checker => true
  | _ => false

theorem body_of_isChecker {e : Extension Scripted} (h : isChecker e = true) :
    e.body = .checker := by
  unfold isChecker at h
  split at h
  · assumption
  · cases h

/-- No definition is changed. -/
def leavesDefinitions (j : Journal Scripted) : Bool :=
  (Journal.moments j).all fun
    | .fact (.defined ..) | .fact (.removed ..) => false
    | _ => true

theorem unrevised_of_leaves {j : Journal Scripted} (h : leavesDefinitions j = true) (r : ObjectId)
    (n : ComponentName) : Unrevised r n (Journal.moments j) := by
  intro m hm hrevises
  have hleaves := List.all_eq_true.1 h m hm
  obtain ⟨d, overrides, rfl, -⟩ | rfl := hrevises.eq
  · cases hleaves
  · cases hleaves

/-- What is to be seen of a registration in the base registry. -/
structure Survey where
  succeeded : Bool
  quiet : Bool
  definitionsLeft : Bool
  /-- What is installed, and whether that is a checker. -/
  installed : List (ObjectId × Bool)
  created : List ComponentName
  shown : List (ComponentName × Bool)
  deriving DecidableEq

theorem earlyRun_report :
    (registeringIn earlyWorld).map (fun p =>
      ({ succeeded := p.1.isOk
         quiet := decide (p.2.2.Quiet Setup.base)
         definitionsLeft := leavesDefinitions p.2.2
         installed := (installs Setup.base (Journal.moments p.2.2)).map fun e => (e.id, isChecker e)
         created := createdNames p.2.2
         shown := shownNames p.2.2 } : Survey)) =
      some
        { succeeded := false
          quiet := true
          definitionsLeft := true
          installed := [(2, true), (4, false)]
          created := [⟨"borrowing"⟩, ⟨"a"⟩]
          shown := [(⟨"a"⟩, false), (⟨"borrowing"⟩, true)] } := by
  decide +kernel

/-- A component is created on behalf of an interceptor that is being created itself. It is noted,
although the registration fails in the end. -/
theorem earlyRun_noted :
    ∃ e w' j d outer chain i past inner t note product installed,
      registeringIn earlyWorld = some (.error e, w', j) ∧
      Journal.Occurs (.scope (.creation Setup.base ⟨"a"⟩ d outer chain (.ok i)) inner) past j ∧
      .scope t note ∈ inner ∧
      t.consultation? = some ⟨earlyWorld.next, .direct Setup.base, product, ⟨"a"⟩⟩ ∧
      note = [.fact (.bypassed earlyWorld.next ⟨"a"⟩ product.typeName installed 3)] ∧
      installed < 3 ∧ ⟨"a"⟩ ∈ (w'.checkers.get earlyWorld.next).bypassed := by
  obtain ⟨⟨result, w', j⟩, hrun, hreport⟩ := Option.map_eq_some_iff.1 earlyRun_report
  simp only [Survey.mk.injEq] at hreport
  obtain ⟨hfailed, hquiet, hleft, hinstalled, hcreated, hshown⟩ := hreport
  have hnext : earlyWorld.next = 2 := by decide +kernel
  have hexpected : expected (earlyWorld.registries.get Setup.base) = 3 := by decide +kernel
  have hdeclared : ((earlyWorld.registries.get Setup.base).role? ⟨"a"⟩).any (·.isInfrastructure) =
      false := by decide +kernel
  have hgenuine : ∀ e ∈ installs Setup.base (Journal.moments j), e.id = earlyWorld.next →
      e.body = .checker := by
    intro e he hid
    have hmem : (e.id, isChecker e) ∈ [(2, true), (4, false)] := by
      rw [← hinstalled]
      exact List.mem_map_of_mem he
    rw [hid, hnext] at hmem
    exact body_of_isChecker (by simpa using hmem)
  cases result with
  | ok reg => cases hfailed
  | error e =>
    obtain ⟨-, -, hall⟩ := early_noted behaviour 3 (.direct Setup.base) Setup.context hrun
      (of_decide_eq_true hquiet).installs hgenuine
    have ha : ⟨"a"⟩ ∈ createdNames j := by simp [hcreated]
    obtain ⟨d, outer, chain, i, past, inner, hoccurs⟩ := occurs_of_created ha
    obtain ⟨before, t, note, after, product, rfl, ht, hshort, hnoted⟩ :=
      hall _ d outer chain i past inner hoccurs
    have hconsulted := hoccurs.trans (.between before after)
    have hproduct : product.isInterceptor = false := by
      have hmem : (⟨"a"⟩, product.isInterceptor) ∈ shownNames j := by
        refine List.mem_filterMap.2 ⟨_, hconsulted.mem_moments, ?_⟩
        simp [ht]
      simpa [hshown] using hmem
    have hrole : (((Ledger.of (earlyWorld.registries.get Setup.base)).after Setup.base
        (past ++ .opens (.creation Setup.base ⟨"a"⟩ d outer chain (.ok i)) ::
          Journal.moments before)).registry.role? ⟨"a"⟩).any (·.isInfrastructure) = false := by
      obtain ⟨future, hsplit⟩ := hconsulted.split
      have hunrevised := unrevised_of_leaves hleft Setup.base ⟨"a"⟩
      rw [hsplit, List.append_assoc, unrevised_append] at hunrevised
      rw [Registry.role?, Ledger.get?_after hunrevised.1]
      exact hdeclared
    obtain ⟨hnote, hrecorded⟩ := hnoted hproduct hrole
    exact ⟨e, w', j, d, outer, chain, i, past, _, t, note, product, _, hrun, hoccurs,
      List.mem_append_right before List.mem_cons_self, ht, hexpected ▸ hnote, hexpected ▸ hshort,
      hrecorded⟩

end Scenario

end Startup
