import Startup.Proofs.Interceptor.FinalChain

/-!
The chain of interceptors after a registration that fails. A registration takes one tier after the
other, and within a tier it installs nothing until all members have been fetched. It fails where an
interceptor cannot be had, and the fetch that failed is the last thing it does. So the tiers before
that of the failed fetch are installed as a whole, and nothing else is.

Main statement: `partial_chain`, for a registration that fails while callbacks are quiet.
-/

namespace Startup

variable {H : Host} {σ : Type}

/-- The tiers whose turn comes before that of a tier. -/
def TierClass.earlier : TierClass → List TierClass
  | .priority => []
  | .ordered => [.priority]
  | .unordered => [.priority, .ordered]

/-! ## Fetches that break off -/

/-- A journal of fetches that ends with one that failed. -/
def Journal.BreaksOff (v : View) (c : Capability) (found : List (ComponentName × Extension H))
    (n : ComponentName) (x : DependencyError) (j : Journal H) : Prop :=
  ∃ body inner, j = body ++ [.scope (.fetch v n c (.error x)) inner] ∧
    Journal.deeds body = Deed.fetches c found

namespace Journal

variable {v : View} {c : Capability} {found found' : List (ComponentName × Extension H)}
  {n : ComponentName} {x : DependencyError} {j k : Journal H}

theorem BreaksOff.append (hj : deeds j = Deed.fetches c found)
    (hk : k.BreaksOff v c found' n x) : (j ++ k).BreaksOff v c (found ++ found') n x := by
  obtain ⟨body, inner, rfl, hbody⟩ := hk
  refine ⟨j ++ body, inner, by rw [List.append_assoc], ?_⟩
  rw [deeds_append, hj, hbody]
  simp [Deed.fetches]

/-- What was not a deed makes no difference. -/
theorem BreaksOff.after (hj : deeds j = []) (hk : k.BreaksOff v c found n x) :
    (j ++ k).BreaksOff v c found n x := by
  have hnone : deeds j = Deed.fetches c [] := hj
  exact BreaksOff.append hnone hk

theorem BreaksOff.deeds_eq (h : j.BreaksOff v c found n x) :
    deeds j = Deed.fetches c found ++ [.fetched n c (.error x)] := by
  obtain ⟨body, inner, rfl, hbody⟩ := h
  rw [deeds_append, hbody]
  rfl

end Journal

section Fetches

variable {call : Call H σ} {v : View} {s : Registry H} {w w' : World H σ} {j : Journal H}
  {c : Capability} {names : List ComponentName} {x : DependencyError}

theorem View.fetch_error {n : ComponentName}
    (h : (v.fetch call n c).run w = some (.error x, w', j)) : j.BreaksOff v c [] n x := by
  obtain ⟨inner, -, rfl⟩ := Run.within_eq_some.1 h
  exact ⟨[], inner, rfl, rfl⟩

/-- What comes of a fetch, and of what follows on it, if that is to fail. -/
theorem View.fetch_bind_error {α : Type} {n : ComponentName}
    {f : Extension H → Attempt H σ DependencyError α}
    (h : (v.fetch call n c >>= f).run w = some (.error x, w', j)) :
    j.BreaksOff v c [] n x ∨ ∃ e w₁ j₁ j₂, (v.fetch call n c).run w = some (.ok e, w₁, j₁) ∧
      Journal.deeds j₁ = Deed.fetches c [(n, e)] ∧ (f e).run w₁ = some (.error x, w', j₂) ∧
      j = j₁ ++ j₂ := by
  obtain ⟨x', hx, hfailed⟩ | ⟨e, w₁, j₁, j₂, hfetch, hrest, rfl⟩ := Attempt.bind_eq_some h
  · cases hx
    exact .inl (View.fetch_error hfailed)
  · exact .inr ⟨e, w₁, j₁, j₂, hfetch, (View.fetch_ok hfetch).2, hrest, rfl⟩

/-- An attempt whose value is only put together anew fails where it fails itself. -/
theorem Attempt.bind_pure_error {ε α β : Type} {e : ε} {y : Attempt H σ ε α} {f : α → β}
    (h : (y >>= fun a => pure (f a)).run w = some (.error e, w', j)) :
    y.run w = some (.error e, w', j) := by
  obtain ⟨e', he, hfailed⟩ | ⟨a, w₁, j₁, j₂, -, hpure, -⟩ := Attempt.bind_eq_some h
  · cases he
    exact hfailed
  · cases hpure

/-- Many fetches break off at a name, and had all that stand before it. -/
theorem View.fetchAll_error (h : (v.fetchAll call c names).run w = some (.error x, w', j)) :
    ∃ found n rest, names = found.map Prod.fst ++ n :: rest ∧ j.BreaksOff v c found n x := by
  induction names generalizing w j with
  | nil => cases h
  | cons n rest ih =>
    obtain hfailed | ⟨e, w₁, j₁, j₂, -, hdeeds, htail, rfl⟩ := View.fetch_bind_error h
    · exact ⟨[], n, rest, rfl, hfailed⟩
    · obtain ⟨found, n', rest', rfl, hbreaks⟩ := ih (Attempt.bind_pure_error htail)
      exact ⟨(n, e) :: found, n', rest', rfl, .append hdeeds hbreaks⟩

/-- To divide names by tier breaks off at a name of the priority tier, and had all that stand before
it in this tier. -/
theorem View.divide_error (hc : Closed call (fun {α} (x : Run H σ α) => Tracks v.registry x))
    {all : Bool} (hnames : ∀ n ∈ names, n ∈ s.namesFor c all)
    (hs : s.Retains (w.registries.get v.registry))
    (h : (v.divide call c (fun _ => false) names).run w = some (.error x, w', j))
    (hquiet : j.Quiet v.registry) :
    ∃ found n rest, names.filter (fun n => s.tierOf n = .priority) =
      found.map Prod.fst ++ n :: rest ∧ j.BreaksOff v c found n x := by
  induction names generalizing w j with
  | nil => cases h
  | cons n rest ih =>
    obtain ⟨hn, hrest⟩ := List.forall_mem_cons.1 hnames
    unfold View.divide at h
    simp only [Bool.false_eq_true, if_false] at h
    rw [View.isMatch_bind, hs.isMatch hn] at h
    split at h <;> rename_i hpriority
    · have htier : s.tierOf n = .priority := by rw [Registry.tierOf, if_pos hpriority]
      rw [List.filter_cons_of_pos (by simpa using htier)]
      obtain hfailed | ⟨e, w₁, j₁, j₂, hfetch, hdeeds, htail, rfl⟩ := View.fetch_bind_error h
      · exact ⟨[], n, _, rfl, hfailed⟩
      · obtain ⟨hquiet₁, hquiet₂⟩ := Journal.quiet_append.1 hquiet
        obtain ⟨hretains, -⟩ :=
          (hc.fetch v n c).retains_of_quiet (View.fetch_delegates v n c) hfetch hquiet₁
        obtain ⟨found, n', rest', hfound, hbreaks⟩ :=
          ih hrest (hs.trans hretains) (Attempt.bind_pure_error htail) hquiet₂
        exact ⟨(n, e) :: found, n', rest', by simp [hfound], .append hdeeds hbreaks⟩
    · -- A name of another tier is only put aside, so the failure lies further on.
      have htier : s.tierOf n ≠ .priority := by
        rw [Registry.tierOf, if_neg hpriority]
        split <;> simp
      rw [List.filter_cons_of_neg (by simpa using htier)]
      rw [View.isMatch_bind] at h
      split at h <;> exact ih hrest hs (Attempt.bind_pure_error h) hquiet

end Fetches

/-! ## Installations that break off -/

namespace Findings

/-- What was found of some tiers. -/
def among (found : Findings H) (ts : List TierClass) : List (ComponentName × Extension H) :=
  ts.flatMap found

variable (found : Findings H)

@[simp] theorem among_nil : found.among [] = [] := rfl

@[simp] theorem among_cons (t : TierClass) (ts : List TierClass) :
    found.among (t :: ts) = found t ++ found.among ts := List.flatMap_cons

@[simp] theorem among_append (ts ts' : List TierClass) :
    found.among (ts ++ ts') = found.among ts ++ found.among ts' := List.flatMap_append

theorem mem_among {ts : List TierClass} {q : ComponentName × Extension H} :
    q ∈ found.among ts ↔ ∃ t ∈ ts, q ∈ found t := List.mem_flatMap

end Findings

/-- What was found until the fetch of `n` failed, which is in tier `t`: all of the tiers before
that one, and of that tier all that stands before `n`. -/
structure Findings.UpTo (found : Findings H) (s : Registry H) (names : List ComponentName)
    (t : TierClass) (n : ComponentName) : Prop where
  earlier : ∀ t' ∈ t.earlier,
    (found t').map Prod.fst = names.filter (fun n => s.tierOf n = t')
  begun : ∃ rest, names.filter (fun n => s.tierOf n = t) = (found t).map Prod.fst ++ n :: rest

/-- Nothing was found of later tiers, and looked for neither. -/
theorem Findings.UpTo.mem_tiers {found : Findings H} {s : Registry H}
    {names : List ComponentName} {t : TierClass} {n m : ComponentName}
    (h : found.UpTo s names t n)
    (hm : m ∈ (found.among (t.earlier ++ [t])).map Prod.fst ++ [n]) :
    s.tierOf m ∈ t.earlier ++ [t] := by
  obtain ⟨rest, hrest⟩ := h.begun
  have hbegun : ∀ k ∈ (found t).map Prod.fst ++ n :: rest, s.tierOf k = t := by
    intro k hk
    rw [← hrest] at hk
    simpa using (List.mem_filter.1 hk).2
  simp only [Findings.among_append, Findings.among_cons, Findings.among_nil, List.append_nil,
    List.map_append, List.append_assoc, List.mem_append, List.mem_singleton] at hm ⊢
  rcases hm with hearlier | hsame | rfl
  · obtain ⟨q, hq, rfl⟩ := List.mem_map.1 hearlier
    obtain ⟨t', ht', hq'⟩ := found.mem_among.1 hq
    have hlisted : q.1 ∈ names.filter (fun n => s.tierOf n = t') := by
      rw [← h.earlier t' ht']
      exact List.mem_map_of_mem hq'
    have htier : s.tierOf q.1 = t' := by simpa using (List.mem_filter.1 hlisted).2
    rw [htier]
    exact .inl ht'
  · exact .inr (hbegun m (List.mem_append_left _ hsame))
  · exact .inr (hbegun m (List.mem_append_right _ List.mem_cons_self))

namespace Registration

variable {call : Call H σ} {v : View} {s : Registry H} {w w' : World H σ} {j : Journal H}

/-- A tier breaks off at one of its names, and then has installed nothing. -/
theorem fetchTier_error (hc : Closed call (fun {α} (x : Run H σ α) => Tracks v.registry x))
    {names : List ComponentName} {e : ExtensionError}
    (h : (fetchTier call v names).run w = some (.error e, w', j)) (hquiet : j.Quiet v.registry) :
    installs v.registry (Journal.moments j) = [] ∧ ∃ found n rest x, e = .dependency x ∧
      names = found.map Prod.fst ++ n :: rest ∧
      j.BreaksOff v .lifecycleInterceptor found n x := by
  obtain ⟨r, hfetch, hr⟩ := Attempt.blame_eq_some h
  obtain ⟨-, hnone⟩ := (hc.fetchAll v .lifecycleInterceptor names).retains_of_quiet
    (View.fetchAll_delegates v _ names) hfetch hquiet
  cases r with
  | ok es => cases hr
  | error x =>
    cases hr
    obtain ⟨found, n, rest, hnames, hbreaks⟩ := View.fetchAll_error hfetch
    exact ⟨hnone, found, n, rest, x, rfl, hnames, hbreaks⟩

/-- What is installed by name breaks off in one of the tiers. Those before it were found and
installed as a whole, each of them sorted. -/
theorem installNamed_error (hc : Closed call (fun {α} (x : Run H σ α) => Tracks v.registry x))
    {all : Bool} {names : List ComponentName} {e : ExtensionError}
    (hnames : ∀ n ∈ names, n ∈ s.namesFor .lifecycleInterceptor all)
    (hs : s.Retains (w.registries.get v.registry))
    (h : (installNamed call v names).run w = some (.error e, w', j))
    (hquiet : j.Quiet v.registry) :
    ∃ (t : TierClass) (found : Findings H) (n : ComponentName) (x : DependencyError),
      e = .dependency x ∧ found.UpTo s names t n ∧
      j.BreaksOff v .lifecycleInterceptor (found.among (t.earlier ++ [t])) n x ∧
      installs v.registry (Journal.moments j) = t.earlier.flatMap (found.tier (v.sorter s)) := by
  obtain ⟨e', he, hdivide⟩ | ⟨tiers, w₁, j₁, k₁, hdivide, h₁, rfl⟩ := Attempt.bind_eq_some h
  · cases he
    obtain ⟨r, hdivided, hr⟩ := Attempt.blame_eq_some hdivide
    obtain ⟨-, hnone⟩ := (hc.divide v _ _ names).retains_of_quiet
      (View.divide_delegates v _ _ names) hdivided hquiet
    cases r with
    | ok tiers => cases hr
    | error x =>
      cases hr
      obtain ⟨P, n, rest, hP, hbreaks⟩ := View.divide_error hc hnames hs hdivided hquiet
      refine ⟨.priority, .ofTiers P [] [], n, x, rfl, ⟨by simp [TierClass.earlier], rest, hP⟩, ?_,
        hnone⟩
      simpa [TierClass.earlier, Findings.ofTiers] using hbreaks
  · obtain ⟨hquiet₁, hquiet'⟩ := Journal.quiet_append.1 hquiet
    have hdivided := Attempt.blame_eq_ok hdivide
    obtain ⟨P, hP, hPnames, hO, hU, hPdeeds, hPall⟩ :=
      View.divide_ok hc hnames hs hdivided hquiet₁
    obtain ⟨hretains, hnone₁⟩ := (hc.divide v _ _ names).retains_of_quiet
      (View.divide_delegates v _ _ names) hdivided hquiet₁
    obtain ⟨_, w₂, j₂, k₂, hpriority, h₂, rfl⟩ := Attempt.always_bind_eq_some.1 h₁
    obtain ⟨hquiet₂, hquiet''⟩ := Journal.quiet_append.1 hquiet'
    rw [hP] at hpriority
    obtain ⟨hs₂, rfl, hnotes₂, hinstalls₂⟩ :=
      installTier_ok hc hPall (hs.trans hretains) hpriority
    obtain ⟨e', he, hfetchO⟩ | ⟨_, w₃, j₃, k₃, hfetchO, h₃, rfl⟩ := Attempt.bind_eq_some h₂
    · cases he
      obtain ⟨hnone, O, n, rest, x, rfl, hOnames, hbreaks⟩ := fetchTier_error hc hfetchO hquiet''
      refine ⟨.ordered, .ofTiers P O [], n, x, rfl, ⟨?_, rest, ?_⟩, ?_, ?_⟩
      · simpa [TierClass.earlier, Findings.ofTiers] using hPnames
      · rw [← hO]
        exact hOnames
      · simpa [TierClass.earlier, Findings.ofTiers] using
          Journal.BreaksOff.append hPdeeds (.after hnotes₂.deeds hbreaks)
      · simp only [Journal.moments_append, installs_append, hnone₁, hinstalls₂, hnone]
        simp [TierClass.earlier, Findings.tier, Findings.ofTiers]
    · obtain ⟨hquiet₃, hquiet₃'⟩ := Journal.quiet_append.1 hquiet''
      obtain ⟨hs₃, hnone₃, O, rfl, hOnames, hOall, hOdeeds⟩ := fetchTier_ok hc hs₂ hfetchO hquiet₃
      obtain ⟨_, w₄, j₄, k₄, hordered, h₄, rfl⟩ := Attempt.always_bind_eq_some.1 h₃
      obtain ⟨hs₄, rfl, hnotes₄, hinstalls₄⟩ := installTier_ok hc hOall hs₃ hordered
      obtain ⟨hquiet₄, hquiet₄'⟩ := Journal.quiet_append.1 hquiet₃'
      obtain ⟨e', he, hfetchU⟩ | ⟨_, w₅, j₅, k₅, -, h₅, -⟩ := Attempt.bind_eq_some h₄
      · cases he
        obtain ⟨hnone, U, n, rest, x, rfl, hUnames, hbreaks⟩ :=
          fetchTier_error hc hfetchU hquiet₄'
        refine ⟨.unordered, .ofTiers P O U, n, x, rfl, ⟨?_, rest, ?_⟩, ?_, ?_⟩
        · rw [hO] at hOnames
          simpa [TierClass.earlier, Findings.ofTiers] using ⟨hPnames, hOnames⟩
        · rw [← hU]
          exact hUnames
        · simpa [TierClass.earlier, Findings.ofTiers] using
            Journal.BreaksOff.append hPdeeds (.after hnotes₂.deeds
              (.append hOdeeds (.after hnotes₄.deeds hbreaks)))
        · simp only [Journal.moments_append, installs_append, hnone₁, hinstalls₂, hnone₃,
            hinstalls₄, hnone]
          simp [TierClass.earlier, Findings.tier, Findings.ofTiers]
      · obtain ⟨_, w₆, j₆, k₆, -, hpure, -⟩ := Attempt.always_bind_eq_some.1 h₅
        cases hpure

/-- What a registration has installed when it fails, one after the other, if callbacks were
quiet. -/
theorem installs_of_error {context : ObjectId} {e : ExtensionError}
    (hc : Closed call (fun {α} (x : Run H σ α) => Tracks v.registry x))
    (hrun : (v.registerInterceptors call context).run w = some (.error e, w', j))
    (hquiet : j.Quiet v.registry) :
    ∃ (t : TierClass) (found : Findings H) (n : ComponentName) (x : DependencyError)
        (body : Journal H),
      e = .dependency x ∧ j = [.scope (.registration v context (some e)) body] ∧
      found.UpTo (w.registries.get v.registry) (discovered (w.registries.get v.registry)) t n ∧
      body.BreaksOff v .lifecycleInterceptor (found.among (t.earlier ++ [t])) n x ∧
      installs v.registry (Journal.moments j) = Checker.extension w.next ::
        t.earlier.flatMap (found.tier (v.sorter (w.registries.get v.registry))) := by
  obtain ⟨body, hfurnish, rfl⟩ := registerInterceptors_eq_some hrun
  have hbody :=
    (Journal.quiet_scope (s := .registration v context (View.error? (.error e))) rfl).1 hquiet
  obtain ⟨a, w₁, j₁, k, hnamed, rfl, -, ⟨e', rfl, he, rfl, rfl⟩ | ⟨es, w₂, rfl, hreg, -⟩⟩ :=
    furnish_eq_some rfl hfurnish
  · cases he
    rw [List.append_nil] at hbody ⊢
    simp only [Journal.quiet_fact, Journal.quiet_append] at hbody
    obtain ⟨t, found, n, x, rfl, hupto, hbreaks, hinstalls⟩ :=
      installNamed_error hc (fun n hn => hn) (retains_checker ..) hnamed hbody.2
    refine ⟨t, found, n, x, _, rfl, rfl, hupto, ?_, ?_⟩
    · have hfirst : Journal.deeds ([.fact (.querying v .lifecycleInterceptor true false),
          .fact (.registrationStarted (discovered (w.registries.get v.registry)).length
            (expected (w.registries.get v.registry)))] ++
          installedChecker (w.registries.get v.registry) v (Checker.extension w.next)) = [] := by
        rw [Journal.deeds_append, (installedChecker_notes _ _ _).deeds]
        rfl
      exact .after hfirst hbreaks
    · rw [installs_scope]
      show installs _ (Journal.moments (installedChecker _ _ _ ++ j₁)) = _
      rw [Journal.moments_append, installs_append, installs_installedChecker, hinstalls,
        List.singleton_append]
  · cases hreg

end Registration

/-! ## The chain that is left behind -/

open Registration (discovered)

/-- A registration that fails while callbacks install no interceptors and change no definitions. It
fails with the error of a fetch, which is the last entry that it makes; the component `n` of that
fetch is in some tier `t`, as it was declared when the registration began. What was fetched before
are the members of the tiers before `t`, and of `t` those that stand before `n`; of later tiers
nothing was asked for. What was installed are the checker and the tiers before `t`, each sorted by
the comparator of the registry, and nothing else: so the chain is what it was, followed by these,
with the last occurrence of each object kept. -/
theorem partial_chain (b : Behaviour H σ) (depth : Nat) (v : View) (context : ObjectId)
    {w w' : World H σ} {e : ExtensionError} {j : Journal H}
    (hdistinct : Distinct (w.registries.get v.registry).interceptors)
    (hrun : (v.registerInterceptors (b.call depth) context).run w = some (.error e, w', j))
    (hquiet : j.Quiet v.registry) :
    let s := w.registries.get v.registry
    let c := v.sorter s
    let checker := Checker.extension w.next
    ∃ (t : TierClass) (found : Findings H) (n : ComponentName) (x : DependencyError)
        (body : Journal H),
      e = .dependency x ∧ j = [.scope (.registration v context (some e)) body] ∧
      found.UpTo s (discovered s) t n ∧
      body.BreaksOff v .lifecycleInterceptor (found.among (t.earlier ++ [t])) n x ∧
      (∀ m ∈ Deed.fetchedNames (Journal.deeds body), s.tierOf m ∈ t.earlier ++ [t]) ∧
      installs v.registry (Journal.moments j) = checker :: t.earlier.flatMap (found.tier c) ∧
      (w'.registries.get v.registry).interceptors =
        keepLast (s.interceptors ++ [checker] ++ t.earlier.flatMap (found.tier c)) := by
  intro s c checker
  have hclosed := Tracks.behaviour (r := v.registry) b depth
  have hchain : (w'.registries.get v.registry).interceptors =
      keepLast (s.interceptors ++ installs v.registry (Journal.moments j)) :=
    (hclosed.registerInterceptors v context).chain hrun hdistinct
  obtain ⟨t, found, n, x, body, he, rfl, hupto, hbreaks, hinstalls⟩ :=
    Registration.installs_of_error hclosed hrun hquiet
  refine ⟨t, found, n, x, body, he, rfl, hupto, hbreaks, ?_, hinstalls, ?_⟩
  · intro m hm
    rw [hbreaks.deeds_eq, Deed.fetchedNames_append, Deed.fetchedNames_fetches] at hm
    exact hupto.mem_tiers hm
  · rw [hchain, hinstalls, List.append_assoc]
    rfl

/-! ### A registration that fails in its second tier -/

namespace Scenario

/-- A component that is declared an interceptor, and cannot be made. -/
def brokenSpec (name : String) (tier : OrderTier) : DefinitionSpec :=
  .mk name .extension [.lifecycleInterceptor] tier .application .singleton false []
    [.mk {} (.fail "out of order")]
    (.extension name tier { interceptor := true } false [] [] [] [] [] [])

/-- The interceptor of the first tier is installed already; of the second tier the second one cannot
be made. -/
def brokenWorld : World Scripted Memory :=
  worldAfter [.register (interceptorSpec "rest" .unordered false),
    .register (interceptorSpec "ordered" (.ordered 1) true),
    .register (brokenSpec "broken" (.ordered 0)),
    .register (interceptorSpec "first" (.priority 1) true),
    .install (.made (.component "first"))]

theorem brokenRun_report :
    (registeringIn brokenWorld).map (fun p => (p.1.toOption.isNone, chainNames p.2.1,
      decide (p.2.2.Quiet Setup.base),
      (Deed.fetchedNames (Journal.deeds (entriesOf p.2.2))).map (·.text))) =
        some (true, ["eligibility-checker", "first"], true, ["first", "ordered", "broken"]) := by
  decide +kernel

/-- The first tier was put behind the checker; the member of the second one that could be made was
not installed. -/
theorem brokenRun_chain :
    chainNames brokenWorld = ["first"] ∧ ∃ e w' j t, ∃ found : Findings Scripted,
      registeringIn brokenWorld = some (.error e, w', j) ∧
      chainNames w' = ["eligibility-checker", "first"] ∧
      (found.among (t.earlier ++ [t])).map (·.1.text) = ["first", "ordered"] ∧
      (w'.registries.get Setup.base).interceptors =
        keepLast ((brokenWorld.registries.get Setup.base).interceptors ++
          [Checker.extension brokenWorld.next] ++
            t.earlier.flatMap (found.tier ((View.direct Setup.base).sorter
              (brokenWorld.registries.get Setup.base)))) := by
  refine ⟨by decide +kernel, ?_⟩
  obtain ⟨⟨result, w', j⟩, hrun, hreport⟩ := Option.map_eq_some_iff.1 brokenRun_report
  simp only [Prod.mk.injEq] at hreport
  obtain ⟨hfailed, hnames, hquiet, hfetched⟩ := hreport
  cases result with
  | ok reg => cases hfailed
  | error e =>
    have hids : ((brokenWorld.registries.get Setup.base).interceptors.map (·.id)).Nodup := by
      decide +kernel
    obtain ⟨t, found, n, x, body, -, rfl, -, hbreaks, -, -, hchain⟩ :=
      partial_chain behaviour 3 (.direct Setup.base) Setup.context (List.pairwise_map.1 hids)
        hrun (of_decide_eq_true hquiet)
    refine ⟨e, w', _, t, found, hrun, hnames, ?_, hchain⟩
    have hbody : (Deed.fetchedNames (Journal.deeds body)).map (·.text) =
        ["first", "ordered"] ++ ["broken"] := hfetched
    rw [hbreaks.deeds_eq, Deed.fetchedNames_append, Deed.fetchedNames_fetches, List.map_append,
      List.map_map] at hbody
    exact List.append_inj_left' hbody rfl

end Scenario

end Startup
