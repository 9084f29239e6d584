import Startup.Proofs.Pipeline.Conduct

/-!
Each component once. The deeds of a run are put on accounts: one for each component that the run
fetches, and one for what it does otherwise, the callbacks of the supplied extensions among it.

Main statement: `fetched_once_called_once`. No run fetches a component twice. If a run succeeds,
its deeds can be put on accounts such that on the account of a component there stand its fetch,
the definition callback of what was fetched if that was done in the definition phase, and its
factory callback, in this order, and nothing else.
-/

namespace Startup

variable {H : Host} {σ : Type}

/-! ## Accounts -/

/-- Deeds, each put on the account of a component or on the common one. -/
abbrev Book (H : Host) := List (Option ComponentName × Deed H)

namespace Book

/-- What stands on an account. -/
def account (k : Option ComponentName) (b : Book H) : List (Deed H) :=
  (b.filter fun x => x.1 = k).map Prod.snd

/-- Deeds on the common account. -/
def common (ds : List (Deed H)) : Book H := ds.map fun d => (none, d)

/-- Fetches, each on the account of its component. -/
def fetches (p : MutationPhase) (found : List (ComponentName × Extension H)) : Book H :=
  found.map fun q => (some q.1, .fetched q.1 p.capability (.ok q.2))

/-- Callbacks of what was fetched, each on the account of its component. -/
def calls (p : MutationPhase) (ranked : List (ComponentName × Extension H)) : Book H :=
  ranked.map fun q => (some q.1, .called p q.2 none)

variable {n : ComponentName} {p : MutationPhase}

@[simp] theorem account_append (k : Option ComponentName) (b b' : Book H) :
    account k (b ++ b') = account k b ++ account k b' := by
  simp [account]

@[simp] theorem account_none_common (ds : List (Deed H)) : account none (common ds) = ds := by
  simp [account, common, List.filter_map, Function.comp_def]

@[simp] theorem account_some_common (ds : List (Deed H)) :
    account (some n) (common ds) = [] := by
  simp [account, common, List.filter_map, Function.comp_def]

@[simp] theorem account_none_fetches (found : List (ComponentName × Extension H)) :
    account none (fetches p found) = [] := by
  simp [account, fetches, List.filter_map, Function.comp_def]

@[simp] theorem account_none_calls (ranked : List (ComponentName × Extension H)) :
    account none (calls p ranked) = [] := by
  simp [account, calls, List.filter_map, Function.comp_def]

theorem account_some_fetches (found : List (ComponentName × Extension H)) :
    account (some n) (fetches p found) =
      (found.filter fun q => q.1 = n).map fun q => .fetched q.1 p.capability (.ok q.2) := by
  simp [account, fetches, List.filter_map, Function.comp_def]

theorem account_some_calls (ranked : List (ComponentName × Extension H)) :
    account (some n) (calls p ranked) =
      (ranked.filter fun q => q.1 = n).map fun q => .called p q.2 none := by
  simp [account, calls, List.filter_map, Function.comp_def]

@[simp] theorem deeds_common (ds : List (Deed H)) : (common ds).map Prod.snd = ds := by
  simp [common, Function.comp_def]

@[simp] theorem deeds_fetches (found : List (ComponentName × Extension H)) :
    (fetches p found).map Prod.snd = Deed.fetches p.capability found := by
  simp [fetches, Deed.fetches, Function.comp_def]

@[simp] theorem deeds_calls (ranked : List (ComponentName × Extension H)) :
    (calls p ranked).map Prod.snd = Deed.calls p (ranked.map Prod.snd) := by
  simp [calls, Deed.calls, Function.comp_def]

/-- In a list without repeated names, each name is found at most once. -/
theorem filter_name {l : List (ComponentName × Extension H)} (h : (l.map Prod.fst).Nodup)
    (n : ComponentName) :
    (n ∉ l.map Prod.fst ∧ (l.filter fun q => q.1 = n) = []) ∨
      ∃ e, n ∈ l.map Prod.fst ∧ (l.filter fun q => q.1 = n) = [(n, e)] := by
  induction l with
  | nil => exact .inl ⟨List.not_mem_nil, rfl⟩
  | cons q rest ih =>
    rw [List.map_cons, List.nodup_cons] at h
    by_cases hq : q.1 = n
    · have hrest : (rest.filter fun q => q.1 = n) = [] := by
        obtain ⟨-, hnone⟩ | ⟨e, hmem, -⟩ := ih h.2
        · exact hnone
        · exact absurd (hq ▸ hmem) h.1
      refine .inr ⟨q.2, by simp [hq], ?_⟩
      rw [List.filter_cons_of_pos (by simpa using hq), hrest, ← hq]
    · rw [List.filter_cons_of_neg (by simpa using hq), List.map_cons, List.mem_cons]
      obtain ⟨hmem, hnone⟩ | ⟨e, hmem, hone⟩ := ih h.2
      · exact .inl ⟨fun hor => hor.elim (fun he => hq he.symm) hmem, hnone⟩
      · exact .inr ⟨e, .inr hmem, hone⟩

end Book

namespace Pipeline

/-! ## Accounts of tiers -/

variable {p : MutationPhase}

/-- A tier, on the accounts of its components. -/
def Tier.book (t : Tier H p) : Book H := Book.fetches p t.found ++ Book.calls p t.ranked

@[simp] theorem Tier.deeds_book (t : Tier H p) : t.book.map Prod.snd = t.deeds := by
  simp [book, deeds, extensions]

theorem deeds_tiers (ts : List (Tier H p)) :
    (ts.flatMap Tier.book).map Prod.snd = ts.flatMap Tier.deeds := by
  simp [List.map_flatMap]

theorem account_none_tiers (ts : List (Tier H p)) :
    Book.account none (ts.flatMap Tier.book) = [] := by
  induction ts with
  | nil => rfl
  | cons t rest ih => simp [Tier.book, ih]

/-- On the account of a component of a tier stand its fetch and its callback, and nothing else;
callbacks of a later phase are made for it once, too. -/
theorem account_tier (t : Tier H p) (h : t.names.Nodup) (q : MutationPhase) (n : ComponentName) :
    (n ∉ t.names ∧ Book.account (some n) t.book = [] ∧
        Book.account (some n) (Book.calls q t.ranked) = []) ∨
      ∃ e, n ∈ t.names ∧
        Book.account (some n) t.book =
          [.fetched n p.capability (.ok e), .called p e none] ∧
        Book.account (some n) (Book.calls q t.ranked) = [.called q e none] := by
  have hranked := t.perm.filter fun q => q.1 = n
  obtain ⟨hmem, hnone⟩ | ⟨e, hmem, hone⟩ := Book.filter_name h n
  · rw [hnone] at hranked
    refine .inl ⟨hmem, ?_, ?_⟩
    · simp [Tier.book, Book.account_some_fetches, Book.account_some_calls, hnone, hranked.eq_nil]
    · simp [Book.account_some_calls, hranked.eq_nil]
  · rw [hone] at hranked
    refine .inr ⟨e, hmem, ?_, ?_⟩
    · simp [Tier.book, Book.account_some_fetches, Book.account_some_calls, hone,
        hranked.eq_singleton]
    · simp [Book.account_some_calls, hranked.eq_singleton]

/-- The same of tiers that have no component in common. -/
theorem account_tiers {ts : List (Tier H p)} (h : (ts.flatMap Tier.names).Nodup)
    (q : MutationPhase) (n : ComponentName) :
    (n ∉ ts.flatMap Tier.names ∧ Book.account (some n) (ts.flatMap Tier.book) = [] ∧
        Book.account (some n) (Book.calls q (ts.flatMap Tier.ranked)) = []) ∨
      ∃ e, n ∈ ts.flatMap Tier.names ∧
        Book.account (some n) (ts.flatMap Tier.book) =
          [.fetched n p.capability (.ok e), .called p e none] ∧
        Book.account (some n) (Book.calls q (ts.flatMap Tier.ranked)) = [.called q e none] := by
  induction ts with
  | nil => exact .inl ⟨List.not_mem_nil, rfl, rfl⟩
  | cons t rest ih =>
    obtain ⟨ht, hrest, hdisjoint⟩ := List.nodup_append.1 h
    have hcalls : Book.calls q ((t :: rest).flatMap Tier.ranked) =
        Book.calls q t.ranked ++ Book.calls q (rest.flatMap Tier.ranked) := by
      simp [Book.calls]
    rw [hcalls]
    simp only [List.flatMap_cons, Book.account_append, List.mem_append]
    obtain ⟨hmem, hbook, hlater⟩ | ⟨e, hmem, hbook, hlater⟩ := account_tier t ht q n
    · obtain ⟨hmem', hbook', hlater'⟩ | ⟨e, hmem', hbook', hlater'⟩ := ih hrest
      · refine .inl ⟨fun hor => hor.elim hmem hmem', ?_, ?_⟩
        · rw [hbook, hbook']
          rfl
        · rw [hlater, hlater']
          rfl
      · refine .inr ⟨e, .inr hmem', ?_, ?_⟩
        · rw [hbook, hbook']
          rfl
        · rw [hlater, hlater']
          rfl
    · obtain ⟨-, hbook', hlater'⟩ | ⟨-, hmem', -⟩ := ih hrest
      · refine .inr ⟨e, .inl hmem, ?_, ?_⟩
        · rw [hbook, hbook']
          rfl
        · rw [hlater, hlater']
          rfl
      · exact absurd rfl (hdisjoint n hmem n hmem')

/-! ## Accounts of a run -/

/-- The accounts that a run leaves: on that of each component that it fetched, the fetch and the
callbacks of the extension, each once; on the common one no fetch, and the callbacks of the
supplied extensions. -/
def Settled (v : View) (supplied : List (Extension H)) (b : Book H) : Prop :=
  (∀ n, b.account (some n) = [] ∨
    (∃ e, b.account (some n) =
      [.fetched n .definitionMutator (.ok e), .called .definition e none,
        .called .factory e none]) ∨
    ∃ e, b.account (some n) =
      [.fetched n .factoryMutator (.ok e), .called .factory e none]) ∧
  Deed.fetchedNames (b.account none) = [] ∧
  Deed.callbacks (b.account none) =
    if v.writable then
      Deed.calls .definition (supplied.filter (·.views.definitionMutator)) ++
        (Deed.calls .factory (supplied.filter (·.views.definitionMutator)) ++
          Deed.calls .factory (supplied.filter isRegular))
    else Deed.calls .factory (supplied.filter hasFactoryCallback)

/-- The accounts of a run that did everything. -/
def Course.book (c : Course H) (regular : List (Extension H)) (ts : List (Tier H .factory))
    (ds : List (Deed H)) : Book H :=
  Book.common (.entered .separatingSupplied :: (Deed.calls .definition c.first ++
      [.entered .priorityTier])) ++ c.priority.book ++
    Book.common [.entered .orderedTier] ++ c.ordered.book ++
    Book.common [.entered .fixedPointTier] ++ c.rounds.flatMap Tier.book ++
    Book.common (.entered .factoryCallbacks :: Deed.calls .factory c.first) ++
    Book.calls .factory (c.tiers.flatMap Tier.ranked) ++
    Book.common (Deed.calls .factory regular) ++ ts.flatMap Tier.book ++ Book.common ds

theorem Course.deeds_book (c : Course H) (regular : List (Extension H))
    (ts : List (Tier H .factory)) (ds : List (Deed H)) :
    (c.book regular ts ds).map Prod.snd = fullDeeds c regular ts ++ ds := by
  have hextensions : (c.tiers.flatMap Tier.ranked).map Prod.snd =
      c.tiers.flatMap Tier.extensions := by
    rw [List.map_flatMap]
    rfl
  simp only [book, List.map_append, Book.deeds_common, Book.deeds_calls, Tier.deeds_book,
    deeds_tiers, hextensions]
  simp [fullDeeds, factoryDeeds, Course.deeds, opening, mutators, Deed.calls_append]

theorem Course.account_book (c : Course H) (regular : List (Extension H))
    (ts : List (Tier H .factory)) (ds : List (Deed H)) (n : ComponentName) :
    Book.account (some n) (c.book regular ts ds) =
      Book.account (some n) (c.tiers.flatMap Tier.book) ++
        (Book.account (some n) (Book.calls .factory (c.tiers.flatMap Tier.ranked)) ++
          Book.account (some n) (ts.flatMap Tier.book)) := by
  simp [book, tiers]

theorem Course.account_none_book (c : Course H) (regular : List (Extension H))
    (ts : List (Tier H .factory)) (ds : List (Deed H)) :
    Book.account none (c.book regular ts ds) =
      .entered .separatingSupplied :: (Deed.calls .definition c.first ++
        [.entered .priorityTier, .entered .orderedTier, .entered .fixedPointTier,
          .entered .factoryCallbacks] ++ Deed.calls .factory c.first ++
        Deed.calls .factory regular ++ ds) := by
  have hpriority := account_none_tiers [c.priority]
  have hordered := account_none_tiers [c.ordered]
  simp only [List.flatMap_cons, List.flatMap_nil, List.append_nil] at hpriority hordered
  simp [book, account_none_tiers, hpriority, hordered]

theorem Closing.silent {ds : List (Deed H)} (h : Closing ds) :
    Deed.fetchedNames ds = [] ∧ Deed.callbacks ds = [] := by
  obtain rfl | ⟨q, -, rfl⟩ := h
  · exact ⟨rfl, rfl⟩
  · exact ⟨rfl, rfl⟩

theorem Course.settled {v : View} {supplied : List (Extension H)} {c : Course H}
    {ts : List (Tier H .factory)} {ds : List (Deed H)} (hv : v.writable = true)
    (hfirst : c.first = supplied.filter (·.views.definitionMutator))
    (hnames : (c.names ++ ts.flatMap Tier.names).Nodup) (hds : Closing ds) :
    Settled v supplied (c.book (supplied.filter isRegular) ts ds) := by
  obtain ⟨hdefinition, hfactory, hdisjoint⟩ := List.nodup_append.1 hnames
  refine ⟨fun n => ?_, ?_, ?_⟩
  · rw [Course.account_book]
    obtain ⟨-, hbook, hlater⟩ | ⟨e, hmem, hbook, hlater⟩ := account_tiers hdefinition .factory n
    · rw [hbook, hlater]
      obtain ⟨-, hbook', -⟩ | ⟨e, -, hbook', -⟩ := account_tiers hfactory .factory n
      · exact .inl (by rw [hbook']; rfl)
      · exact .inr (.inr ⟨e, by rw [hbook']; rfl⟩)
    · rw [hbook, hlater]
      obtain ⟨-, hbook', -⟩ | ⟨-, hmem', -⟩ := account_tiers hfactory .factory n
      · exact .inr (.inl ⟨e, by rw [hbook']; rfl⟩)
      · exact absurd rfl (hdisjoint n hmem n hmem')
  · rw [Course.account_none_book]
    simp [hds.silent.1]
  · rw [Course.account_none_book, if_pos hv, hfirst]
    simp [hds.silent.2]

theorem degraded_settled {v : View} {supplied : List (Extension H)} {ts : List (Tier H .factory)}
    {ds : List (Deed H)} (hv : v.writable = false) (hnames : (ts.flatMap Tier.names).Nodup)
    (hds : Closing ds) :
    Settled v supplied (Book.common (.entered .factoryCallbacks ::
      Deed.calls .factory (supplied.filter hasFactoryCallback)) ++ ts.flatMap Tier.book ++
        Book.common ds) := by
  refine ⟨fun n => ?_, ?_, ?_⟩
  · simp only [Book.account_append, Book.account_some_common, List.nil_append, List.append_nil]
    obtain ⟨-, hbook, -⟩ | ⟨e, -, hbook, -⟩ := account_tiers hnames .factory n
    · exact .inl hbook
    · exact .inr (.inr ⟨e, hbook⟩)
  · simp [account_none_tiers, hds.silent.1]
  · simp [account_none_tiers, hds.silent.2, hv]

/-- A run that succeeds settles all accounts. -/
theorem Conduct.settled {v : View} {supplied : List (Extension H)} {report : Report}
    {ds : List (Deed H)} (h : Conduct v supplied (.ok ()) report ds) :
    ∃ b : Book H, b.map Prod.snd = ds ∧ Settled v supplied b := by
  cases h with
  | complete c ts p ds hv hfirst hnames hclosing =>
    exact ⟨c.book (supplied.filter isRegular) ts ds, c.deeds_book _ _ _,
      Course.settled hv hfirst hnames hclosing⟩
  | degraded ts r ds hv hnames hclosing =>
    refine ⟨_, ?_, degraded_settled hv hnames hclosing⟩
    simp [deeds_tiers, degradedDeeds]

/-! ## Exactly once -/

/-- No run fetches a component twice, and what it does belongs to two phases, in which it asks for
the capabilities of these phases. If it succeeds, its deeds can be put on accounts such that each
fetch stands on the account of its component together with the callbacks of the extension that was
fetched, each once and in order; what remains are the callbacks of the supplied extensions. -/
theorem fetched_once_called_once (call : Call H σ) (v : View) (depth : Nat)
    (supplied : List (Extension H)) {w w' : World H σ} {result : Except ExtensionError Unit}
    {report : Report} {j : Journal H}
    (h : invoke call v depth supplied w = some ((result, report), w', j)) :
    ∃ body, j = [.scope (.pipeline v supplied report (error? result)) body] ∧
      (Deed.fetchedNames (Journal.deeds body)).Nodup ∧
      (∃ before after, Journal.deeds body = before ++ after ∧
        (∀ d ∈ before, d.Within .definition) ∧ ∀ d ∈ after, d.Within .factory) ∧
      (result = .ok () → ∃ b : Book H, b.map Prod.snd = Journal.deeds body ∧
        Settled v supplied b) := by
  obtain ⟨body, hj, hconduct⟩ := invoke_conduct h
  obtain ⟨before, after, hds, hbefore, hafter⟩ := hconduct.fair
  refine ⟨body, hj, ?_, ⟨before, after, hds, hbefore.within, hafter.within⟩, ?_⟩
  · rw [hds, Deed.fetchedNames_append]
    exact hafter.fresh
  · rintro rfl
    exact hconduct.settled

end Pipeline

/-- The sample run fetches nothing twice, and settles all accounts. -/
theorem Scenario.sampleRun_settled :
    ∃ report w' body b,
      sampleRun = some ((.ok (), report), w',
        [.scope (.pipeline (.direct Setup.base) sampleSupplied report none) body]) ∧
      (Deed.fetchedNames (Journal.deeds body)).Nodup ∧
      List.map Prod.snd b = Journal.deeds body ∧
      Pipeline.Settled (.direct Setup.base) sampleSupplied b := by
  obtain ⟨report, w', j, hrun⟩ := sampleRun_ok
  obtain ⟨body, rfl, hnodup, -, hsettled⟩ := Pipeline.fetched_once_called_once (behaviour.call 3)
    (.direct Setup.base) 3 sampleSupplied hrun
  obtain ⟨b, hb, haccounts⟩ := hsettled rfl
  exact ⟨report, w', body, b, hrun, hnodup, hb, haccounts⟩

end Startup
