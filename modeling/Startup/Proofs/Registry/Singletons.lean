import Startup.Proofs.Registry.Ledger
import Startup.Scenario.Basic

/-!
The cached singletons of a registry and the definitions they were made from.

To replace or to remove a definition drops the singleton of its name, so a singleton that is kept
should be the work of the definition that is registered. A creation, however, looks its definition
up when it begins and keeps its result when it ends: if the definition changes in between, there
is no singleton to drop yet, and the old definition's instance is kept nevertheless.

Main statements: `Sound.next` and `Sound.after`, the invariant behind it; `cached_current_iff`,
that a cached instance is the work of the registered definition just when no definition was put in
or taken out under its name while it was being created.
-/

namespace Startup

variable {H : Host} {σ : Type}

/-- A definition of `n` is put in, replaced or taken out. -/
def Moment.Revises (r : ObjectId) (n : ComponentName) : Moment H → Prop
  | .fact (.defined r' d _) => r' = r ∧ d.name = n
  | .fact (.removed r' k) => r' = r ∧ k = n
  | _ => False

theorem Moment.Revises.eq {r : ObjectId} {n : ComponentName} {x : Moment H}
    (h : x.Revises r n) :
    (∃ d overrides, x = .fact (.defined r d overrides) ∧ d.name = n) ∨
      x = .fact (.removed r n) := by
  cases x with
  | fact f =>
    cases f with
    | defined r' d overrides =>
      obtain ⟨rfl, hn⟩ := h
      exact .inl ⟨d, overrides, rfl, hn⟩
    | removed r' k =>
      obtain ⟨rfl, rfl⟩ := h
      exact .inr rfl
    | _ => exact h.elim
  | _ => exact h.elim

/-- All along, the definition of `n` stays as it is. -/
def Unrevised (r : ObjectId) (n : ComponentName) (ms : List (Moment H)) : Prop :=
  ∀ m ∈ ms, ¬ m.Revises r n

theorem unrevised_append {r : ObjectId} {n : ComponentName} {ms ms' : List (Moment H)} :
    Unrevised r n (ms ++ ms') ↔ Unrevised r n ms ∧ Unrevised r n ms' :=
  List.forall_mem_append

theorem unrevised_snoc {r : ObjectId} {n : ComponentName} {ms : List (Moment H)} {m : Moment H} :
    Unrevised r n (ms ++ [m]) ↔ Unrevised r n ms ∧ ¬ m.Revises r n := by
  rw [unrevised_append]
  simp [Unrevised]

namespace Ledger

/-! ## The invariant -/

/-- A creation that began and ended in the past, with what came in between and after it. -/
def Happened (r : ObjectId) (past : List (Moment H)) (m : Making H)
    (during since : List (Moment H)) : Prop :=
  ∃ before, past =
    before ++ .opens (m.scope r) :: (during ++ .closes (m.scope r) :: since)

/-- What is known of a singleton `i` of the name `n`. One that was put in left a fact. One that was
made belongs to a creation that has ended; if the definition was not revised during the creation,
it was not revised since either, and it is the registered one. -/
def Explains (r : ObjectId) (past : List (Moment H)) (l : Ledger H) (n : ComponentName)
    (i : Instance H) : Origin H → Prop
  | .byHand j => j = i ∧ .fact (.instanceKept r n i) ∈ past
  | .made m => m.result = .ok i ∧ m.name = n ∧ ∃ during since, Happened r past m during since ∧
      (Unrevised r n during →
        Unrevised r n since ∧ l.registry.definitions.get? n = some m.definition)

/-- What holds of the ledger at every moment. -/
structure Sound (r : ObjectId) (past : List (Moment H)) (l : Ledger H) : Prop where
  /-- What is remembered for creation is registered. -/
  merged : ∀ n d, l.registry.merged.get? n = some d → l.registry.definitions.get? n = some d
  /-- A creation that is under way began with the registered definition, unless that was revised
  in the meantime. -/
  creations : ∀ m ∈ l.creations, ∃ before during,
    past = before ++ .opens (m.scope r) :: during ∧
      (Unrevised r m.name during → l.registry.definitions.get? m.name = some m.definition)
  singletons : ∀ n i, l.registry.singletons.get? n = some i →
    ∃ o, l.origin n = some o ∧ l.Explains r past n i o

variable {r : ObjectId} {past : List (Moment H)} {l : Ledger H}

theorem Explains.snoc {l' : Ledger H} {x : Moment H} {n : ComponentName} {o : Origin H}
    {i : Instance H} (h : l.Explains r past n i o) (hx : ¬ x.Revises r n)
    (hdefinition : l'.registry.definitions.get? n = l.registry.definitions.get? n) :
    l'.Explains r (past ++ [x]) n i o := by
  cases o with
  | byHand j => exact ⟨h.1, List.mem_append_left _ h.2⟩
  | made m =>
    obtain ⟨hi, hn, during, since, ⟨before, hpast⟩, hcurrent⟩ := h
    refine ⟨hi, hn, during, since ++ [x], ⟨before, by simp [hpast]⟩, fun hd => ?_⟩
    obtain ⟨hsince, hregistered⟩ := hcurrent hd
    rw [hdefinition]
    exact ⟨unrevised_snoc.2 ⟨hsince, hx⟩, hregistered⟩

/-- Once the definition of `n` is revised, no creation that is over counts for it. -/
theorem Explains.revised {l' : Ledger H} {x : Moment H} {n : ComponentName} {o : Origin H}
    {i : Instance H} (h : l.Explains r past n i o)
    (hundefined : l.registry.definitions.get? n = none) :
    l'.Explains r (past ++ [x]) n i o := by
  cases o with
  | byHand j => exact ⟨h.1, List.mem_append_left _ h.2⟩
  | made m =>
    obtain ⟨hi, hn, during, since, ⟨before, hpast⟩, hcurrent⟩ := h
    refine ⟨hi, hn, during, since ++ [x], ⟨before, by simp [hpast]⟩, fun hd => ?_⟩
    -- no definition was registered, so it had been revised during the creation already
    rw [hundefined] at hcurrent
    cases (hcurrent hd).2

theorem creation_snoc {l' : Ledger H} {x : Moment H} {m : Making H}
    (h : ∃ before during, past = before ++ .opens (m.scope r) :: during ∧
      (Unrevised r m.name during → l.registry.definitions.get? m.name = some m.definition))
    (hdefinition : x.Revises r m.name ∨
      l'.registry.definitions.get? m.name = l.registry.definitions.get? m.name) :
    ∃ before during, past ++ [x] = before ++ .opens (m.scope r) :: during ∧
      (Unrevised r m.name during →
        l'.registry.definitions.get? m.name = some m.definition) := by
  obtain ⟨before, during, hpast, hcurrent⟩ := h
  refine ⟨before, during ++ [x], by simp [hpast], fun hd => ?_⟩
  obtain ⟨hduring, hx⟩ := unrevised_snoc.1 hd
  rw [hdefinition.resolve_left hx]
  exact hcurrent hduring

/-- The definitions, the singletons and their origins stay as they were. -/
theorem Sound.of_same {l' : Ledger H} {x : Moment H} (h : l.Sound r past)
    (hx : ∀ n, ¬ x.Revises r n)
    (hdefinitions : l'.registry.definitions = l.registry.definitions)
    (hsingletons : l'.registry.singletons = l.registry.singletons)
    (horigin : l'.origin = l.origin)
    (hmerged : ∀ n d, l'.registry.merged.get? n = some d →
      l.registry.merged.get? n = some d ∨ l.registry.definitions.get? n = some d)
    (hcreations : ∀ m ∈ l'.creations, m ∈ l.creations ∨
      x = .opens (m.scope r) ∧ l.registry.definitions.get? m.name = some m.definition) :
    l'.Sound r (past ++ [x]) where
  merged n d hm := by
    rw [hdefinitions]
    exact (hmerged n d hm).elim (h.merged n d) id
  creations m hm := by
    rcases hcreations m hm with hold | ⟨rfl, hd⟩
    · exact creation_snoc (h.creations m hold) (.inr (by rw [hdefinitions]))
    · exact ⟨past, [], rfl, fun _ => by rw [hdefinitions, hd]⟩
  singletons n i hi := by
    rw [hsingletons] at hi
    obtain ⟨o, ho, hexplains⟩ := h.singletons n i hi
    exact ⟨o, by rw [horigin, ho], hexplains.snoc (hx n) (by rw [hdefinitions])⟩

/-- The definition of `n` is revised: no singleton of it is left, unless it had none. -/
theorem Sound.revise {n : ComponentName} {s : Registry H} {x : Moment H} (h : l.Sound r past)
    (hx : ∀ k, x.Revises r k ↔ k = n)
    (hmerged : ∀ k d, s.merged.get? k = some d → k ≠ n ∧ l.registry.merged.get? k = some d)
    (hdefinitions : ∀ k, k ≠ n → s.definitions.get? k = l.registry.definitions.get? k)
    (hsingletons : ∀ k i, s.singletons.get? k = some i →
      l.registry.singletons.get? k = some i ∧
        (k = n → l.registry.definitions.get? n = none)) :
    Sound r (past ++ [x]) { l with registry := s } where
  merged k d hk := by
    obtain ⟨hne, hk⟩ := hmerged k d hk
    rw [hdefinitions k hne]
    exact h.merged k d hk
  creations m hm := by
    refine creation_snoc (h.creations m hm) ?_
    by_cases hn : m.name = n
    · exact .inl ((hx m.name).2 hn)
    · exact .inr (hdefinitions m.name hn)
  singletons k i hi := by
    obtain ⟨hi, hundefined⟩ := hsingletons k i hi
    obtain ⟨o, ho, hexplains⟩ := h.singletons k i hi
    refine ⟨o, ho, ?_⟩
    by_cases hk : k = n
    · subst hk
      exact hexplains.revised (hundefined rfl)
    · exact hexplains.snoc (fun hrevised => hk ((hx k).1 hrevised)) (hdefinitions k hk)

/-! ## Steps -/

theorem Sound.define (h : l.Sound r past) (d : Definition H) (overrides : Bool) :
    Sound r (past ++ [.fact (.defined r d overrides)])
      { l with registry := l.registry.define d } := by
  refine h.revise (n := d.name) (fun k => ?_) (fun k d' hk => ?_) (fun k hk => ?_) fun k i hi => ?_
  · simp [Moment.Revises, eq_comm]
  · simp only [Registry.define, OrderedMap.get?_erase] at hk
    split at hk
    · cases hk
    · exact ⟨Ne.symm ‹_›, hk⟩
  · simp only [Registry.define, OrderedMap.get?_insert, if_neg (Ne.symm hk)]
  · simp only [Registry.define] at hi
    by_cases hold : l.registry.definitions.contains d.name = true
    · rw [if_pos hold, OrderedMap.get?_erase] at hi
      split at hi
      · cases hi
      · exact ⟨hi, fun hk => absurd hk.symm ‹_›⟩
    · rw [if_neg hold] at hi
      exact ⟨hi, fun _ => by simpa [OrderedMap.contains] using hold⟩

theorem Sound.undefine (h : l.Sound r past) (n : ComponentName) :
    Sound r (past ++ [.fact (.removed r n)]) { l with registry := l.registry.undefine n } := by
  refine h.revise (n := n) (fun k => ?_) (fun k d' hk => ?_) (fun k hk => ?_) fun k i hi => ?_
  · simp [Moment.Revises, eq_comm]
  · simp only [Registry.undefine, OrderedMap.get?_erase] at hk
    split at hk
    · cases hk
    · exact ⟨Ne.symm ‹_›, hk⟩
  · simp only [Registry.undefine, OrderedMap.get?_erase, if_neg (Ne.symm hk)]
  · simp only [Registry.undefine, OrderedMap.get?_erase] at hi
    split at hi
    · cases hi
    · exact ⟨hi, fun hk => absurd hk.symm ‹_›⟩

/-- A finished instance is put in under a name that has no singleton. -/
theorem Sound.keep {n : ComponentName} {i : Instance H} (h : l.Sound r past) :
    Sound r (past ++ [.fact (.instanceKept r n i)])
      { l with
        registry := l.registry.keep n i
        origin := Function.update l.origin n (some (.byHand i)) } where
  merged := h.merged
  creations m hm := creation_snoc (h.creations m hm) (.inr rfl)
  singletons k j hj := by
    by_cases hk : k = n
    · subst hk
      have hji : i = j := by
        simpa [Registry.keep, OrderedMap.get?_insert] using hj
      subst hji
      exact ⟨.byHand i, Function.update_self .., rfl, by simp⟩
    · have hj : l.registry.singletons.get? k = some j := by
        simpa [Registry.keep, OrderedMap.get?_insert, Ne.symm hk] using hj
      obtain ⟨o, ho, hexplains⟩ := h.singletons k j hj
      exact ⟨o, (Function.update_of_ne hk ..).trans ho,
        hexplains.snoc id rfl⟩

theorem Sound.lookup (h : l.Sound r past) (v : View) (n : ComponentName)
    (result : Except DependencyError (Instance H)) :
    Sound r (past ++ [.opens (.resolution v n result)])
      { l with registry := l.registry.prepare n } := by
  have hsame : (l.registry.prepare n).singletons = l.registry.singletons ∧
      (l.registry.prepare n).definitions = l.registry.definitions ∧
      ∀ k d, (l.registry.prepare n).merged.get? k = some d →
        l.registry.merged.get? k = some d ∨ l.registry.definitions.get? k = some d := by
    unfold Registry.prepare Registry.lookup
    split
    · exact ⟨rfl, rfl, fun _ _ => .inl⟩
    · split
      · exact ⟨rfl, rfl, fun _ _ => .inl⟩
      · split
        · rename_i d hd
          refine ⟨rfl, rfl, fun k d' hk => ?_⟩
          rw [OrderedMap.get?_insert] at hk
          split at hk
          · rename_i hn
            exact .inr (by rw [← hn, hd, hk])
          · exact .inl hk
        · exact ⟨rfl, rfl, fun _ _ => .inl⟩
  exact h.of_same (fun _ => id) hsame.2.1 hsame.1 rfl hsame.2.2 fun _ => .inl

/-- A creation ends and nothing is kept. -/
theorem Sound.drop {m : Making H} {rest : List (Making H)} (h : l.Sound r past)
    (hcreations : l.creations = m :: rest) :
    Sound r (past ++ [.closes (m.scope r)])
      { l with registry := l.registry.endCreation m.name, creations := rest } := by
  have hrest : ∀ m' ∈ rest, m' ∈ l.creations := by
    intro m' hm
    rw [hcreations]
    exact List.mem_cons_of_mem _ hm
  exact h.of_same (fun _ => id) rfl rfl rfl (fun _ _ => .inl) fun m' hm => .inl (hrest m' hm)

/-- A creation ends and its result is kept. If the definition was not revised in the meantime, it is
still the registered one. -/
theorem Sound.settle {m : Making H} {rest : List (Making H)} {i : Instance H} (h : l.Sound r past)
    (hcreations : l.creations = m :: rest) (hresult : m.result = .ok i) :
    Sound r (past ++ [.closes (m.scope r)])
      { registry :=
          { l.registry.endCreation m.name with
            singletons := l.registry.singletons.insert m.name i }
        creations := rest
        origin := Function.update l.origin m.name (some (.made m)) } where
  merged := h.merged
  creations := (h.drop hcreations).creations
  singletons n j hj := by
    rw [OrderedMap.get?_insert] at hj
    by_cases hname : m.name = n
    · subst hname
      rw [if_pos rfl] at hj
      cases hj
      have hm : m ∈ l.creations := by
        rw [hcreations]
        exact List.mem_cons_self
      obtain ⟨before, during, hpast, hcurrent⟩ := h.creations m hm
      have hhappened : Happened r (past ++ [.closes (m.scope r)]) m during [] :=
        ⟨before, by simp [hpast]⟩
      refine ⟨.made m, Function.update_self .., hresult, rfl, during, [], hhappened, ?_⟩
      intro hduring
      exact ⟨List.forall_mem_nil _, hcurrent hduring⟩
    · rw [if_neg hname] at hj
      obtain ⟨o, ho, hexplains⟩ := h.singletons n j hj
      have horigin := Function.update_of_ne (Ne.symm hname) (some (.made m)) l.origin
      exact ⟨o, horigin.trans ho, hexplains.snoc id rfl⟩

/-- A creation ends. Its result is kept only if there is no singleton yet. -/
theorem Sound.finish {m : Making H} {rest : List (Making H)} (h : l.Sound r past)
    (hcreations : l.creations = m :: rest) :
    l.finish.Sound r (past ++ [.closes (m.scope r)]) := by
  have hdropped := h.drop hcreations
  cases hresult : m.result with
  | error e =>
    simpa [Ledger.finish, hcreations, hresult, Registry.conclude, Except.isOk, Except.toBool]
      using hdropped
  | ok i =>
    by_cases hd : m.definition.isSingleton = true
    · cases hn : l.registry.singletons.get? m.name with
      | some j =>
        have hcontains : l.registry.singletons.contains m.name = true := by
          rw [OrderedMap.contains, hn]
          rfl
        have hsettle : (l.registry.endCreation m.name).settle m.name i =
            (j, l.registry.endCreation m.name) := by
          simp [Registry.settle, Registry.endCreation, hn]
        simpa [Ledger.finish, hcreations, hresult, Registry.conclude, hd, hcontains, hsettle]
          using hdropped
      | none =>
        have hcontains : l.registry.singletons.contains m.name = false := by
          rw [OrderedMap.contains, hn]
          rfl
        have hsettled := h.settle hcreations hresult
        simpa [Ledger.finish, hcreations, hresult, Registry.conclude, hd, hcontains,
          Registry.settle, Registry.endCreation, hn, Except.isOk, Except.toBool] using hsettled
    · simpa [Ledger.finish, hcreations, hresult, Registry.conclude, hd] using hdropped

/-- A moment that may concern another registry. -/
theorem Sound.of_ite {p : Prop} [Decidable p] {x : Moment H} {l' : Ledger H} (h : l.Sound r past)
    (hnew : p → l'.Sound r (past ++ [x])) (hx : ¬ p → ∀ n, ¬ x.Revises r n) :
    (if p then l' else l).Sound r (past ++ [x]) := by
  by_cases hp : p
  · rw [if_pos hp]
    exact hnew hp
  · rw [if_neg hp]
    exact h.of_same (hx hp) rfl rfl rfl (fun _ _ => .inl) fun _ => .inl

/-- Every moment that may come keeps the ledger sound. -/
theorem Sound.next {m : Moment H} (h : l.Sound r past) (hm : l.Allows r m) :
    (l.next r m).Sound r (past ++ [m]) := by
  have hskip (hx : ∀ n, ¬ m.Revises r n) : l.Sound r (past ++ [m]) :=
    h.of_same hx rfl rfl rfl (fun _ _ => .inl) fun _ => .inl
  cases m with
  | fact f =>
    cases f with
    | defined r' d overrides =>
      refine h.of_ite (fun hr => ?_) fun hr _ hx => hr hx.1
      subst hr
      exact h.define d overrides
    | removed r' n =>
      refine h.of_ite (fun hr => ?_) fun hr _ hx => hr hx.1
      subst hr
      exact h.undefine n
    | instanceKept r' n i =>
      refine h.of_ite (fun hr => ?_) fun _ _ => id
      subst hr
      exact h.keep
    | installed r' e position =>
      refine h.of_ite (fun _ => ?_) fun _ _ => id
      exact h.of_same (fun _ => id) rfl rfl rfl (fun _ _ => .inl) fun _ => .inl
    | cacheCleared r' entries =>
      refine h.of_ite (fun _ => ?_) fun _ _ => id
      refine h.of_same (fun _ => id) rfl rfl rfl (fun n d hd => ?_) fun _ => .inl
      cases hd
    | _ => exact hskip fun _ => id
  | opens s =>
    cases s with
    | resolution v n result => exact h.of_ite (fun _ => h.lookup v n result) fun _ _ => id
    | creation r' n d outer chain result =>
      refine h.of_ite (fun hr => ?_) fun _ _ => id
      subst hr
      refine h.of_same (fun _ => id) rfl rfl rfl (fun _ _ => .inl) fun m hmem => ?_
      rcases List.mem_cons.1 hmem with rfl | hold
      · exact .inr ⟨rfl, h.merged n d (hm rfl).1⟩
      · exact .inl hold
    | _ => exact hskip fun _ => id
  | closes s =>
    cases s with
    | creation r' n d outer chain result =>
      refine h.of_ite (fun hr => ?_) fun _ _ => id
      obtain ⟨rest, hcreations⟩ := hm hr
      subst hr
      exact h.finish hcreations
    | _ => exact hskip fun _ => id

/-- A lawful history keeps the ledger sound. -/
theorem Sound.after {ms : List (Moment H)} (h : l.Sound r past) (hlaw : l.Lawful r ms) :
    (l.after r ms).Sound r (past ++ ms) := by
  induction ms generalizing l past with
  | nil => simpa [Ledger.after] using h
  | cons m ms ih =>
    have hnext := ih (h.next hlaw.1) hlaw.2
    rw [List.append_assoc] at hnext
    exact hnext

/-- A singleton without a definition was put in by hand, or comes from a creation in the middle of
which its definition was revised. -/
theorem Sound.undefined {n : ComponentName} {i : Instance H} (h : l.Sound r past)
    (hi : l.registry.singletons.get? n = some i) (hn : l.registry.definitions.get? n = none) :
    .fact (.instanceKept r n i) ∈ past ∨ ∃ m during since, m.result = .ok i ∧ m.name = n ∧
      Happened r past m during since ∧ ¬ Unrevised r n during := by
  obtain ⟨o, -, hexplains⟩ := h.singletons n i hi
  cases o with
  | byHand k => exact .inl hexplains.2
  | made m =>
    obtain ⟨hresult, hname, during, since, hhappened, hcurrent⟩ := hexplains
    refine .inr ⟨m, during, since, hresult, hname, hhappened, fun hduring => ?_⟩
    have hd := (hcurrent hduring).2
    rw [hn] at hd
    cases hd

/-! ## Revisions -/

/-- A moment that does not revise the definition of `n` leaves it as it is. -/
theorem get?_next {n : ComponentName} {x : Moment H} (hx : ¬ x.Revises r n) :
    (l.next r x).registry.definitions.get? n = l.registry.definitions.get? n := by
  cases x with
  | fact f =>
    cases f with
    | defined r' d overrides =>
      simp only [Ledger.next]
      split
      · rename_i hr
        have hn : d.name ≠ n := fun hn => hx ⟨hr, hn⟩
        simp only [Registry.define, OrderedMap.get?_insert, if_neg hn]
      · rfl
    | removed r' k =>
      simp only [Ledger.next]
      split
      · rename_i hr
        have hn : k ≠ n := fun hn => hx ⟨hr, hn⟩
        simp only [Registry.undefine, OrderedMap.get?_erase, if_neg hn]
      · rfl
    | instanceKept | installed | cacheCleared =>
      simp only [Ledger.next]
      split <;> rfl
    | _ => rfl
  | opens s =>
    cases s with
    | resolution v k result =>
      simp only [Ledger.next]
      split
      · rw [Registry.definitions_prepare]
      · rfl
    | creation r' k d outer chain result =>
      simp only [Ledger.next]
      split <;> rfl
    | _ => rfl
  | closes s =>
    cases s with
    | creation r' k d outer chain result =>
      simp only [Ledger.next, Ledger.finish]
      split
      · split
        · rfl
        · rw [Registry.definitions_conclude]
      · rfl
    | _ => rfl

theorem get?_after {n : ComponentName} {ms : List (Moment H)} (h : Unrevised r n ms) :
    (l.after r ms).registry.definitions.get? n = l.registry.definitions.get? n := by
  induction ms generalizing l with
  | nil => rfl
  | cons x ms ih =>
    obtain ⟨hx, hms⟩ := List.forall_mem_cons.1 h
    rw [after_cons, ih hms, get?_next hx]

/-- Once the definition of `n` was revised, the one that is registered now was put in since. -/
theorem defined_since {n : ComponentName} {d : Definition H} {ms : List (Moment H)}
    (h : ¬ Unrevised r n ms) (hd : (l.after r ms).registry.definitions.get? n = some d) :
    ∃ overrides, .fact (.defined r d overrides) ∈ ms := by
  induction ms generalizing l with
  | nil => exact absurd (List.forall_mem_nil _) h
  | cons x ms ih =>
    rw [after_cons] at hd
    by_cases hms : Unrevised r n ms
    · have hx : x.Revises r n := by
        by_contra hx
        exact h (List.forall_mem_cons.2 ⟨hx, hms⟩)
      rw [get?_after hms] at hd
      obtain ⟨d', overrides, rfl, rfl⟩ | rfl := hx.eq
      · have hnew : (l.registry.define d').definitions.get? d'.name = some d := by
          simpa [Ledger.next] using hd
        rw [Registry.define, OrderedMap.get?_insert, if_pos rfl] at hnew
        cases hnew
        exact ⟨overrides, List.mem_cons_self⟩
      · have hgone : (l.registry.undefine n).definitions.get? n = some d := by
          simpa [Ledger.next] using hd
        rw [Registry.undefine, OrderedMap.get?_erase, if_pos rfl] at hgone
        cases hgone
    · obtain ⟨overrides, hmem⟩ := ih hms hd
      exact ⟨overrides, List.mem_cons_of_mem _ hmem⟩

/-! ## Histories of an empty registry -/

/-- The ledger of an empty registry. -/
def start (c : Option (Comparator H)) : Ledger H := { registry := { comparator? := c } }

theorem sound_start (c : Option (Comparator H)) : (start c).Sound r [] where
  merged _ _ hd := by cases hd
  creations _ hm := absurd hm List.not_mem_nil
  singletons _ _ hi := by cases hi

/-- If the definition was revised during a creation, the registered one is not the one that the
creation began with, but was put in since. -/
theorem Happened.defined_since {c : Option (Comparator H)} {m : Making H}
    {during since : List (Moment H)} {d : Definition H} (h : Happened r past m during since)
    (hrevised : ¬ Unrevised r m.name during)
    (hd : ((start c).after r past).registry.definitions.get? m.name = some d) :
    ∃ overrides, .fact (.defined r d overrides) ∈ during ++ since := by
  obtain ⟨before, rfl⟩ := h
  rw [after_append] at hd
  have hall : ¬ Unrevised r m.name
      (.opens (m.scope r) :: (during ++ .closes (m.scope r) :: since)) := by
    intro hall
    exact hrevised (unrevised_append.1 (List.forall_mem_cons.1 hall).2).1
  obtain ⟨overrides, hmem⟩ := Ledger.defined_since hall hd
  exact ⟨overrides, by simpa using hmem⟩

/-- In the middle of a lawful history, the rest of it may come. -/
theorem Lawful.next_allowed {c : Option (Comparator H)} {future : List (Moment H)} {x : Moment H}
    (h : (start c).Lawful r (past ++ x :: future)) : ((start c).after r past).Allows r x :=
  (lawful_append.1 h).2.1

end Ledger

/-! ## Programs on an empty registry -/

/-- The registry of a program that began with an empty one, at any moment of its run. A singleton
was put in by hand, or a creation made it; then it is the work of the registered definition, which
was not revised since the creation looked it up, just when the definition was not revised during
the creation. If it was, then the registered definition, if there is one, was put in after the
creation had begun with another. Moreover a resolution answers with the singleton where there is
one, and a creation begins with the registered definition. -/
theorem cached_current_iff {α : Type} (b : Behaviour H σ) (depth : Nat) (x : Program H σ α)
    (r : ObjectId) (c : Option (Comparator H)) {w w' : World H σ} {a : α} {j : Journal H}
    (hempty : w.registries.get r = { comparator? := c })
    (hrun : b.run depth x w = some (a, w', j)) :
    ((Ledger.start c).after r (Journal.moments j)).registry = w'.registries.get r ∧
    ∀ past future, Journal.moments j = past ++ future →
      let l := (Ledger.start c).after r past
      (∀ n i, l.registry.singletons.get? n = some i →
        (l.origin n = some (.byHand i) ∧ .fact (.instanceKept r n i) ∈ past) ∨
        ∃ m during since, l.origin n = some (.made m) ∧ m.name = n ∧ m.result = .ok i ∧
          Ledger.Happened r past m during since ∧
          (l.registry.definitions.get? n = some m.definition ∧ Unrevised r n (during ++ since) ↔
            Unrevised r n during) ∧
          (¬ Unrevised r n during → ∀ d, l.registry.definitions.get? n = some d →
            ∃ overrides, .fact (.defined r d overrides) ∈ during ++ since)) ∧
      (∀ v n i result rest, future = .opens (.resolution v n result) :: rest →
        v.registry = r → l.registry.singletons.get? n = some i → result = .ok i) ∧
      ∀ n d outer chain result rest,
        future = .opens (.creation r n d outer chain result) :: rest →
          l.registry.definitions.get? n = some d := by
  obtain ⟨hlaw, hregistry, -⟩ :=
    Tracks.program b depth x (Ledger.start c) w a w' j hrun (by rw [hempty]; rfl)
  refine ⟨hregistry, fun past future hsplit => ?_⟩
  rw [hsplit] at hlaw
  have hsound : ((Ledger.start c).after r past).Sound r past :=
    (Ledger.sound_start c).after (Ledger.lawful_append.1 hlaw).1
  refine ⟨fun n i hi => ?_, fun v n i result rest hfuture hv hi => ?_,
    fun n d outer chain result rest hfuture => ?_⟩
  · obtain ⟨o, ho, hexplains⟩ := hsound.singletons n i hi
    cases o with
    | byHand j' =>
      obtain ⟨rfl, hfact⟩ := hexplains
      exact .inl ⟨ho, hfact⟩
    | made m =>
      obtain ⟨hresult, hname, during, since, hhappened, hcurrent⟩ := hexplains
      subst hname
      refine .inr ⟨m, during, since, ho, rfl, hresult, hhappened, ⟨fun h => ?_, fun h => ?_⟩, ?_⟩
      · exact (unrevised_append.1 h.2).1
      · obtain ⟨hsince, hregistered⟩ := hcurrent h
        exact ⟨hregistered, unrevised_append.2 ⟨h, hsince⟩⟩
      · intro hrevised d hd
        exact hhappened.defined_since hrevised hd
  · rw [hfuture] at hlaw
    exact hlaw.next_allowed hv i hi
  · rw [hfuture] at hlaw
    exact hsound.merged n d (hlaw.next_allowed rfl).1

/-! ### A definition that is replaced by its own factory -/

namespace Scenario

/-- A component `a` that is an object with a label. -/
def labelled (label : String) (create : List Step) : DefinitionSpec :=
  .mk "a" .plain [] .unordered .application .singleton false [] create (.plain label)

/-- The factory of this definition puts another definition in its place. -/
def selfReplacing : DefinitionSpec :=
  labelled "old" [.mk {} (.perform .quiet (.register (labelled "new" [])))]

/-- Resolve the component before and after its definition has been replaced, as it turns out. -/
def resolveTwice : Program Scripted Memory
    (Except DependencyError (Instance Scripted) × Except DependencyError (Instance Scripted)) := do
  let _ ← Program.request (.register Setup.base selfReplacing.toDefinition)
  let first ← Program.request (.resolve (.direct Setup.base) ⟨"a"⟩)
  let second ← Program.request (.resolve (.direct Setup.base) ⟨"a"⟩)
  return (first, second)

/-- The label of an instance. -/
def labelOf (i : Except DependencyError (Instance Scripted)) : Option String :=
  i.toOption.map fun i => Content.label i.value

/-- The label that a definition gives to its instances. -/
def productOf (d : Definition Scripted) : Option String :=
  match d.factory with
  | .factory _ (.plain label) => some label
  | _ => none

/-- The second resolution begins after the old definition has been replaced, and answers with the
instance that the old definition made. -/
theorem replaced_in_creation_stale :
    (behaviour.run 3 resolveTwice (Setup.world {})).map (fun p =>
      (labelOf p.1.1, labelOf p.1.2,
        ((p.2.1.registries.get Setup.base).definitions.get? ⟨"a"⟩).bind productOf)) =
      some (some "old", some "old", some "new") := by
  decide +kernel

/-- In that run, what is cached was put in by hand, or its creation is found among the moments and
decides whether the instance is current. -/
theorem resolveTwice_accounted :
    ∃ p, behaviour.run 3 resolveTwice (Setup.world {}) = some p ∧
      ∀ i, (p.2.1.registries.get Setup.base).singletons.get? ⟨"a"⟩ = some i →
        .fact (.instanceKept Setup.base ⟨"a"⟩ i) ∈ Journal.moments p.2.2 ∨
        ∃ m during since, m.name = ⟨"a"⟩ ∧ m.result = .ok i ∧
          Ledger.Happened Setup.base (Journal.moments p.2.2) m during since ∧
          ((p.2.1.registries.get Setup.base).definitions.get? ⟨"a"⟩ = some m.definition ∧
              Unrevised Setup.base ⟨"a"⟩ (during ++ since) ↔
            Unrevised Setup.base ⟨"a"⟩ during) ∧
          (¬ Unrevised Setup.base ⟨"a"⟩ during → ∀ d,
            (p.2.1.registries.get Setup.base).definitions.get? ⟨"a"⟩ = some d →
            ∃ overrides, .fact (.defined Setup.base d overrides) ∈ during ++ since) := by
  have hfinished : (behaviour.run 3 resolveTwice (Setup.world {})).isSome = true := by
    decide +kernel
  obtain ⟨⟨a, w', j⟩, hrun⟩ := Option.isSome_iff_exists.1 hfinished
  refine ⟨(a, w', j), hrun, fun i hi => ?_⟩
  obtain ⟨hregistry, hcurrent⟩ :=
    cached_current_iff behaviour 3 resolveTwice Setup.base none rfl hrun
  obtain ⟨hcached, -⟩ := hcurrent (Journal.moments j) [] (List.append_nil _).symm
  rw [hregistry] at hcached
  rcases hcached ⟨"a"⟩ i hi with ⟨-, hfact⟩ | ⟨m, during, since, -, hrest⟩
  · exact .inl hfact
  · exact .inr ⟨m, during, since, hrest⟩

end Scenario

end Startup
