import Startup.Proofs.Registry.Ledger
import Startup.Proofs.Registry.Turns

/-!
What the entry of a resolution tells, wherever it stands in a journal. The moments before it lead
to a ledger, and that ledger decides what is found: a singleton, no definition, a component that
depends on itself, or a definition to create from.

Main statement: `Accounts.program`, that every resolution in the journal of a program is of one of
these kinds, and every creation made the turns of its chain.
-/

namespace Startup

variable {H : Host} {σ : Type}

/-! ## Entries at any depth -/

/-- An entry stands somewhere in a journal, at whatever depth, and these moments came before it. -/
inductive Journal.Occurs (e : Event H) : List (Moment H) → List (Event H) → Prop
  | here (rest : List (Event H)) : Occurs e [] (e :: rest)
  | inside {past : List (Moment H)} {body : List (Event H)} (s : Scope H)
      (rest : List (Event H)) (h : Occurs e past body) :
      Occurs e (.opens s :: past) (.scope s body :: rest)
  | later {past : List (Moment H)} {rest : List (Event H)} (x : Event H)
      (h : Occurs e past rest) : Occurs e (x.moments ++ past) (x :: rest)

namespace Journal

variable {e : Event H} {past : List (Moment H)}

/-- The moments of an entry come right after those before it. -/
theorem Occurs.split {j : Journal H} (h : Occurs e past j) :
    ∃ future, Journal.moments j = past ++ e.moments ++ future := by
  induction h with
  | here rest => exact ⟨Journal.moments rest, rfl⟩
  | inside s rest _ ih =>
    obtain ⟨future, hbody⟩ := ih
    exact ⟨future ++ .closes s :: Journal.moments rest, by
      simp [Journal.moments, Event.moments, hbody]⟩
  | later x _ ih =>
    obtain ⟨future, hrest⟩ := ih
    exact ⟨future, by simp [Journal.moments, hrest]⟩

theorem Occurs.of_append {j k : Journal H} (h : Occurs e past (j ++ k)) :
    Occurs e past j ∨ ∃ past', past = Journal.moments j ++ past' ∧ Occurs e past' k := by
  induction j generalizing past with
  | nil => exact .inr ⟨past, rfl, h⟩
  | cons x rest ih =>
    cases h with
    | here => exact .inl (.here rest)
    | inside s _ hbody => exact .inl (.inside s rest hbody)
    | later _ hlater =>
      rcases ih hlater with hleft | ⟨past', rfl, hright⟩
      · exact .inl (.later x hleft)
      · exact .inr ⟨past', by simp [Journal.moments], hright⟩

/-- Among facts there is nothing but facts. -/
theorem Occurs.of_facts {j : Journal H} (h : Occurs e past j) (hj : ∀ x ∈ j, ∃ f, x = .fact f) :
    ∃ f, e = .fact f := by
  induction h with
  | here rest => exact hj e List.mem_cons_self
  | inside s rest _ _ =>
    obtain ⟨f, hf⟩ := hj _ List.mem_cons_self
    cases hf
  | later x _ ih => exact ih fun y hy => hj y (List.mem_cons_of_mem x hy)

theorem Occurs.of_scope {s : Scope H} {body : Journal H} (h : Occurs e past [.scope s body]) :
    e = .scope s body ∧ past = [] ∨ ∃ past', past = .opens s :: past' ∧ Occurs e past' body := by
  cases h with
  | here => exact .inl ⟨rfl, rfl⟩
  | inside _ _ hbody => exact .inr ⟨_, rfl, hbody⟩
  | later _ hnil => cases hnil

end Journal

/-! ## Resolutions -/

namespace Ledger

/-- What a resolution of `n` answers and what stands in its entry, if the ledger is `l` when it
begins. -/
inductive Resolves (r : ObjectId) (l : Ledger H) (v : View) (n : ComponentName)
    (answer : Except DependencyError (Instance H)) : Journal H → Prop
  /-- There is a singleton. -/
  | found {i : Instance H} (hi : l.registry.singletons.get? n = some i)
      (ha : answer = .ok i) : Resolves r l v n answer []
  /-- There is no definition. -/
  | unknown (hnone : l.registry.singletons.get? n = none)
      (hd : (l.registry.lookup n).1 = none) (ha : answer = .error (.notRegistered n.text)) :
      Resolves r l v n answer []
  /-- The component is being created already. -/
  | circular {d : Definition H} (hnone : l.registry.singletons.get? n = none)
      (hd : (l.registry.lookup n).1 = some d) (hin : n ∈ l.registry.inCreation)
      (ha : answer =
        .error (.circular (Creation.cycleText (l.registry.inCreation ++ [n])))) :
      Resolves r l v n answer []
  /-- The component is created, by the turns of the chain that is installed now. The creation
  concludes in the registry that these turns leave behind. -/
  | created {d : Definition H} {result : Except DependencyError (Instance H)} {body : Journal H}
      (hnone : l.registry.singletons.get? n = none)
      (hd : (l.registry.lookup n).1 = some d) (hin : n ∉ l.registry.inCreation)
      (hturns : Creation.Performed r n d (Creation.turns l.registry.interceptors) none body
        (result.map some))
      (ha : answer = ((l.after r (.opens (.resolution v n answer) :: .opens (.creation r n d
        l.registry.inCreation l.registry.interceptors result) ::
          Journal.moments body)).registry.conclude n d result).1) :
      Resolves r l v n answer
        [.scope (.creation r n d l.registry.inCreation l.registry.interceptors result) body]

/-- What the body of an entry is, if the ledger is `l` when the activity begins. That of a
resolution is as the resolution went; that of a creation consists of the turns of its chain. -/
def Tells (r : ObjectId) (l : Ledger H) : Scope H → Journal H → Prop
  | .resolution v n answer, body => v.registry = r → l.Resolves r v n answer body
  | .creation r' n d _ chain result, body =>
    r' = r → Creation.Performed r n d (Creation.turns chain) none body (result.map some)
  | _, _ => True

variable {r : ObjectId} {l : Ledger H}

theorem tells_aside {s : Scope H} (hs : s.IsAside) (body : Journal H) : l.Tells r s body := by
  cases s <;> trivial

/-- Where there is a singleton, it is the answer. -/
theorem Resolves.of_some {v : View} {n : ComponentName} {i : Instance H}
    {answer : Except DependencyError (Instance H)} {body : Journal H}
    (h : l.Resolves r v n answer body) (hi : l.registry.singletons.get? n = some i) :
    answer = .ok i ∧ body = [] := by
  cases h with
  | found hi' ha =>
    rw [hi] at hi'
    cases hi'
    exact ⟨ha, rfl⟩
  | unknown hnone | circular hnone | created hnone =>
    rw [hi] at hnone
    cases hnone

/-! ## Creations that are over -/

/-- A lawful history is lawful up to an entry and inside of it. -/
theorem Lawful.at_entry {e : Event H} {past : List (Moment H)} {j : Journal H}
    (hlaw : l.Lawful r (Journal.moments j)) (hoccurs : Journal.Occurs e past j) :
    l.Lawful r past ∧ (l.after r past).Lawful r e.moments := by
  obtain ⟨future, hsplit⟩ := hoccurs.split
  rw [hsplit, List.append_assoc, lawful_append, lawful_append] at hlaw
  exact ⟨hlaw.1, hlaw.2.1⟩

/-- A creation that is closed concludes with its result. -/
theorem next_closes_creation {n : ComponentName} {d : Definition H} {outer : List ComponentName}
    {chain : List (Extension H)} {result : Except DependencyError (Instance H)}
    (h : l.Allows r (.closes (.creation r n d outer chain result))) :
    (l.next r (.closes (.creation r n d outer chain result))).registry =
      (l.registry.conclude n d result).2 := by
  obtain ⟨rest, hrest⟩ := h rfl
  simp only [next, if_true, finish, hrest]

/-- After the entry of a resolution that created its component, the registry is the one in which
the creation concluded. -/
theorem Lawful.after_created {v : View} {n : ComponentName} {d : Definition H}
    {outer : List ComponentName} {chain : List (Extension H)}
    {answer result : Except DependencyError (Instance H)} {body : Journal H}
    (h : l.Lawful r (Event.moments (.scope (.resolution v n answer)
      [.scope (.creation r n d outer chain result) body]))) :
    (l.after r (Event.moments (.scope (.resolution v n answer)
      [.scope (.creation r n d outer chain result) body]))).registry =
      ((l.after r (.opens (.resolution v n answer) ::
        .opens (.creation r n d outer chain result) ::
          Journal.moments body)).registry.conclude n d result).2 := by
  have hsplit : Event.moments (.scope (.resolution v n answer)
      [.scope (.creation r n d outer chain result) body]) =
        (.opens (.resolution v n answer) :: .opens (.creation r n d outer chain result) ::
          Journal.moments body) ++
            [.closes (.creation r n d outer chain result), .closes (.resolution v n answer)] := by
    rw [Event.moments, Journal.moments_scope]
    simp
  rw [hsplit, lawful_append] at h
  rw [hsplit, after_append]
  exact next_closes_creation h.2.1

end Ledger

/-! ## Runs that leave nothing but facts -/

/-- There is no activity in the journal of the run. -/
def Run.Records {α : Type} (x : Run H σ α) : Prop :=
  ∀ w a w' j, x w = some (a, w', j) → ∀ e ∈ j, ∃ f, e = .fact f

namespace Run.Records

variable {α : Type}

theorem pure (a : α) : Records (Pure.pure a : Run H σ α) := by
  intro w b w' j h
  cases h
  exact nofun

theorem exceeded : Records (Run.exceeded : Run H σ α) := by
  intro w a w' j h
  cases h

theorem ask (f : World H σ → α) : Records (Run.ask f) := by
  intro w a w' j h
  cases h
  exact nofun

theorem fresh : Records (Run.fresh : Run H σ ObjectId) := by
  intro w a w' j h
  cases h
  exact nofun

theorem change (f : World H σ → World H σ) : Records (Run.change f) := by
  intro w a w' j h
  cases h
  exact nofun

theorem record (f : Fact H) : Records (Run.record f : Run H σ Unit) := by
  intro w a w' j h
  cases h
  exact fun e he => ⟨f, List.mem_singleton.1 he⟩

end Run.Records

/-! ## Runs that edit a registry -/

/-- A fact about a change of a registry, or about a wish to change it. -/
def Fact.IsEdit : Fact H → Prop
  | .defined .. | .removed .. | .instanceKept .. | .installing .. | .installed ..
  | .notInterceptor _ | .clearing _ | .cacheCleared .. => True
  | _ => False

/-- The run changes nothing but registries and leaves nothing but facts about that. -/
structure Run.Edit (w w' : World H σ) (j : Journal H) : Prop where
  next : w'.next = w.next
  checkers : w'.checkers = w.checkers
  contexts : w'.contexts = w.contexts
  detectors : w'.detectors = w.detectors
  facts : ∀ e ∈ j, ∃ f, e = .fact f ∧ f.IsEdit

def Run.Edits {α : Type} (x : Run H σ α) : Prop :=
  ∀ w a w' j, x w = some (a, w', j) → Run.Edit w w' j

theorem Run.Edits.records {α : Type} {x : Run H σ α} (h : x.Edits) : x.Records :=
  fun w a w' j hrun e he => ((h w a w' j hrun).facts e he).imp fun _ hf => hf.1

theorem Registry.register_edits (r : ObjectId) (d : Definition H) :
    Run.Edits (Registry.register r d : Run H σ _) := by
  intro w a w' j h
  rw [Registry.register_run] at h
  split at h
  all_goals
    cases h
    exact ⟨rfl, rfl, rfl, rfl, by simp [Fact.IsEdit]⟩

theorem Registry.remove_edits (r : ObjectId) (n : ComponentName) :
    Run.Edits (Registry.remove r n : Run H σ _) := by
  intro w a w' j h
  rw [Registry.remove_run] at h
  split at h
  all_goals
    cases h
    exact ⟨rfl, rfl, rfl, rfl, by simp [Fact.IsEdit]⟩

theorem Registry.registerInstance_edits (r : ObjectId) (n : ComponentName) (i : Instance H) :
    Run.Edits (Registry.registerInstance r n i : Run H σ _) := by
  intro w a w' j h
  rw [Registry.registerInstance_run] at h
  split at h
  all_goals
    cases h
    exact ⟨rfl, rfl, rfl, rfl, by simp [Fact.IsEdit]⟩

theorem View.install_edits (v : View) (e : Extension H) :
    Run.Edits (v.install e : Run H σ Unit) := by
  intro w a w' j h
  rw [View.install_run] at h
  split at h
  all_goals
    cases h
    exact ⟨rfl, rfl, rfl, rfl, by simp [Fact.IsEdit]⟩

theorem View.clearCache_edits (v : View) : Run.Edits (v.clearCache : Run H σ Unit) := by
  intro w a w' j h
  rw [View.clearCache_run] at h
  cases h
  exact ⟨rfl, rfl, rfl, rfl, by simp [Fact.IsEdit]⟩

/-! ## Runs and their resolutions -/

/-- The journal of a finished run leads to the registry after it, and each entry in it is what the
ledger of its own past makes it. -/
structure Accounts (r : ObjectId) {α : Type} (x : Run H σ α) : Prop where
  tracks : Tracks r x
  tells : ∀ (l : Ledger H) (w : World H σ) (a : α) (w' : World H σ) (j : Journal H),
    x w = some (a, w', j) → l.registry = w.registries.get r →
    ∀ past s body, Journal.Occurs (.scope s body) past j → (l.after r past).Tells r s body

namespace Accounts

variable {r : ObjectId} {α β : Type}

/-- A run that leaves nothing but facts has nothing to account for. -/
theorem of_records {x : Run H σ α} (hx : Tracks r x) (h : x.Records) : Accounts r x where
  tracks := hx
  tells l w a w' j hrun _ past s body hoccurs := by
    obtain ⟨f, hf⟩ := hoccurs.of_facts (h w a w' j hrun)
    cases hf

theorem pure (a : α) : Accounts r (Pure.pure a : Run H σ α) :=
  of_records (Tracks.pure a) (.pure a)

theorem exceeded : Accounts r (Run.exceeded : Run H σ α) :=
  of_records Tracks.exceeded .exceeded

theorem bind {x : Run H σ α} {f : α → Run H σ β} (hx : Accounts r x)
    (hf : ∀ a, Accounts r (f a)) : Accounts r (x >>= f) where
  tracks := hx.tracks.bind fun a => (hf a).tracks
  tells l w b w₂ j h hl past s body hoccurs := by
    obtain ⟨a, w₁, j₁, j₂, h₁, h₂, rfl⟩ := Run.bind_eq_some.1 h
    rcases hoccurs.of_append with hfirst | ⟨past', rfl, hsecond⟩
    · exact hx.tells l w a w₁ j₁ h₁ hl past s body hfirst
    · have hmid := (hx.tracks l w a w₁ j₁ h₁ hl).registry
      rw [Ledger.after_append]
      exact (hf a).tells _ w₁ b w₂ j₂ h₂ hmid past' s body hsecond

theorem within {s : α → Scope H} {x : Run H σ α} (hs : ∀ a, (s a).IsAside)
    (hx : Accounts r x) : Accounts r (Run.within s x) where
  tracks := hx.tracks.within hs
  tells l w a w' j h hl past s' body hoccurs := by
    obtain ⟨j', h', rfl⟩ := Run.within_eq_some.1 h
    rcases hoccurs.of_scope with ⟨heq, -⟩ | ⟨past', rfl, hinside⟩
    · cases heq
      exact Ledger.tells_aside (hs a) body
    · rw [Ledger.after_cons, Ledger.next_opens (hs a)]
      exact hx.tells l w a w' j' h' hl past' s' body hinside

/-- The entries inside of a creation, and the creation itself. The world is the one in which a
resolution has looked its definition up. -/
theorem create {call : Call H σ} {r' : ObjectId} {n : ComponentName} {d : Definition H}
    (hbuild : ∀ chain, Accounts r (Creation.build call (.direct r') n d chain).run)
    {l : Ledger H} {w w' : World H σ} {a : Except DependencyError (Instance H)} {j : Journal H}
    (h : (Creation.create call r' n d).run w = some (a, w', j))
    (hl : l.registry = w.registries.get r) :
    (∀ past s body, Journal.Occurs (.scope s body) past j → (l.after r past).Tells r s body) ∧
    (r' = r →
      (n ∈ l.registry.inCreation ∧ j = [] ∧
        a = .error (.circular (Creation.cycleText (l.registry.inCreation ++ [n])))) ∨
      (n ∉ l.registry.inCreation ∧ ∃ result body,
        Creation.Performed r n d (Creation.turns l.registry.interceptors) none body
          (result.map some) ∧
        a = ((l.after r (.opens (.creation r n d l.registry.inCreation l.registry.interceptors
          result) :: Journal.moments body)).registry.conclude n d result).1 ∧
        j = [.scope (.creation r n d l.registry.inCreation l.registry.interceptors result)
          body])) := by
  obtain ⟨hin, rfl, rfl, rfl⟩ | ⟨hin, result, w₁, j₁, hrun, rfl, rfl, rfl⟩ :=
    Creation.create_eq_some call h
  · constructor
    · intro past s body hoccurs
      cases hoccurs
    · rintro rfl
      rw [hl]
      exact .inl ⟨hin, rfl, rfl⟩
  · have hbegin := Ledger.next_creation hl r' ⟨n, d, (w.registries.get r').inCreation,
      (w.registries.get r').interceptors, result⟩
    refine ⟨fun past s body hoccurs => ?_, ?_⟩
    · obtain ⟨heq, -⟩ | ⟨past', rfl, hinside⟩ := hoccurs.of_scope
      · cases heq
        rintro rfl
        exact Creation.build_performed hrun
      · exact (hbuild _).tells _ _ _ _ _ hrun hbegin past' s body hinside
    · rintro rfl
      have hend := ((hbuild _).tracks _ _ _ _ _ hrun hbegin).registry
      rw [hl]
      refine .inr ⟨hin, result, j₁, Creation.build_performed hrun, ?_, rfl⟩
      rw [Ledger.after_cons, ← hend]
      rfl

/-- The body of a resolution, and the entries inside of it. -/
theorem resolve {call : Call H σ} (v : View) (n : ComponentName)
    (hbuild : ∀ d chain, Accounts r (Creation.build call (.direct v.registry) n d chain).run) :
    Accounts r (v.resolve call n).run where
  tracks := Tracks.resolve v n fun d chain => (hbuild d chain).tracks
  tells l w a w' j h hl past s body hoccurs := by
    obtain ⟨i, hi, rfl, rfl, rfl⟩ |
      ⟨hnone, ⟨hlook, rfl, rfl, rfl⟩ | ⟨d, j', hlook, hcreate, rfl⟩⟩ := View.resolve_eq_some call h
    · rcases hoccurs.of_scope with ⟨heq, rfl⟩ | ⟨past', -, hinside⟩
      · cases heq
        rintro rfl
        exact .found (by rw [Ledger.after_nil, hl, hi]) rfl
      · cases hinside
    · rcases hoccurs.of_scope with ⟨heq, rfl⟩ | ⟨past', -, hinside⟩
      · cases heq
        rintro rfl
        refine .unknown ?_ ?_ rfl
        · rw [Ledger.after_nil, hl, hnone]
        · rw [Ledger.after_nil, hl, hlook]
      · cases hinside
    · have hnext := Ledger.next_resolution_of_none hl hnone a
      obtain ⟨hinner, hbody⟩ := create (hbuild d) hcreate hnext
      rcases hoccurs.of_scope with ⟨heq, rfl⟩ | ⟨past', rfl, hinside⟩
      · cases heq
        rintro rfl
        have hbegin := hnext
        rw [World.get_setRegistry_self, ← hl] at hbegin
        have hstack : (l.next v.registry (.opens (.resolution v n a))).registry.inCreation =
            l.registry.inCreation := by
          rw [hbegin, Registry.inCreation_lookup]
        have hchain : (l.next v.registry (.opens (.resolution v n a))).registry.interceptors =
            l.registry.interceptors := by
          rw [hbegin, Registry.interceptors_lookup]
        rw [hstack, hchain] at hbody
        rw [← hl] at hnone hlook
        rw [Ledger.after_nil]
        obtain ⟨hin, rfl, ha⟩ | ⟨hin, result, inner, hturns, ha, rfl⟩ := hbody rfl
        · exact .circular hnone hlook hin ha
        · exact .created hnone hlook hin hturns ha
      · rw [Ledger.after_cons]
        exact hinner past' s body hinside

theorem coarse : Coarse (fun {α} (x : Run H σ α) => Accounts r x) where
  pure := pure
  bind := bind
  ask f := of_records (Tracks.ask f) (.ask f)
  fresh := of_records Tracks.fresh .fresh
  change f hf := of_records (Tracks.change hf) (.change f)
  record f hf := of_records (Tracks.record hf) (.record f)
  within _ _ hs hx := hx.within hs

theorem of_edits {x : Run H σ α} (hx : Tracks r x) (h : x.Edits) : Accounts r x :=
  of_records hx h.records

theorem closed {call : Call H σ} (hcall : ∀ cb, Accounts r (call cb)) :
    Closed call (fun {α} (x : Run H σ α) => Accounts r x) :=
  coarse.closed (fun r' d => of_edits (Tracks.register r' d) (Registry.register_edits r' d))
    (fun r' n => of_edits (Tracks.remove r' n) (Registry.remove_edits r' n))
    (fun r' n i =>
      of_edits (Tracks.registerInstance r' n i) (Registry.registerInstance_edits r' n i))
    (fun v e => of_edits (Tracks.install v e) (v.install_edits e))
    (fun v => of_edits (Tracks.clearCache v) v.clearCache_edits)
    (fun v n h => resolve v n h) hcall

/-- What the library does among callbacks of a behaviour is accounted for. -/
theorem behaviour (b : Behaviour H σ) (depth : Nat) :
    Closed (b.call depth) (fun {α} (x : Run H σ α) => Accounts r x) :=
  b.closed (fun _ => exceeded) (fun _ => closed) depth

/-- Every entry in the journal of a program is what the ledger of its own past makes it. -/
theorem program (b : Behaviour H σ) (depth : Nat) (x : Program H σ α) :
    Accounts r (b.run depth x) :=
  (behaviour b depth).program (fun _ => exceeded) depth x

end Accounts

/-- What a finished program tells of a registry, whatever the state is in which it found it. -/
theorem Ledger.of_run {α : Type} (b : Behaviour H σ) (depth : Nat) (x : Program H σ α)
    (r : ObjectId) {w w' : World H σ} {a : α} {j : Journal H}
    (hrun : b.run depth x w = some (a, w', j)) :
    (Ledger.of (w.registries.get r)).Lawful r (Journal.moments j) ∧
      ((Ledger.of (w.registries.get r)).after r (Journal.moments j)).registry =
        w'.registries.get r ∧
      ∀ past s body, Journal.Occurs (.scope s body) past j →
        ((Ledger.of (w.registries.get r)).after r past).Tells r s body := by
  obtain ⟨htracks, htells⟩ := Accounts.program (r := r) b depth x
  obtain ⟨hlaw, hregistry, -⟩ := htracks (.of (w.registries.get r)) w a w' j hrun rfl
  exact ⟨hlaw, hregistry, htells (.of (w.registries.get r)) w a w' j hrun rfl⟩

end Startup
