import Startup.Proofs.Registry.Resolution
import Startup.Proofs.Registry.Singletons

/-!
The identity of singletons. Three places write to the singletons of a registry: the end of a
creation, the registration of a finished instance, and the change of a definition. A creation runs
arbitrary callbacks in between, and any of them may write too.

Main statement: `singleton_identity`. Whatever happens in a run, a name that has a singleton keeps
it until its definition is replaced or removed, and everyone who asks for the name in the meantime
is given that very instance; what a creation answers and what it leaves in the cache agree.
-/

namespace Startup

variable {H : Host} {σ : Type}

/-! ## Changes of the singletons -/

namespace Registry

variable {s : Registry H} {n k : ComponentName} {d : Definition H} {i : Instance H}
  {a : Except DependencyError (Instance H)}

/-- The instance that counts is the one that is kept. -/
theorem get?_settle : (s.settle n i).2.singletons.get? n = some (s.settle n i).1 := by
  unfold settle
  split <;> rename_i hn
  · exact hn
  · rw [OrderedMap.get?_insert, if_pos rfl]

/-- The end of a creation adds nothing but the product of a singleton's definition, and that only
where there is no singleton yet. -/
theorem get?_conclude (s : Registry H) (n k : ComponentName) (d : Definition H)
    (a : Except DependencyError (Instance H)) :
    (s.conclude n d a).2.singletons.get? k = s.singletons.get? k ∨
      s.singletons.get? k = none ∧ k = n ∧ d.isSingleton = true ∧ ∃ i, a = .ok i ∧
        (s.conclude n d a).2.singletons.get? k = some i := by
  cases a with
  | error e => exact .inl rfl
  | ok i =>
    simp only [conclude]
    split <;> rename_i hd
    · unfold settle
      split <;> rename_i hn
      · exact .inl rfl
      · rw [OrderedMap.get?_insert]
        split <;> rename_i hk
        · subst hk
          exact .inr ⟨hn, rfl, hd, i, rfl, rfl⟩
        · exact .inl rfl
    · exact .inl rfl

/-- A creation that fails, or that is not for a singleton, leaves the singletons alone. -/
theorem singletons_conclude (h : d.isSingleton = false ∨ a.isOk = false) :
    (s.conclude n d a).2.singletons = s.singletons := by
  cases a with
  | error e => rfl
  | ok i =>
    have hd : d.isSingleton = false := h.resolve_right nofun
    simp only [conclude, hd]
    rfl

/-- Where the product of a singleton's definition is handed out, it is the singleton. -/
theorem get?_conclude_answer (hd : d.isSingleton = true)
    (hi : (s.conclude n d a).1 = .ok i) : (s.conclude n d a).2.singletons.get? n = some i := by
  cases a with
  | error e => cases hi
  | ok j =>
    simp only [conclude, hd, if_true] at hi ⊢
    cases hi
    exact get?_settle

theorem contains_settle :
    (s.settle n i).2.singletons.contains k = true ↔
      s.singletons.contains k = true ∨ k = n := by
  unfold settle
  split <;> rename_i hn
  · refine ⟨.inl, fun h => h.elim id ?_⟩
    rintro rfl
    exact OrderedMap.contains_of_some hn
  · rw [OrderedMap.contains, OrderedMap.get?_insert]
    split <;> rename_i hk
    · exact iff_of_true rfl (.inr hk.symm)
    · exact (or_iff_left (Ne.symm hk)).symm

/-- After a creation there is what there was before, and the component if it is a singleton. -/
theorem contains_conclude :
    (s.conclude n d a).2.singletons.contains k = true ↔
      s.singletons.contains k = true ∨ (∃ i, a = .ok i) ∧ d.isSingleton = true ∧ k = n := by
  cases a with
  | error e => simp [conclude, endCreation]
  | ok i =>
    cases hd : d.isSingleton with
    | false => simp [conclude, hd, endCreation]
    | true =>
      simp only [conclude, hd, if_true, contains_settle]
      simp [endCreation]

end Registry

/-- The definition of `n` is replaced or taken out. -/
def Moment.Evicts (r : ObjectId) (n : ComponentName) : Moment H → Prop
  | .fact (.defined r' d overrides) => r' = r ∧ d.name = n ∧ overrides = true
  | .fact (.removed r' k) => r' = r ∧ k = n
  | _ => False

theorem Moment.Evicts.not_elsewhere {r : ObjectId} {n : ComponentName} {m : Moment H}
    (h : m.Evicts r n) : ¬ m.IsElsewhere r := by
  cases m with
  | fact f =>
    cases f with
    | defined | removed => exact fun helsewhere => helsewhere h.1
    | _ => exact h.elim
  | _ => exact h.elim

/-- The instance `i` becomes the singleton of `n`: it is put in by hand, or it is what a creation
from a singleton's definition made. -/
inductive Moment.Gains (r : ObjectId) (n : ComponentName) (i : Instance H) : Moment H → Prop
  | byHand : Gains r n i (.fact (.instanceKept r n i))
  | made {d : Definition H} (outer : List ComponentName) (chain : List (Extension H))
      (hd : d.isSingleton = true) : Gains r n i (.closes (.creation r n d outer chain (.ok i)))

namespace Ledger

variable {r : ObjectId} {l : Ledger H} {n : ComponentName} {i : Instance H}

/-- What a moment can do to the singleton of a name: nothing, drop it, or bring one where there was
none. -/
theorem Step.get?_singletons {m : Moment H} {s : Registry H} (h : l.Step r m s)
    (n : ComponentName) :
    ¬ m.Evicts r n ∧ s.singletons.get? n = l.registry.singletons.get? n ∨
      m.Evicts r n ∧ s.singletons.get? n = none ∨
      l.registry.singletons.get? n = none ∧ ∃ i, m.Gains r n i ∧
        s.singletons.get? n = some i := by
  cases h with
  | defined d hname =>
    simp only [Registry.define]
    split <;> rename_i hcontains
    · rw [OrderedMap.get?_erase]
      split <;> rename_i hn
      · exact .inr (.inl ⟨⟨rfl, hn, hcontains⟩, rfl⟩)
      · exact .inl ⟨fun h => hn h.2.1, rfl⟩
    · exact .inl ⟨fun h => hcontains h.2.2, rfl⟩
  | removed k =>
    simp only [Registry.undefine, OrderedMap.get?_erase]
    split <;> rename_i hn
    · exact .inr (.inl ⟨⟨rfl, hn⟩, rfl⟩)
    · exact .inl ⟨fun h => hn h.2, rfl⟩
  | kept k i hnew =>
    simp only [Registry.keep, OrderedMap.get?_insert]
    split <;> rename_i hn
    · subst hn
      exact .inr (.inr ⟨hnew, i, .byHand, rfl⟩)
    · exact .inl ⟨id, rfl⟩
  | resolution => exact .inl ⟨id, by rw [Registry.singletons_prepare]⟩
  | ended k d outer chain result =>
    rcases Registry.get?_conclude l.registry k n d result with
      hsame | ⟨hnone, rfl, hd, i, rfl, hi⟩
    · exact .inl ⟨id, hsame⟩
    · exact .inr (.inr ⟨hnone, i, .made outer chain hd, hi⟩)
  | installed | cleared | begun => exact .inl ⟨id, rfl⟩
  | elsewhere hm => exact .inl ⟨fun hevicts => hevicts.not_elsewhere hm, rfl⟩

/-- A moment that does not evict the singleton of a name leaves it where it is. -/
theorem keeps_next {m : Moment H} (hm : l.Allows r m) (hx : ¬ m.Evicts r n)
    (hi : l.registry.singletons.get? n = some i) :
    (l.next r m).registry.singletons.get? n = some i := by
  rcases (step hm).get?_singletons n with ⟨-, hsame⟩ | ⟨hevicts, -⟩ | ⟨hnone, -⟩
  · exact hsame.trans hi
  · exact absurd hevicts hx
  · rw [hi] at hnone
    cases hnone

/-- A singleton that is there after a moment was not evicted by it: it was there before, or came in
at that moment. -/
theorem gains_next {m : Moment H} (hm : l.Allows r m)
    (hi : (l.next r m).registry.singletons.get? n = some i) :
    ¬ m.Evicts r n ∧ l.registry.singletons.get? n = some i ∨ m.Gains r n i := by
  rcases (step hm).get?_singletons n with ⟨hx, hsame⟩ | ⟨-, hnone⟩ | ⟨-, k, hgains, hk⟩
  · exact .inl ⟨hx, hsame.symm.trans hi⟩
  · rw [hi] at hnone
    cases hnone
  · rw [hi] at hk
    cases hk
    exact .inr hgains

/-- Where there is a singleton, no other one is put in. -/
theorem Allows.not_kept {k : Instance H} (hi : l.registry.singletons.get? n = some i) :
    ¬ l.Allows r (.fact (.instanceKept r n k)) := by
  intro hm
  have hnew := hm rfl
  rw [OrderedMap.contains_of_some hi] at hnew
  cases hnew

/-! ## Stretches of a history -/

/-- The singleton of a name stays all through a stretch without eviction, and nobody puts another
one in meanwhile. -/
theorem Lawful.keeps {ms : List (Moment H)} (hlaw : l.Lawful r ms)
    (hms : ∀ m ∈ ms, ¬ m.Evicts r n) (hi : l.registry.singletons.get? n = some i) :
    (l.after r ms).registry.singletons.get? n = some i ∧
      ∀ k, .fact (.instanceKept r n k) ∉ ms := by
  induction ms generalizing l with
  | nil => exact ⟨hi, fun _ => List.not_mem_nil⟩
  | cons m ms ih =>
    obtain ⟨hm, hrest⟩ := hlaw
    obtain ⟨hx, hxs⟩ := List.forall_mem_cons.1 hms
    obtain ⟨hkept, hnone⟩ := ih hrest hxs (keeps_next hm hx hi)
    refine ⟨hkept, fun k hk => ?_⟩
    rcases List.mem_cons.1 hk with rfl | hlater
    · exact Allows.not_kept hi hm
    · exact hnone k hlater

/-- A singleton was there from the start, or it came in at some moment, and it was not evicted
since. -/
theorem Lawful.gained {ms : List (Moment H)} (hlaw : l.Lawful r ms)
    (hi : (l.after r ms).registry.singletons.get? n = some i) :
    (l.registry.singletons.get? n = some i ∧ ∀ m ∈ ms, ¬ m.Evicts r n) ∨
      ∃ before m since, ms = before ++ m :: since ∧ m.Gains r n i ∧
        ∀ m' ∈ since, ¬ m'.Evicts r n := by
  induction ms generalizing l with
  | nil => exact .inl ⟨hi, List.forall_mem_nil _⟩
  | cons m ms ih =>
    obtain ⟨hm, hrest⟩ := hlaw
    rcases ih hrest hi with ⟨hnext, hsince⟩ | ⟨before, m', since, rfl, hgains, hsince⟩
    · rcases gains_next hm hnext with ⟨hx, hold⟩ | hgains
      · exact .inl ⟨hold, List.forall_mem_cons.2 ⟨hx, hsince⟩⟩
      · exact .inr ⟨[], m, ms, rfl, hgains, hsince⟩
    · exact .inr ⟨m :: before, m', since, rfl, hgains, hsince⟩

/-- Whatever a resolution answers after creating its component from the definition of a singleton
is the singleton once it is over. -/
theorem Resolves.answer_kept {v : View} {d : Definition H} {outer : List ComponentName}
    {chain : List (Extension H)} {result : Except DependencyError (Instance H)}
    {inner : Journal H}
    (h : l.Resolves r v n (.ok i) [.scope (.creation r n d outer chain result) inner])
    (hlaw : l.Lawful r (Event.moments (.scope (.resolution v n (.ok i))
      [.scope (.creation r n d outer chain result) inner])))
    (hd : d.isSingleton = true) :
    (l.after r (Event.moments (.scope (.resolution v n (.ok i))
      [.scope (.creation r n d outer chain result) inner]))).registry.singletons.get? n =
        some i := by
  cases h with
  | created _ _ _ _ ha =>
    rw [hlaw.after_created]
    exact Registry.get?_conclude_answer hd ha.symm

/-! ## Runs -/

/-- What holds of the singletons of a registry all along a journal, if the ledger is `l` before
it. -/
structure Steady (r : ObjectId) (l : Ledger H) (j : Journal H) : Prop where
  /-- A singleton stays until it is evicted, and no other one is put in meanwhile. -/
  stays : ∀ past since future, Journal.moments j = past ++ since ++ future → ∀ n i,
    (l.after r past).registry.singletons.get? n = some i → (∀ m ∈ since, ¬ m.Evicts r n) →
      (l.after r (past ++ since)).registry.singletons.get? n = some i ∧
        ∀ k, .fact (.instanceKept r n k) ∉ since
  /-- Until then, whoever asks for its name is given that instance, and nothing is created. -/
  answers : ∀ past since v n i answer body,
    Journal.Occurs (.scope (.resolution v n answer) body) (past ++ since) j → v.registry = r →
      (l.after r past).registry.singletons.get? n = some i →
        (∀ m ∈ since, ¬ m.Evicts r n) → answer = .ok i ∧ body = []
  /-- A resolution that creates its component from a singleton's definition answers with the
  singleton that is there when it returns. -/
  agrees : ∀ past v n i d outer chain result inner,
    Journal.Occurs (.scope (.resolution v n (.ok i))
      [.scope (.creation r n d outer chain result) inner]) past j → v.registry = r →
        d.isSingleton = true →
          (l.after r (past ++ Event.moments (.scope (.resolution v n (.ok i))
            [.scope (.creation r n d outer chain result) inner]))).registry.singletons.get? n =
              some i
  /-- The end of a creation that failed, or that is not for a singleton, changes no singleton. -/
  unmoved : ∀ past n d outer chain result future,
    Journal.moments j = past ++ .closes (.creation r n d outer chain result) :: future →
      d.isSingleton = false ∨ result.isOk = false →
        (l.after r (past ++ [.closes (.creation r n d outer chain result)])).registry.singletons =
          (l.after r past).registry.singletons
  /-- Every singleton was there from the start, or was put in by hand, or was made from the
  definition of a singleton; and it was not evicted since. -/
  gained : ∀ past future, Journal.moments j = past ++ future → ∀ n i,
    (l.after r past).registry.singletons.get? n = some i →
      (l.registry.singletons.get? n = some i ∧ ∀ m ∈ past, ¬ m.Evicts r n) ∨
        ∃ before m since, past = before ++ m :: since ∧ m.Gains r n i ∧
          ∀ m' ∈ since, ¬ m'.Evicts r n

end Ledger

/-- The singletons of any registry in any run. The ledger of the moments so far is the registry at
that moment. In it every singleton keeps its identity: whatever happens and however deep it is
nested, the singleton of a name stays and is handed out until its definition is replaced or
removed, and what creations answer is what they leave behind. In whatever world there is a
singleton, a resolution succeeds with it at once, and to register an instance under its name fails
and changes nothing. -/
theorem singleton_identity {α : Type} (b : Behaviour H σ) (depth : Nat) (x : Program H σ α)
    (r : ObjectId) {w w' : World H σ} {a : α} {j : Journal H}
    (hrun : b.run depth x w = some (a, w', j)) :
    ((Ledger.of (w.registries.get r)).after r (Journal.moments j)).registry =
        w'.registries.get r ∧
      (Ledger.of (w.registries.get r)).Steady r j ∧
      ∀ (u : World H σ) n i, (u.registries.get r).singletons.get? n = some i →
        (∀ (call : Call H σ) (v : View), v.registry = r →
          (v.resolve call n).run u = some (.ok i, u, [.scope (.resolution v n (.ok i)) []])) ∧
        ∀ k, Registry.registerInstance r n k u =
          some (.error (.registration n.text "已存在同名单例实例"), u, []) := by
  obtain ⟨hlaw, hregistry, htells⟩ := Ledger.of_run b depth x r hrun
  refine ⟨hregistry, ⟨?_, ?_, ?_, ?_, ?_⟩, ?_⟩
  · intro past since future hsplit n i hi hsince
    rw [hsplit, List.append_assoc, Ledger.lawful_append, Ledger.lawful_append] at hlaw
    rw [Ledger.after_append]
    exact hlaw.2.1.keeps hsince hi
  · intro past since v n i answer body hoccurs hv hi hsince
    have hpast := (hlaw.at_entry hoccurs).1
    rw [Ledger.lawful_append] at hpast
    obtain ⟨hkept, -⟩ := hpast.2.keeps hsince hi
    rw [← Ledger.after_append] at hkept
    exact (htells _ _ _ hoccurs hv).of_some hkept
  · intro past v n i d outer chain result inner hoccurs hv hd
    rw [Ledger.after_append]
    exact (htells past _ _ hoccurs hv).answer_kept (hlaw.at_entry hoccurs).2 hd
  · intro past n d outer chain result future hsplit hd
    rw [hsplit, Ledger.lawful_append] at hlaw
    rw [Ledger.after_append, Ledger.after_single, Ledger.next_closes_creation hlaw.2.1]
    exact Registry.singletons_conclude hd
  · intro past future hsplit n i hi
    rw [hsplit, Ledger.lawful_append] at hlaw
    exact hlaw.1.gained hi
  · intro u n i hi
    refine ⟨fun call v hv => ?_, fun k => ?_⟩
    · subst hv
      exact View.resolve_cached call hi
    · rw [Registry.registerInstance_run, if_pos (OrderedMap.contains_of_some hi)]

/-! ### An instance that is put in during its own creation -/

namespace Scenario

/-- The factory of this definition puts another instance in under its own name. -/
def selfKeeping : DefinitionSpec :=
  labelled "made" [.mk {} (.perform .quiet (.registerInstance "a" (.made (.plain "kept"))))]

/-- Register a definition of `a`, and resolve that component two times. -/
def resolveBoth (d : DefinitionSpec) : Program Scripted Memory
    (Except DependencyError (Instance Scripted) × Except DependencyError (Instance Scripted)) := do
  let _ ← Program.request (.register Setup.base d.toDefinition)
  let first ← Program.request (.resolve (.direct Setup.base) ⟨"a"⟩)
  let second ← Program.request (.resolve (.direct Setup.base) ⟨"a"⟩)
  return (first, second)

/-- The instance that was put in first counts, also for the creation in which that happened. -/
theorem selfKeeping_steady :
    ∃ p, behaviour.run 3 (resolveBoth selfKeeping) (Setup.world {}) = some p ∧
      labelOf p.1.1 = some "kept" ∧ labelOf p.1.2 = some "kept" ∧
      (Ledger.of ((Setup.world {}).registries.get Setup.base)).Steady Setup.base p.2.2 := by
  have hlabels : (behaviour.run 3 (resolveBoth selfKeeping) (Setup.world {})).map
      (fun p => (labelOf p.1.1, labelOf p.1.2)) = some (some "kept", some "kept") := by
    decide +kernel
  obtain ⟨⟨a, w', j⟩, hrun, heq⟩ := Option.map_eq_some_iff.1 hlabels
  obtain ⟨hfirst, hsecond⟩ := Prod.mk.inj heq
  obtain ⟨-, hsteady, -⟩ :=
    singleton_identity behaviour 3 (resolveBoth selfKeeping) Setup.base hrun
  exact ⟨(a, w', j), hrun, hfirst, hsecond, hsteady⟩

end Scenario

end Startup
