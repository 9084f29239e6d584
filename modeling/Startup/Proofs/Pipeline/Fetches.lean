import Startup.Proofs.Registry.Stack
import Startup.Proofs.Pipeline.FailFast
import Startup.Proofs.Interceptor.Course

/-!
The fetches of a run, each with all that the run had noted before it. So the registry at the moment
of a fetch is known, and with it what the fetch can give.

Main statements: `View.resolve_outcome`, the three ways a resolution can go while no callback fails;
`View.fetch_fails`, that an extension which the registry offers is fetched unless the run stands in
the middle of its creation.
-/

namespace Startup

variable {H : Host} {σ : Type}

/-! ## Callbacks that succeed, and callbacks that change no definition -/

/-- A callback begins that is going to fail. -/
def Moment.fails : Moment H → Bool
  | .opens (.call cb a) => (cb.failure? a).isSome
  | _ => false

/-- A definition of registry `r` is put in or taken out. -/
def Moment.edits (r : ObjectId) : Moment H → Bool
  | .fact (.defined r' ..) | .fact (.removed r' _) => r' = r
  | _ => false

namespace Journal

/-- No callback fails. -/
def Succeeds (j : Journal H) : Prop := ∀ m ∈ moments j, m.fails = false

/-- Inside of callbacks no definition of registry `r` is changed. -/
def Stable (r : ObjectId) (j : Journal H) : Prop := ∀ m ∈ called j, m.edits r = false

instance (j : Journal H) : Decidable j.Succeeds :=
  inferInstanceAs (Decidable (∀ m ∈ moments j, m.fails = false))

instance (r : ObjectId) (j : Journal H) : Decidable (j.Stable r) :=
  inferInstanceAs (Decidable (∀ m ∈ called j, m.edits r = false))

variable {j k : Journal H} {r : ObjectId}

theorem succeeds_append : Succeeds (j ++ k) ↔ Succeeds j ∧ Succeeds k := by
  unfold Succeeds
  rw [moments_append]
  exact List.forall_mem_append

theorem Succeeds.body {s : Scope H} (h : Succeeds [.scope s j]) : Succeeds j := by
  intro m hm
  refine h m ?_
  rw [moments_scope]
  exact List.mem_cons_of_mem _ (List.mem_append_left _ hm)

/-- A call whose failure is noted is no success. -/
theorem Succeeds.answer {cb : Callback H} {a : cb.Answer} {body : Journal H}
    (h : Succeeds j) (hmem : .scope (.call cb a) body ∈ j) : cb.failure? a = none := by
  obtain ⟨before, rest, rfl⟩ := List.append_of_mem hmem
  have hopens := h (.opens (.call cb a)) (by
    rw [moments_append]
    exact List.mem_append_right _ (by simp [moments, Event.moments]))
  simpa [Moment.fails] using hopens

theorem Stable.unrevised (h : j.Stable r) (n : ComponentName) : Unrevised r n (called j) := by
  intro m hm hrevises
  have hedits := h m hm
  obtain ⟨d, overrides, rfl, -⟩ | rfl := hrevises.eq
  · simp [Moment.edits] at hedits
  · simp [Moment.edits] at hedits

end Journal

/-! ## What a registry offers -/

/-- The instance, as an extension with a capability. -/
def Instance.as (i : Instance H) (n : ComponentName) (c : Capability) :
    Except DependencyError (Extension H) :=
  match i.extension? with
  | some e =>
    if e.supports c then .ok e else .error (.capabilityMismatch n.text c.name i.typeName)
  | none => .error (.capabilityMismatch n.text c.name i.typeName)

def Instance.offers (i : Instance H) (c : Capability) : Bool := i.extension?.any (·.supports c)

theorem Instance.as_of_offers {i : Instance H} {c : Capability} (h : i.offers c = true)
    (n : ComponentName) : ∃ e, i.as n c = .ok e := by
  unfold Instance.offers at h
  unfold Instance.as
  cases he : i.extension? with
  | none => simp [he] at h
  | some e =>
    have hsupports : e.supports c = true := by simpa [he] using h
    exact ⟨e, by simp [hsupports]⟩

theorem Instance.eq_of_as_error {i : Instance H} {n : ComponentName} {c : Capability}
    {y : DependencyError} (h : i.as n c = .error y) :
    y = .capabilityMismatch n.text c.name i.typeName := by
  unfold Instance.as at h
  split at h
  · split at h
    · cases h
    · exact (Except.error.inj h).symm
  · exact (Except.error.inj h).symm

namespace Registry

variable {s s' : Registry H} {n : ComponentName} {c : Capability}

/-- A component has a capability, by its definition or by its singleton. -/
def offers (s : Registry H) (n : ComponentName) (c : Capability) : Bool :=
  s.isMatch n c || s.singletonSupports n c

theorem singletonSupports_of_some {i : Instance H} (hi : s.singletons.get? n = some i) :
    s.singletonSupports n c = i.offers c := by
  rw [singletonSupports, hi]
  rfl

/-- Only what is defined or cached is offered. -/
theorem offers_eq_false (hd : s.definitions.get? n = none) (hi : s.singletons.get? n = none) :
    s.offers n c = false := by
  simp [offers, isMatch, singletonSupports, hd, hi]

/-- What a query lists is offered. -/
theorem offers_of_listed {all : Bool} (h : n ∈ s.namesFor c all) : s.offers n c = true := by
  obtain ⟨d, hd, hc, -⟩ | ⟨-, hsupports⟩ := mem_namesFor_iff.1 h
  · simp [offers, isMatch, hd, hc]
  · simp [offers, hsupports]

/-- What is offered stays so while its definition and its singleton stay. -/
theorem offers_of_kept (hd : s'.definitions.get? n = s.definitions.get? n)
    (hi : ∀ i, s.singletons.get? n = some i → s'.singletons.get? n = some i)
    (hn : s.offers n c = true) : s'.offers n c = true := by
  have hsingleton : s.singletonSupports n c = true → s'.singletonSupports n c = true := by
    intro hsupports
    cases hcached : s.singletons.get? n with
    | none => simp [singletonSupports, hcached] at hsupports
    | some i =>
      rw [singletonSupports_of_some hcached] at hsupports
      rw [singletonSupports_of_some (hi i hcached), hsupports]
  simp only [offers, Bool.or_eq_true] at hn ⊢
  rcases hn with hmatch | hsupports
  · unfold isMatch at hmatch ⊢
    rw [hd]
    cases hd : s.definitions.get? n with
    | some d =>
      rw [hd] at hmatch
      exact .inl hmatch
    | none =>
      rw [hd] at hmatch
      exact .inl (hsingleton hmatch)
  · exact .inr (hsingleton hsupports)

theorem Retains.refl : s.Retains s := ⟨fun _ => rfl, rfl, fun _ _ => id⟩

theorem Retains.offers (h : s.Retains s') (hn : s.offers n c = true) : s'.offers n c = true :=
  offers_of_kept (h.definitions n) (h.singletons n) hn

/-- The registry after all that a journal tells of. -/
def through (s : Registry H) (r : ObjectId) (j : Journal H) : Registry H :=
  ((Ledger.of s).after r (Journal.moments j)).registry

end Registry

/-- A journal has led from a registry to the one in a world. -/
structure World.Stands (r : ObjectId) (s : Registry H) (past : Journal H) (w : World H σ) :
    Prop where
  lawful : (Ledger.of s).Lawful r (Journal.moments past)
  registry : w.registries.get r = s.through r past
  inCreation : (w.registries.get r).inCreation = s.inCreation

theorem World.Stands.start (r : ObjectId) (w : World H σ) :
    w.Stands r (w.registries.get r) [] := ⟨trivial, rfl, rfl⟩

/-- What was offered at some moment is offered still, if its definition was left alone since. -/
theorem World.Stands.offers {r : ObjectId} {s : Registry H} {early mid : Journal H}
    {w : World H σ} (h : w.Stands r s (early ++ mid)) {n : ComponentName} {c : Capability}
    (hmid : Unrevised r n (Journal.moments mid))
    (hn : (s.through r early).offers n c = true) :
    (s.through r (early ++ mid)).offers n c = true := by
  have hlaw := h.lawful
  rw [Journal.moments_append, Ledger.lawful_append] at hlaw
  have hregistry : s.through r (early ++ mid) =
      (((Ledger.of s).after r (Journal.moments early)).after r (Journal.moments mid)).registry := by
    rw [Registry.through, Journal.moments_append, Ledger.after_append]
  rw [hregistry]
  refine Registry.offers_of_kept (Ledger.get?_after hmid) (fun i hi => ?_) hn
  exact (hlaw.2.keeps (fun m hm hevicts => hmid m hm hevicts.revises) hi).1

theorem Tracks.stands {α : Type} {r : ObjectId} {x : Run H σ α} {w w' : World H σ} {a : α}
    {j past : Journal H} {s : Registry H} (hx : Tracks r x) (hrun : x w = some (a, w', j))
    (h : w.Stands r s past) : w'.Stands r s (past ++ j) := by
  obtain ⟨hlaw, hregistry, -⟩ :=
    hx ((Ledger.of s).after r (Journal.moments past)) w a w' j hrun h.registry.symm
  constructor
  · rw [Journal.moments_append, Ledger.lawful_append]
    exact ⟨h.lawful, hlaw⟩
  · rw [← hregistry, Registry.through, Journal.moments_append, Ledger.after_append]
  · rw [← hregistry, Ledger.inCreation_journal j _ hlaw, ← h.inCreation, h.registry]
    rfl

/-! ## What a fetch gives -/

section Outcomes

variable {call : Call H σ} {v : View} {n : ComponentName} {w w' : World H σ} {j : Journal H}

/-- A fetch resolves the name and takes what it gets as an extension. -/
theorem View.fetch_eq_some {c : Capability} {x : Except DependencyError (Extension H)}
    (h : (v.fetch call n c).run w = some (x, w', j)) :
    ∃ a body, (v.resolve call n).run w = some (a, w', body) ∧ x = a.bind (·.as n c) ∧
      j = [.scope (.fetch v n c x) body] := by
  obtain ⟨body, hbody, rfl⟩ := Run.within_eq_some.1 h
  obtain ⟨e, rfl, hresolve⟩ | ⟨i, w₁, j₁, j₂, hresolve, hrest, rfl⟩ := Attempt.bind_eq_some hbody
  · exact ⟨_, body, hresolve, rfl, rfl⟩
  · have hpure : (Pure.pure (i.as n c) : Run H σ _) w₁ = some (x, w', j₂) := by
      rw [← hrest, Instance.as]
      cases i.extension? with
      | none => rfl
      | some e => by_cases he : e.supports c = true <;> simp only [he] <;> rfl
    obtain ⟨rfl, rfl, rfl⟩ := Run.pure_eq_some.1 hpure
    rw [List.append_nil]
    exact ⟨_, _, hresolve, rfl, rfl⟩

/-- A creation in which no callback fails gives an instance. -/
theorem Creation.Performed.ok_of_succeeds {r : ObjectId} {d : Definition H} {ts : List (Turn H)}
    {i : Option (Instance H)} {result : Except DependencyError (Option (Instance H))}
    (h : Performed r n d ts i j result) (hj : j.Succeeds) : ∃ i', result = .ok i' := by
  cases result with
  | ok i' => exact ⟨i', rfl⟩
  | error e =>
    obtain ⟨done, t, rest, i', made, entry, f, -, rfl, -, hleaves, -⟩ := h.split_of_error
    have hlast : ∃ cb a body, entry = .scope (.call cb a) body ∧ cb.failure? a = some f := by
      generalize hout : (Except.error f : Except Failure (Option (Instance H))) = out at hleaves
      cases hleaves with
      | merged e i a inner =>
        cases a with
        | ok u => cases hout
        | error f' =>
          cases hout
          exact ⟨.merged e d n, .error f, inner, rfl, rfl⟩
      | create a inner =>
        cases a with
        | ok u => cases hout
        | error f' =>
          cases hout
          exact ⟨.create d (.direct r), .error f, inner, rfl, rfl⟩
      | before e i a inner =>
        cases a with
        | ok u => cases hout
        | error f' =>
          cases hout
          exact ⟨.before e (.direct r) i n, .error f, inner, rfl, rfl⟩
      | after e i a inner =>
        cases a with
        | ok u => cases hout
        | error f' =>
          cases hout
          exact ⟨.after e (.direct r) i n, .error f, inner, rfl, rfl⟩
    obtain ⟨cb, a, body, rfl, hfailure⟩ := hlast
    rw [hj.answer (List.mem_append_right _ List.mem_cons_self)] at hfailure
    cases hfailure

/-- How a resolution can go while no callback fails: it gives an instance, which is the singleton
if there is one; there is nothing to create from; or it is asked for in the middle of the creation
of what it should create. -/
theorem View.resolve_outcome {a : Except DependencyError (Instance H)}
    (h : (v.resolve call n).run w = some (a, w', j)) (hj : j.Succeeds) :
    (∃ i, a = .ok i ∧ ∀ k, (w.registries.get v.registry).singletons.get? n = some k → i = k) ∨
    (w.registries.get v.registry).singletons.get? n = none ∧
      ((w.registries.get v.registry).definitions.get? n = none ∧
          a = .error (.notRegistered n.text) ∨
        n ∈ (w.registries.get v.registry).inCreation ∧
          a = .error (.circular
            (Creation.cycleText ((w.registries.get v.registry).inCreation ++ [n])))) := by
  obtain ⟨i, hi, rfl, rfl, rfl⟩ | ⟨hnone, ⟨hlook, rfl, rfl, rfl⟩ | ⟨d, j', hlook, hcreate, rfl⟩⟩ :=
    View.resolve_eq_some call h
  · exact .inl ⟨i, rfl, fun k hk => Option.some.inj (hi.symm.trans hk)⟩
  · refine .inr ⟨hnone, .inl ⟨?_, rfl⟩⟩
    exact Option.eq_none_iff_forall_ne_some.2 fun d hd => Registry.lookup_ne_none hd hlook
  · have hprepared : (w.setRegistry v.registry
        ((w.registries.get v.registry).lookup n).2).registries.get v.registry =
          ((w.registries.get v.registry).lookup n).2 := by
      rw [World.get_setRegistry_self]
    obtain ⟨hin, ha, -, -⟩ | ⟨-, result, w₁, j₁, hbuild, ha, -, rfl⟩ :=
      Creation.create_eq_some call hcreate
    · rw [hprepared, Registry.inCreation_lookup] at hin ha
      exact .inr ⟨hnone, .inr ⟨hin, ha⟩⟩
    · obtain ⟨i', hresult⟩ := (Creation.build_performed hbuild).ok_of_succeeds hj.body.body
      cases a with
      | ok i =>
        refine .inl ⟨i, rfl, fun k hk => ?_⟩
        rw [hnone] at hk
        cases hk
      | error e =>
        rw [Registry.conclude_eq_error.1 ha.symm] at hresult
        cases hresult

end Outcomes

/-! ## Fetches and their pasts -/

/-- A fetch of a run. -/
structure Fetching (H : Host) where
  /-- What the run had noted before. -/
  before : Journal H
  name : ComponentName
  capability : Capability
  answer : Except DependencyError (Extension H)
  /-- What is noted inside. -/
  body : Journal H

def Event.fetching? (before : Journal H) : Event H → Option (Fetching H)
  | .scope (.fetch _ n c x) body => some ⟨before, n, c, x, body⟩
  | _ => none

/-- The fetches that stand directly in a journal which continues another one. -/
def Journal.fetchings (before : Journal H) : List (Event H) → List (Fetching H)
  | [] => []
  | e :: rest => (e.fetching? before).toList ++ fetchings (before ++ [e]) rest

namespace Journal

theorem fetchings_append (before j k : Journal H) :
    fetchings before (j ++ k) = fetchings before j ++ fetchings (before ++ j) k := by
  induction j generalizing before with
  | nil => simp [fetchings]
  | cons e rest ih => simp [fetchings, ih]

theorem forall_fetchings_append {P : Fetching H → Prop} {before j k : Journal H} :
    (∀ f ∈ fetchings before (j ++ k), P f) ↔
      (∀ f ∈ fetchings before j, P f) ∧ ∀ f ∈ fetchings (before ++ j) k, P f := by
  rw [fetchings_append]
  exact List.forall_mem_append

/-- No fetch stands directly in the journal. -/
def Unfetched (j : Journal H) : Prop := ∀ e ∈ j, ∀ before, e.fetching? before = none

theorem Unfetched.nil : Unfetched ([] : Journal H) := fun _ h => absurd h List.not_mem_nil

theorem Unfetched.append {j k : Journal H} (hj : Unfetched j) (hk : Unfetched k) :
    Unfetched (j ++ k) := fun e he => (List.mem_append.1 he).elim (hj e) (hk e)

theorem Unfetched.fact (f : Fact H) : Unfetched [.fact f] := by
  intro e he before
  rw [List.mem_singleton.1 he]
  rfl

theorem Unfetched.fetchings {j : Journal H} (hj : Unfetched j) (before : Journal H) :
    fetchings before j = [] := by
  induction j generalizing before with
  | nil => rfl
  | cons e rest ih =>
    obtain ⟨he, hrest⟩ := List.forall_mem_cons.1 hj
    rw [Journal.fetchings, he before, ih hrest]
    rfl

theorem Notes.unfetched {j : Journal H} (hj : Notes j) : Unfetched j := by
  intro e he before
  obtain ⟨f, rfl, -⟩ := hj e he
  rfl

/-- The fetches are those that the deeds tell of. -/
theorem mem_fetchings_of_deed (before : Journal H) {n : ComponentName} {c : Capability}
    {x : Except DependencyError (Extension H)} {j : Journal H} (h : .fetched n c x ∈ deeds j) :
    ∃ f ∈ fetchings before j, f.name = n ∧ f.capability = c ∧ f.answer = x := by
  induction j generalizing before with
  | nil => exact absurd h List.not_mem_nil
  | cons e rest ih =>
    obtain ⟨e', he', hdeed⟩ := List.mem_filterMap.1 h
    rcases List.mem_cons.1 he' with rfl | hrest
    · have hentry : ∃ v body, e' = .scope (.fetch v n c x) body := by
        unfold Event.deed? at hdeed
        split at hdeed <;> cases hdeed
        exact ⟨_, _, rfl⟩
      obtain ⟨v, body, rfl⟩ := hentry
      exact ⟨⟨before, n, c, x, body⟩, List.mem_append_left _ List.mem_cons_self, rfl, rfl, rfl⟩
    · obtain ⟨f, hf, hsame⟩ := ih (before ++ [e]) (List.mem_filterMap.2 ⟨e', hrest, hdeed⟩)
      exact ⟨f, List.mem_append_right _ hf, hsame⟩

/-- The deed behind a fetch. -/
theorem deed_of_mem_fetchings {before j : Journal H} {f : Fetching H}
    (hf : f ∈ fetchings before j) : .fetched f.name f.capability f.answer ∈ deeds j := by
  induction j generalizing before with
  | nil => exact absurd hf List.not_mem_nil
  | cons e rest ih =>
    rw [← List.singleton_append, deeds_append]
    rcases List.mem_append.1 hf with hhere | hlater
    · refine List.mem_append_left _ ?_
      unfold Event.fetching? at hhere
      split at hhere
      · cases List.mem_singleton.1 hhere
        exact List.mem_cons_self
      · exact absurd hhere List.not_mem_nil
    · exact List.mem_append_right _ (ih hlater)

/-- The fetches of a journal lie within it. -/
theorem Succeeds.fetching {before j : Journal H} (h : Succeeds j) {f : Fetching H}
    (hf : f ∈ fetchings before j) : f.body.Succeeds := by
  induction j generalizing before with
  | nil => exact absurd hf List.not_mem_nil
  | cons e rest ih =>
    obtain ⟨he, hrest⟩ := succeeds_append.1 (show Succeeds ([e] ++ rest) from h)
    rcases List.mem_append.1 hf with hhere | hlater
    · obtain ⟨v, n, c, x, body, rfl, rfl⟩ : ∃ v n c x body,
          e = .scope (.fetch v n c x) body ∧ f = ⟨before, n, c, x, body⟩ := by
        unfold Event.fetching? at hhere
        split at hhere
        · exact ⟨_, _, _, _, _, rfl, List.mem_singleton.1 hhere⟩
        · exact absurd hhere List.not_mem_nil
      exact he.body
    · exact ih hrest hlater

/-- Where no callback fails, no deed tells of a failed one. -/
theorem Succeeds.deed {j : Journal H} (h : Succeeds j) {p : MutationPhase} {e : Extension H}
    {f? : Option Failure} (hmem : .called p e f? ∈ deeds j) : f? = none := by
  obtain ⟨x, hx, hdeed⟩ := List.mem_filterMap.1 hmem
  have hentry : Succeeds [x] := by
    obtain ⟨before, rest, rfl⟩ := List.append_of_mem hx
    exact (succeeds_append.1 (show Succeeds ([x] ++ rest) from (succeeds_append.1 h).2)).1
  unfold Event.deed? at hdeed
  split at hdeed <;> cases hdeed
  · exact hentry.body.answer List.mem_cons_self
  · exact hentry.body.answer List.mem_cons_self

end Journal

namespace Fetching

/-- The registry at the moment of a fetch, in a run that began with `s`. -/
def now (r : ObjectId) (s : Registry H) (f : Fetching H) : Registry H := s.through r f.before

/-- The instance that was found or made. -/
def instance? (f : Fetching H) : Option (Instance H) :=
  match f.body with
  | [.scope (.resolution _ _ (.ok i)) _] => some i
  | _ => none

/-- The instance has the capability that was asked for, if its definition declares that. -/
def honest (r : ObjectId) (s : Registry H) (f : Fetching H) : Bool :=
  ((f.now r s).definitions.get? f.name).all fun d =>
    f.instance?.all fun i => !d.hasCapability f.capability || i.offers f.capability

/-- The factory and the interceptors that a fetch calls succeed and change no definition, and what
they make supports what its definition declares. -/
structure Sound (r : ObjectId) (s : Registry H) (f : Fetching H) : Prop where
  succeeds : f.body.Succeeds
  stable : f.body.Stable r
  honest : f.honest r s = true

instance (r : ObjectId) (s : Registry H) (f : Fetching H) : Decidable (f.Sound r s) :=
  decidable_of_iff (f.body.Succeeds ∧ f.body.Stable r ∧ f.honest r s = true)
    ⟨fun h => ⟨h.1, h.2.1, h.2.2⟩, fun h => ⟨h.succeeds, h.stable, h.honest⟩⟩

/-- The component is fetched in the middle of its own creation, in which the run began. -/
def Circular (r : ObjectId) (s : Registry H) (f : Fetching H) (y : DependencyError) : Prop :=
  f.name ∈ s.inCreation ∧ (f.now r s).singletons.get? f.name = none ∧
    y = .circular (Creation.cycleText (s.inCreation ++ [f.name]))

/-- The registry does not offer the extension any more: there is no component of the name, or one
without the capability. -/
def Gone (r : ObjectId) (s : Registry H) (f : Fetching H) (y : DependencyError) : Prop :=
  (f.now r s).offers f.name f.capability = false ∧
    (y = .notRegistered f.name.text ∨
      ∃ typeName, y = .capabilityMismatch f.name.text f.capability.name typeName)

end Fetching

section Walks

variable {call : Call H σ} {v : View} {s : Registry H} {w w' : World H σ} {past j : Journal H}

/-- A sound fetch gives the extension, unless it is fetched in the middle of its own creation or
the registry does not offer it. -/
theorem View.fetch_fails {n : ComponentName} {c : Capability}
    {x : Except DependencyError (Extension H)}
    (h : (v.fetch call n c).run w = some (x, w', j)) (hw : w.Stands v.registry s past)
    (hsound : ∀ f ∈ Journal.fetchings past j, f.Sound v.registry s) :
    ∃ body, j = [.scope (.fetch v n c x) body] ∧ ∀ y, x = .error y →
      Fetching.Circular v.registry s ⟨past, n, c, x, body⟩ y ∨
        Fetching.Gone v.registry s ⟨past, n, c, x, body⟩ y := by
  obtain ⟨a, body, hresolve, rfl, rfl⟩ := View.fetch_eq_some h
  refine ⟨body, rfl, fun y hy => ?_⟩
  obtain ⟨hsucceeds, -, hhonest⟩ := hsound _ List.mem_cons_self
  obtain ⟨i, rfl, hkept⟩ | ⟨hnone, ⟨hundefined, rfl⟩ | ⟨hin, rfl⟩⟩ :=
    View.resolve_outcome hresolve hsucceeds
  · refine .inr ⟨?_, .inr ⟨i.typeName, Instance.eq_of_as_error hy⟩⟩
    have hrefused : i.offers c = false := by
      cases hoffers : i.offers c with
      | false => rfl
      | true =>
        obtain ⟨e, he⟩ := Instance.as_of_offers hoffers n
        cases he.symm.trans hy
    have hsupports : (s.through v.registry past).singletonSupports n c = false := by
      cases hi : (s.through v.registry past).singletons.get? n with
      | none => simp [Registry.singletonSupports, hi]
      | some k => rw [Registry.singletonSupports_of_some hi, ← hkept k (hw.registry ▸ hi), hrefused]
    have hinstance : Fetching.instance? ⟨past, n, c, (Except.ok i).bind (·.as n c), body⟩ =
        some i := by
      obtain ⟨body', -, rfl⟩ := Run.within_eq_some.1 hresolve
      rfl
    have hmatch : (s.through v.registry past).isMatch n c = false := by
      unfold Registry.isMatch
      cases hd : (s.through v.registry past).definitions.get? n with
      | none => exact hsupports
      | some d => simpa [Fetching.honest, Fetching.now, hinstance, hd, hrefused] using hhonest
    show ((s.through v.registry past).isMatch n c ||
      (s.through v.registry past).singletonSupports n c) = false
    rw [hmatch, hsupports]
    rfl
  · cases hy
    rw [hw.registry] at hundefined hnone
    exact .inr ⟨Registry.offers_eq_false hundefined hnone, .inl rfl⟩
  · cases hy
    rw [hw.inCreation] at hin ⊢
    rw [hw.registry] at hnone
    exact .inl ⟨hin, hnone, rfl⟩

/-- A sound fetch changes no definition. -/
theorem View.fetch_retains (hc : Closed call (fun {α} (x : Run H σ α) => Tracks v.registry x))
    {n : ComponentName} {c : Capability} {x : Except DependencyError (Extension H)}
    (h : (v.fetch call n c).run w = some (x, w', j))
    (hsound : ∀ f ∈ Journal.fetchings past j, f.Sound v.registry s) :
    (w.registries.get v.registry).Retains (w'.registries.get v.registry) := by
  obtain ⟨body, -, rfl⟩ := Run.within_eq_some.1 h
  have hstable := (hsound _ List.mem_cons_self).stable
  refine (hc.fetch v n c).retains h fun k => ?_
  refine (View.fetch_delegates v n c _ _ _ _ h).unrevised ?_
  rw [Journal.called_scope rfl]
  exact hstable.unrevised k

end Walks

end Startup
