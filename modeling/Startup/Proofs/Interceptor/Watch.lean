import Startup.Proofs.Interceptor.Course

/-!
What becomes of a checker once it is there. It is asked about every component that is created under
a chain it stands in, and it notes those that come too early; nothing else ever changes it.

Main statement: `Watches.program`. In the course of any program a checker expects the same number
of interceptors all along; its list grows by the components that the journal tells of, in that
order; each of its calls is decided by the registry at that moment, and nobody but a call of it
adds to its list.
-/

namespace Startup

variable {H : Host} {σ : Type}

/-! ## Entries within entries -/

namespace Journal

variable {e : Event H} {past : List (Moment H)}

theorem Occurs.append_right {j : Journal H} (h : Occurs e past j) (k : Journal H) :
    Occurs e past (j ++ k) := by
  induction h with
  | here rest => exact .here _
  | inside s rest h => exact .inside s _ h
  | later x _ ih => exact .later x ih

theorem Occurs.append_left {k : Journal H} (h : Occurs e past k) (j : Journal H) :
    Occurs e (moments j ++ past) (j ++ k) := by
  induction j with
  | nil => exact h
  | cons x rest ih =>
    rw [moments, List.append_assoc]
    exact .later x ih

/-- An entry of a journal comes after those before it. -/
theorem Occurs.between (j k : Journal H) : Occurs e (moments j) (j ++ e :: k) := by
  have h := (Occurs.here k).append_left (e := e) j
  rwa [List.append_nil] at h

/-- An entry within an entry that stands somewhere stands there as well. -/
theorem Occurs.trans {s : Scope H} {body j : Journal H} {past' : List (Moment H)}
    (h : Occurs (.scope s body) past j) (h' : Occurs e past' body) :
    Occurs e (past ++ .opens s :: past') j := by
  induction h with
  | here rest => exact .inside s rest h'
  | inside t rest _ ih => exact .inside t rest ih
  | later x _ ih =>
    rw [List.append_assoc]
    exact .later x ih

/-- An activity that begins at some moment has its entry. -/
theorem occurs_of_opens {s : Scope H} : (j : Journal H) → .opens s ∈ moments j →
    ∃ past body, Occurs (.scope s body) past j
  | [], h => nomatch h
  | .fact f :: rest, h => by
    have hlater : .opens s ∈ moments rest := by simpa [moments, Event.moments] using h
    obtain ⟨past, body, hoccurs⟩ := occurs_of_opens rest hlater
    exact ⟨_, body, .later _ hoccurs⟩
  | .scope t inner :: rest, h => by
    have hcases : s = t ∨ .opens s ∈ moments inner ∨ .opens s ∈ moments rest := by
      simpa [moments, Event.moments] using h
    rcases hcases with rfl | hinside | hlater
    · exact ⟨[], inner, .here rest⟩
    · obtain ⟨past, body, hoccurs⟩ := occurs_of_opens inner hinside
      exact ⟨_, body, .inside t rest hoccurs⟩
    · obtain ⟨past, body, hoccurs⟩ := occurs_of_opens rest hlater
      exact ⟨_, body, .later _ hoccurs⟩

theorem Occurs.mem_moments {s : Scope H} {body j : Journal H}
    (h : Occurs (.scope s body) past j) : .opens s ∈ moments j := by
  obtain ⟨future, hsplit⟩ := h.split
  rw [hsplit]
  simp [Event.moments]

end Journal

/-! ## Notes of a checker -/

/-- The component that checker `id` notes at a moment. -/
def Moment.bypassed? (id : ObjectId) : Moment H → Option ComponentName
  | .fact (.bypassed id' n ..) => if id' = id then some n else none
  | _ => none

/-- The components that checker `id` notes, in the order of time. -/
def bypasses (id : ObjectId) (ms : List (Moment H)) : List ComponentName :=
  ms.filterMap (Moment.bypassed? id)

theorem bypasses_append (id : ObjectId) (ms ms' : List (Moment H)) :
    bypasses id (ms ++ ms') = bypasses id ms ++ bypasses id ms' := List.filterMap_append

theorem bypasses_scope (id : ObjectId) (s : Scope H) (j : Journal H) :
    bypasses id (Journal.moments [.scope s j]) = bypasses id (Journal.moments j) :=
  Journal.filterMap_moments_scope rfl rfl j

/-- What is noted is told by a fact. -/
theorem mem_bypasses {id : ObjectId} {n : ComponentName} {ms : List (Moment H)} :
    n ∈ bypasses id ms ↔ ∃ t k m, .fact (.bypassed id n t k m) ∈ ms := by
  constructor
  · intro hn
    obtain ⟨x, hx, hname⟩ := List.mem_filterMap.1 hn
    cases x with
    | fact f =>
      cases f with
      | bypassed id' n' t k m =>
        by_cases hid : id' = id
        · subst hid
          simp only [Moment.bypassed?, if_true, Option.some.injEq] at hname
          exact ⟨t, k, m, hname ▸ hx⟩
        · simp [Moment.bypassed?, hid] at hname
      | _ => cases hname
    | _ => cases hname
  · rintro ⟨t, k, m, hx⟩
    exact List.mem_filterMap.2 ⟨_, hx, if_pos rfl⟩

/-! ## Consultations -/

/-- A checker is asked about a component whose instance has just been initialized. -/
structure Consultation (H : Host) where
  checker : ObjectId
  view : View
  product : Instance H
  name : ComponentName

/-- The consultation that an activity is. -/
def Scope.consultation? : Scope H → Option (Consultation H)
  | .call (.after ⟨id, _, _, _, .checker⟩ v i n) _ => some ⟨id, v, i, n⟩
  | _ => none

theorem Scope.consultation?_of_plain {s : Scope H} (hs : s.IsPlain) : s.consultation? = none := by
  unfold Scope.consultation?
  split
  · exact absurd trivial hs
  · rfl

namespace Consultation

variable (c : Consultation H)

/-- The component comes too early: it is neither an interceptor nor internal to the container, and
there are fewer interceptors than expected. -/
def objects (target : Nat) (s : Registry H) : Bool :=
  !c.product.isInterceptor && !(s.role? c.name).any (·.isInfrastructure) &&
    decide (s.interceptors.length < target)

/-- What the checker leaves. -/
def verdict (target : Nat) (s : Registry H) : Journal H :=
  if c.objects target s then
    [.fact (.bypassed c.checker c.name c.product.typeName s.interceptors.length target)]
  else []

/-- The checker objects as things stand. -/
def objectsIn (w : World H σ) : Bool :=
  c.objects (w.checkers.get c.checker).target (w.registries.get c.view.registry)

/-- What the checker leaves as things stand. -/
def verdictIn (w : World H σ) : Journal H :=
  c.verdict (w.checkers.get c.checker).target (w.registries.get c.view.registry)

/-- The world once the checker has noted the component, if it objects. -/
def noted (w : World H σ) : World H σ :=
  if c.objectsIn w then
    { w with checkers := w.checkers.set c.checker { w.checkers.get c.checker with
      bypassed := (w.checkers.get c.checker).bypassed ++ [c.name] } }
  else w

variable {c}

theorem verdict_of_objects {target : Nat} {s : Registry H} (h : c.objects target s = true) :
    c.verdict target s =
      [.fact (.bypassed c.checker c.name c.product.typeName s.interceptors.length target)] :=
  if_pos h

theorem verdict_eq_nil {target : Nat} {s : Registry H} (h : c.objects target s = false) :
    c.verdict target s = [] := if_neg (by rw [h]; exact Bool.false_ne_true)

theorem next_noted (w : World H σ) : (c.noted w).next = w.next := by
  unfold noted
  split <;> rfl

theorem target_noted (w : World H σ) (id : ObjectId) :
    ((c.noted w).checkers.get id).target = (w.checkers.get id).target := by
  unfold noted
  split
  · rw [Table.get_set]
    split <;> rename_i hid
    · rw [hid]
    · rfl
  · rfl

theorem bypassed_noted (w : World H σ) (id : ObjectId) :
    ((c.noted w).checkers.get id).bypassed =
      (w.checkers.get id).bypassed ++ bypasses id (Journal.moments (c.verdictIn w)) := by
  unfold noted verdictIn
  split <;> rename_i hobjects
  · rw [Table.get_set, verdict_of_objects hobjects]
    show _ = _ ++ List.filterMap _ [_]
    split <;> rename_i hid
    · have htold : Moment.bypassed? id (.fact (.bypassed c.checker c.name c.product.typeName
          (w.registries.get c.view.registry).interceptors.length
            (w.checkers.get c.checker).target) : Moment H) = some c.name := if_pos hid
      rw [List.filterMap_cons_some htold, List.filterMap_nil, hid]
    · have hother : Moment.bypassed? id (.fact (.bypassed c.checker c.name c.product.typeName
          (w.registries.get c.view.registry).interceptors.length
            (w.checkers.get c.checker).target) : Moment H) = none := if_neg hid
      rw [List.filterMap_cons_none hother, List.filterMap_nil, List.append_nil]
  · rw [verdict_eq_nil (Bool.eq_false_iff.2 hobjects)]
    exact (List.append_nil _).symm

end Consultation

/-- A checker that is asked leaves its verdict and notes the component if it objects. -/
theorem Checker.after_run (id : ObjectId) (v : View) (i : Instance H) (n : ComponentName)
    (w : World H σ) :
    Checker.after id v i n w =
      some ((), (Consultation.mk id v i n).noted w, (Consultation.mk id v i n).verdictIn w) := by
  unfold Checker.after View.role? View.interceptorCount Consultation.verdictIn
    Consultation.verdict Consultation.noted Consultation.objectsIn
  rw [bind_assoc, Run.registry, Run.ask_bind, pure_bind]
  by_cases hordinary : (!i.isInterceptor &&
      !((w.registries.get v.registry).role? n).any (·.isInfrastructure)) = true
  · rw [if_pos hordinary, bind_assoc, Run.ask_bind, pure_bind, Run.checker, Run.ask_bind]
    by_cases hearly :
        (w.registries.get v.registry).interceptors.length < (w.checkers.get id).target
    · have hobjects : (Consultation.mk id v i n).objects (w.checkers.get id).target
          (w.registries.get v.registry) = true := by
        rw [Consultation.objects, hordinary, Bool.true_and, decide_eq_true hearly]
      rw [if_pos hearly, if_pos hobjects, if_pos hobjects]
      rfl
    · have hobjects : ¬ (Consultation.mk id v i n).objects (w.checkers.get id).target
          (w.registries.get v.registry) = true := by
        rw [Consultation.objects, hordinary, Bool.true_and, decide_eq_true_iff]
        exact hearly
      rw [if_neg hearly, if_neg hobjects, if_neg hobjects]
      rfl
  · have hobjects : ¬ (Consultation.mk id v i n).objects (w.checkers.get id).target
        (w.registries.get v.registry) = true := by
      rw [Consultation.objects, Bool.and_eq_true]
      exact fun h => hordinary h.1
    rw [if_neg hordinary, if_neg hobjects, if_neg hobjects]
    rfl

/-! ## What is seen of a checker -/

/-- What a finished run that began with `w`, ended with `w'` and left `j` did to checker `id`. -/
structure Watch (r id : ObjectId) (w w' : World H σ) (j : Journal H) : Prop where
  next : id < w'.next
  target : (w'.checkers.get id).target = (w.checkers.get id).target
  /-- Its list grew by what is told in the journal. -/
  bypassed : (w'.checkers.get id).bypassed =
    (w.checkers.get id).bypassed ++ bypasses id (Journal.moments j)
  /-- Where it was asked on behalf of registry `r`, the state of that registry decided. -/
  decided : ∀ l : Ledger H, l.registry = w.registries.get r → ∀ past s body c,
    Journal.Occurs (.scope s body) past j → s.consultation? = some c → c.checker = id →
      c.view.registry = r →
        body = c.verdict (w.checkers.get id).target (l.after r past).registry
  /-- Where it noted a component, it was asked about that component. -/
  asked : ∀ n t k m, .fact (.bypassed id n t k m) ∈ Journal.moments j → ∃ past s c,
    Journal.Occurs (.scope s [.fact (.bypassed id n t k m)]) past j ∧
      s.consultation? = some c ∧ c.checker = id ∧ c.name = n

namespace Watch

variable {r id : ObjectId} {w w₀ w₁ w' : World H σ} {j k : Journal H}

/-- Facts that are no notes of a checker. -/
theorem of_facts (hnext : id < w'.next) (hsame : w'.checkers.get id = w.checkers.get id)
    (hj : ∀ e ∈ j, ∃ f, e = .fact f ∧ Moment.bypassed? id (.fact f) = none) :
    Watch r id w w' j := by
  have hnone : ∀ m ∈ Journal.moments j, m.bypassed? id = none := by
    induction j with
    | nil => exact fun _ hm => absurd hm List.not_mem_nil
    | cons e rest ih =>
      obtain ⟨⟨f, rfl, hf⟩, hrest⟩ := List.forall_mem_cons.1 hj
      intro m hm
      rcases List.mem_append.1 hm with h | h
      · rw [List.mem_singleton.1 h, hf]
      · exact ih hrest m h
  refine ⟨hnext, by rw [hsame], ?_, ?_, ?_⟩
  · have hnothing : bypasses id (Journal.moments j) = [] := List.filterMap_eq_nil_iff.2 hnone
    rw [hsame, hnothing, List.append_nil]
  · intro l _ past s body c hoccurs
    obtain ⟨f, hf⟩ := hoccurs.of_facts fun e he => (hj e he).imp fun _ h => h.1
    cases hf
  · intro n t k m hm
    have h := hnone _ hm
    simp [Moment.bypassed?] at h

theorem nil (hnext : id < w'.next) (hsame : w'.checkers.get id = w.checkers.get id) :
    Watch r id w w' [] :=
  of_facts hnext hsame fun _ he => absurd he List.not_mem_nil

/-- One run after the other. -/
theorem append (h : Watch r id w w₁ j) (h' : Watch r id w₁ w' k)
    (hregistry : ∀ l : Ledger H, l.registry = w.registries.get r →
      (l.after r (Journal.moments j)).registry = w₁.registries.get r) :
    Watch r id w w' (j ++ k) := by
  refine ⟨h'.next, h'.target.trans h.target, ?_, ?_, ?_⟩
  · rw [h'.bypassed, h.bypassed, Journal.moments_append, bypasses_append, List.append_assoc]
  · intro l hl past s body c hoccurs hc hid hr
    rcases hoccurs.of_append with hfirst | ⟨past', rfl, hsecond⟩
    · exact h.decided l hl past s body c hfirst hc hid hr
    · have hlater := h'.decided _ (hregistry l hl) past' s body c hsecond hc hid hr
      rw [h.target] at hlater
      rw [Ledger.after_append]
      exact hlater
  · intro n t i m hm
    rw [Journal.moments_append] at hm
    rcases List.mem_append.1 hm with hfirst | hsecond
    · obtain ⟨past, s, c, hoccurs, hc⟩ := h.asked n t i m hfirst
      exact ⟨past, s, c, hoccurs.append_right k, hc⟩
    · obtain ⟨past, s, c, hoccurs, hc⟩ := h'.asked n t i m hsecond
      exact ⟨_, s, c, hoccurs.append_left j, hc⟩

/-- An activity around a run. What it does itself concerns no checker. -/
theorem scope {s : Scope H} (h : Watch r id w₀ w₁ j) (hs : s.consultation? = none)
    (hbefore : w₀.checkers = w.checkers) (hafter : w'.checkers = w₁.checkers)
    (hnext : w'.next = w₁.next)
    (hregistry : ∀ l : Ledger H, l.registry = w.registries.get r →
      (l.next r (.opens s)).registry = w₀.registries.get r) :
    Watch r id w w' [.scope s j] := by
  refine ⟨hnext ▸ h.next, ?_, ?_, ?_, ?_⟩
  · rw [hafter, h.target, hbefore]
  · rw [hafter, h.bypassed, hbefore, bypasses_scope]
  · intro l hl past s' body c hoccurs hc hid hr
    rcases hoccurs.of_scope with ⟨heq, -⟩ | ⟨past', rfl, hinside⟩
    · cases heq
      rw [hs] at hc
      cases hc
    · have hlater := h.decided _ (hregistry l hl) past' s' body c hinside hc hid hr
      rw [hbefore] at hlater
      exact hlater
  · intro n t i m hm
    obtain ⟨past, s', c, hoccurs, hc⟩ := h.asked n t i m (Journal.mem_moments_scope.1 hm)
    exact ⟨_, s', c, .inside s [] hoccurs, hc⟩

/-- An activity in which nothing happens. -/
theorem bare {s : Scope H} (hs : s.consultation? = none) (hid : id < w.next) :
    Watch r id w w [.scope s []] := by
  refine ⟨hid, rfl, ?_, ?_, ?_⟩
  · rw [bypasses_scope]
    exact (List.append_nil _).symm
  · intro l _ past s' body c hoccurs hc
    rcases hoccurs.of_scope with ⟨heq, -⟩ | ⟨past', -, hinside⟩
    · cases heq
      rw [hs] at hc
      cases hc
    · cases hinside
  · intro n t i m hm
    exact absurd (Journal.mem_moments_scope.1 hm) List.not_mem_nil

/-- A checker is asked. -/
theorem consult {s : Scope H} {c : Consultation H} (hs : s.consultation? = some c)
    (hid : id < w.next) : Watch r id w (c.noted w) [.scope s (c.verdictIn w)] := by
  have hfacts : ∀ e ∈ c.verdictIn w, ∃ f, e = .fact f := by
    intro e he
    unfold Consultation.verdictIn Consultation.verdict at he
    split at he
    · exact ⟨_, List.mem_singleton.1 he⟩
    · cases he
  refine ⟨?_, Consultation.target_noted w id, ?_, ?_, ?_⟩
  · rw [Consultation.next_noted]
    exact hid
  · rw [Consultation.bypassed_noted, bypasses_scope]
  · intro l hl past s' body c' hoccurs hc hchecker hr
    rcases hoccurs.of_scope with ⟨heq, rfl⟩ | ⟨past', -, hinside⟩
    · cases heq
      rw [hs] at hc
      cases hc
      rw [Ledger.after_nil, hl, ← hr, ← hchecker]
      rfl
    · obtain ⟨f, hf⟩ := hinside.of_facts hfacts
      cases hf
  · intro n t i m hm
    have hinside := Journal.mem_moments_scope.1 hm
    cases hobjects : c.objectsIn w with
    | false =>
      rw [Consultation.verdictIn, Consultation.verdict_eq_nil hobjects] at hinside
      cases hinside
    | true =>
      have hverdict := Consultation.verdict_of_objects hobjects
      rw [Consultation.verdictIn, hverdict] at hinside ⊢
      cases List.mem_singleton.1 hinside
      exact ⟨[], s, c, .here [], hs, rfl, rfl⟩

/-- A component that is shown to a checker too early is noted. -/
theorem noted (h : Watch r id w w' j) {l : Ledger H} (hl : l.registry = w.registries.get r)
    {past : List (Moment H)} {s : Scope H} {body : Journal H} {c : Consultation H}
    (hoccurs : Journal.Occurs (.scope s body) past j) (hs : s.consultation? = some c)
    (hid : c.checker = id) (hr : c.view.registry = r)
    (hobjects : c.objects (w.checkers.get id).target (l.after r past).registry = true) :
    body = [.fact (.bypassed id c.name c.product.typeName
        (l.after r past).registry.interceptors.length (w.checkers.get id).target)] ∧
      c.name ∈ (w'.checkers.get id).bypassed := by
  have hbody := h.decided l hl past s body c hoccurs hs hid hr
  rw [Consultation.verdict_of_objects hobjects, hid] at hbody
  have hfact : .fact (.bypassed id c.name c.product.typeName
      (l.after r past).registry.interceptors.length (w.checkers.get id).target) ∈
        Journal.moments j := by
    obtain ⟨future, hsplit⟩ := hoccurs.split
    rw [hsplit, hbody]
    simp [Event.moments, Journal.moments]
  refine ⟨hbody, ?_⟩
  rw [h.bypassed]
  exact List.mem_append_right _ (mem_bypasses.2 ⟨_, _, _, hfact⟩)

end Watch

/-! ## Runs under watch -/

/-- Every finished run that finds checker `id` does to it what its journal tells. -/
structure Watches (r id : ObjectId) {α : Type} (x : Run H σ α) : Prop where
  tracks : Tracks r x
  watch : ∀ w a w' j, x w = some (a, w', j) → id < w.next → Watch r id w w' j

namespace Watches

variable {r id : ObjectId} {α β : Type}

theorem of_facts {x : Run H σ α} (hx : Tracks r x)
    (h : ∀ w a w' j, x w = some (a, w', j) → id < w.next →
      id < w'.next ∧ w'.checkers.get id = w.checkers.get id ∧
        ∀ e ∈ j, ∃ f, e = .fact f ∧ Moment.bypassed? id (.fact f) = none) : Watches r id x where
  tracks := hx
  watch w a w' j hrun hid := by
    obtain ⟨hnext, hsame, hj⟩ := h w a w' j hrun hid
    exact .of_facts hnext hsame hj

/-- A run that leaves no trace and no checker behind. -/
theorem silent {x : Run H σ α} (hx : Tracks r x)
    (h : ∀ w a w' j, x w = some (a, w', j) →
      j = [] ∧ w.next ≤ w'.next ∧ w'.checkers = w.checkers) : Watches r id x := by
  refine of_facts hx fun w a w' j hrun hid => ?_
  obtain ⟨rfl, hnext, hsame⟩ := h w a w' j hrun
  exact ⟨Nat.lt_of_lt_of_le hid hnext, by rw [hsame], fun _ he => absurd he List.not_mem_nil⟩

theorem pure (a : α) : Watches r id (Pure.pure a : Run H σ α) := by
  refine silent (Tracks.pure a) fun w b w' j hrun => ?_
  cases hrun
  exact ⟨rfl, Nat.le_refl _, rfl⟩

theorem ask (f : World H σ → α) : Watches r id (Run.ask f) := by
  refine silent (Tracks.ask f) fun w b w' j hrun => ?_
  cases hrun
  exact ⟨rfl, Nat.le_refl _, rfl⟩

theorem fresh : Watches r id (Run.fresh : Run H σ ObjectId) := by
  refine silent Tracks.fresh fun w a w' j hrun => ?_
  cases hrun
  exact ⟨rfl, Nat.le_succ _, rfl⟩

/-- A change that concerns neither registries nor checkers. -/
theorem change {f : World H σ → World H σ} (hregistries : ∀ w, (f w).registries = w.registries)
    (hnext : ∀ w, (f w).next = w.next) (hcheckers : ∀ w, (f w).checkers = w.checkers) :
    Watches r id (Run.change f) := by
  refine silent (Tracks.change hregistries) fun w a w' j hrun => ?_
  cases hrun
  exact ⟨rfl, Nat.le_of_eq (hnext w).symm, hcheckers w⟩

theorem record {f : Fact H} (hf : f.IsAside) (hnote : Moment.bypassed? id (.fact f) = none) :
    Watches r id (Run.record f : Run H σ Unit) := by
  refine of_facts (Tracks.record hf) fun w a w' j hrun hid => ?_
  cases hrun
  exact ⟨hid, rfl, List.forall_mem_singleton.2 ⟨f, rfl, hnote⟩⟩

theorem exceeded : Watches r id (Run.exceeded : Run H σ α) :=
  silent Tracks.exceeded fun w b w' j hrun => by cases hrun

theorem bind {x : Run H σ α} {f : α → Run H σ β} (hx : Watches r id x)
    (hf : ∀ a, Watches r id (f a)) : Watches r id (x >>= f) where
  tracks := hx.tracks.bind fun a => (hf a).tracks
  watch w b w₂ j h hid := by
    obtain ⟨a, w₁, j₁, j₂, h₁, h₂, rfl⟩ := Run.bind_eq_some.1 h
    have hfirst := hx.watch w a w₁ j₁ h₁ hid
    refine hfirst.append ((hf a).watch w₁ b w₂ j₂ h₂ hfirst.next) fun l hl => ?_
    exact (hx.tracks l w a w₁ j₁ h₁ hl).registry

theorem within {s : α → Scope H} {x : Run H σ α} (haside : ∀ a, (s a).IsAside)
    (hs : ∀ a, (s a).consultation? = none) (hx : Watches r id x) :
    Watches r id (Run.within s x) where
  tracks := hx.tracks.within haside
  watch w a w' j h hid := by
    obtain ⟨j', h', rfl⟩ := Run.within_eq_some.1 h
    refine (hx.watch w a w' j' h' hid).scope (hs a) rfl rfl rfl fun l hl => ?_
    rw [Ledger.next_opens (haside a), hl]

/-- The creation of a component, whatever is made of it. -/
theorem create {call : Call H σ} {r' : ObjectId} {n : ComponentName} {d : Definition H}
    (hbuild : ∀ chain, Watches r id (Creation.build call (.direct r') n d chain).run)
    {w w' : World H σ} {a : Except DependencyError (Instance H)} {j : Journal H}
    (h : (Creation.create call r' n d).run w = some (a, w', j)) (hid : id < w.next) :
    Watch r id w w' j := by
  obtain ⟨-, -, rfl, rfl⟩ | ⟨-, result, w₁, j₁, hrun, -, rfl, rfl⟩ :=
    Creation.create_eq_some call h
  · exact .nil hid rfl
  · have hbody := (hbuild _).watch _ result w₁ j₁ hrun hid
    exact hbody.scope rfl rfl rfl rfl fun l hl => Ledger.next_creation hl r'
      ⟨n, d, (w.registries.get r').inCreation, (w.registries.get r').interceptors, result⟩

theorem resolve {call : Call H σ} (v : View) (n : ComponentName)
    (hbuild : ∀ d chain, Watches r id (Creation.build call (.direct v.registry) n d chain).run) :
    Watches r id (v.resolve call n).run where
  tracks := Tracks.resolve v n fun d chain => (hbuild d chain).tracks
  watch w a w' j h hid := by
    obtain ⟨i, hi, rfl, rfl, rfl⟩ |
      ⟨hnone, ⟨hlook, rfl, rfl, rfl⟩ | ⟨d, j', hlook, hcreate, rfl⟩⟩ := View.resolve_eq_some call h
    · exact .bare rfl hid
    · exact .bare rfl hid
    · exact (create (hbuild d) hcreate hid).scope rfl rfl rfl rfl fun l hl =>
        Ledger.next_resolution_of_none hl hnone a

/-! ### The interceptors of the library -/

theorem addListener (c : ObjectId) (n : ComponentName) (l : Listener H) :
    Watches r id (Context.addListener c n l : Run H σ Unit) := by
  refine bind (ask _) fun s => ?_
  split
  · exact record trivial rfl
  · exact bind (record trivial rfl) fun _ => change (fun _ => rfl) (fun _ => rfl) fun _ => rfl

theorem paired : Paired (· = ·) fun {α} (x _ : Run H σ α) => Watches r id x where
  alike := .of_eq
  pure := pure
  bind := bind
  ask f _ := ask f
  fresh := fresh
  remember _ := change (fun _ => rfl) (fun _ => rfl) fun _ => rfl

theorem setDetector (id' : ObjectId) (s : Detector) :
    Watches r id (Run.setDetector id' s : Run H σ Unit) :=
  change (fun _ => rfl) (fun _ => rfl) fun _ => rfl

/-- A checker that is called after an initialization. -/
theorem checker_after (call : Call H σ) (id' : ObjectId) (name : String) (tier : OrderTier)
    (views : Views) (v : View) (i : Instance H) (n : ComponentName) :
    Watches r id (Callback.perform call (.after ⟨id', name, tier, views, .checker⟩ v i n)) where
  tracks := Tracks.coarse.apart.own call call _ trivial
  watch w a w' j h hid := by
    obtain ⟨j', hrespond, rfl⟩ := Run.within_eq_some.1 h
    obtain ⟨_, w₁, j₁, j₂, hafter, hpure, rfl⟩ := Run.bind_eq_some.1 hrespond
    rw [Checker.after_run] at hafter
    cases hafter
    cases hpure
    rw [List.append_nil]
    exact .consult (c := ⟨id', v, i, n⟩) rfl hid

/-- What the library's own interceptors answer. -/
theorem own (call : Call H σ) (cb : Callback H) (hcb : cb.IsOwn) :
    Watches r id (cb.perform call) := by
  refine Callback.perform_own (R := fun x _ => Watches r id x) call call ?_ ?_
    (checker_after call) ?_ ?_ cb hcb
  · exact fun _ _ _ _ => within (fun _ => trivial) (fun _ => rfl) (pure _)
  · exact fun _ _ _ _ _ _ => within (fun _ => trivial) (fun _ => rfl) (pure _)
  · intro id' name tier views d n
    have hmerged : Watches r id (Detector.merged id' d n : Run H σ Unit) :=
      paired.detector_merged setDetector id' d n
    exact within (fun _ => trivial) (fun _ => rfl) (bind hmerged fun _ => pure _)
  · intro id' name tier views v i n
    have hafter : Watches r id (Detector.after id' i n : Run H σ Unit) :=
      paired.detector_after setDetector (fun _ => record trivial rfl) addListener id' i n
    exact within (fun _ => trivial) (fun _ => rfl) (bind hafter fun _ => pure _)

/-! ### Everything -/

theorem of_edits {x : Run H σ α} (hx : Tracks r x) (h : x.Edits) : Watches r id x := by
  refine of_facts hx fun w a w' j hrun hid => ?_
  have hedit := h w a w' j hrun
  refine ⟨hedit.next ▸ hid, by rw [hedit.checkers], fun e he => ?_⟩
  obtain ⟨f, rfl, hf⟩ := hedit.facts e he
  exact ⟨f, rfl, by cases f <;> first | rfl | exact hf.elim⟩

/-- A new checker is none that was there before. -/
theorem newChecker (target : Nat) : Watches r id (Checker.create target : Run H σ _) := by
  refine of_facts (Tracks.coarse.apart.newChecker target) fun w a w' j hrun hid => ?_
  cases hrun
  refine ⟨Nat.lt_succ_of_lt hid, ?_, fun _ he => absurd he List.not_mem_nil⟩
  show (w.checkers.set w.next _).get id = _
  rw [Table.get_set, if_neg (Nat.ne_of_gt hid)]

theorem closed {call : Call H σ} (hcall : ∀ cb, Watches r id (call cb)) :
    Closed call (fun {α} (x : Run H σ α) => Watches r id x) where
  toPaired := paired
  record f hf := record hf.apart.aside (by cases f <;> first | rfl | exact hf.elim)
  within s _ _ hs hx :=
    within (fun a => (hs a).aside) (fun a => Scope.consultation?_of_plain (hs a)) hx
  register r' d := of_edits (Tracks.register r' d) (Registry.register_edits r' d)
  remove r' n := of_edits (Tracks.remove r' n) (Registry.remove_edits r' n)
  registerInstance r' n i :=
    of_edits (Tracks.registerInstance r' n i) (Registry.registerInstance_edits r' n i)
  install v e := of_edits (Tracks.install v e) (v.install_edits e)
  clearCache v := of_edits (Tracks.clearCache v) v.clearCache_edits
  resolve v n h := resolve v n h
  newChecker := newChecker
  newDetector _ :=
    bind fresh fun _ => bind (change (fun _ => rfl) (fun _ => rfl) fun _ => rfl) fun _ => pure _
  own := own call
  addListener := addListener
  publish _ _ h := bind (ask _) fun _ => within (fun _ => trivial) (fun _ => rfl) (h _)
  call := hcall

/-- What the library does among callbacks of a behaviour is watched. -/
theorem behaviour (b : Behaviour H σ) (depth : Nat) :
    Closed (b.call depth) (fun {α} (x : Run H σ α) => Watches r id x) :=
  b.closed (fun _ => exceeded) (fun _ => closed) depth

/-- A checker that is there when a program begins is watched all along. -/
theorem program (b : Behaviour H σ) (depth : Nat) (x : Program H σ α) :
    Watches r id (b.run depth x) :=
  (behaviour b depth).program (fun _ => exceeded) depth x

end Watches

/-! ## The checker of a registration -/

namespace Registration

variable {v : View} {context : ObjectId} {w w' : World H σ} {j : Journal H}

theorem furnish_closed {call : Call H σ} {K : {α : Type} → Run H σ α → Prop} (h : Closed call K)
    (v : View) (context : ObjectId) (names : List ComponentName) (target : Nat)
    (checker : Extension H) : K (furnish call v context names target checker).run := by
  refine h.attempt_bind (h.always (h.install v checker)) fun _ => ?_
  refine h.attempt_bind (h.installNamed v names) fun installed => ?_
  refine h.attempt_bind (h.always (h.relocate v _)) fun _ => ?_
  refine h.attempt_bind (h.always (h.newDetector _)) fun detector => ?_
  refine h.attempt_bind (h.always (h.install v detector)) fun _ => ?_
  refine h.attempt_bind (h.always (h.interceptorCount v)) fun total => ?_
  exact h.attempt_bind (h.always (h.record _ trivial)) fun _ => h.attempt_pure _

/-- The checker of a registration is watched from the moment at which it was made. -/
theorem furnish_watch {b : Behaviour H σ} {depth : Nat} {names : List ComponentName}
    {target : Nat} {checker : Extension H} {result : Except ExtensionError (Registration H)}
    (hrun : (furnish (b.call depth) v context names target checker).run (w.withChecker target) =
      some (result, w', j)) : Watch v.registry w.next (w.withChecker target) w' j :=
  (furnish_closed (Watches.behaviour b depth) v context names target checker).watch _ _ _ _ hrun
    (Nat.lt_succ_self w.next)

end Registration

/-- A new checker expects what it was made with, and has noted nothing. -/
theorem World.checkers_withChecker (w : World H σ) (target : Nat) :
    (w.withChecker target).checkers.get w.next = { target } := by
  show (w.checkers.set w.next _).get w.next = _
  rw [Table.get_set, if_pos rfl]

end Startup
