import Startup.Proofs.Interceptor.Watch

/-!
What becomes of the listeners of a context, and of what a detector knows. Listeners are offered to
a context under names; the first one under a name stays, and none is ever taken out again. A
detector marks the components it is shown as singletons or not, and offers what it is asked about
according to these marks.

Main statement: `Heeds.program`. In the course of any program a context goes on to have under each
name what it had, or else the first listener that the journal tells of. The marks of a detector
are those of the calls in the journal, and they decide what it offers when it is asked.
-/

namespace Startup

variable {H : Host} {σ : Type}

/-! ## Offers -/

/-- The listener that is offered to context `c` under the name `n` at a moment. -/
def Moment.offer? (c : ObjectId) (n : ComponentName) : Moment H → Option (Listener H)
  | .fact (.listenerAdded c' n' l) | .fact (.listenerKnown c' n' l) =>
    if c' = c ∧ n' = n then some l else none
  | _ => none

/-- The listeners that are offered under a name, in the order of time. -/
def offered (c : ObjectId) (n : ComponentName) (ms : List (Moment H)) : List (Listener H) :=
  ms.filterMap (Moment.offer? c n)

section Offered

variable (c : ObjectId) (n : ComponentName)

theorem offered_append (ms ms' : List (Moment H)) :
    offered c n (ms ++ ms') = offered c n ms ++ offered c n ms' := List.filterMap_append

theorem offered_scope (s : Scope H) (j : Journal H) :
    offered c n (Journal.moments [.scope s j]) = offered c n (Journal.moments j) :=
  Journal.filterMap_moments_scope rfl rfl j

/-- Facts that tell of no listener. -/
theorem offered_facts {j : Journal H}
    (hj : ∀ e ∈ j, ∃ f, e = .fact f ∧ Moment.offer? c n (.fact f) = none) :
    offered c n (Journal.moments j) = [] := by
  induction j with
  | nil => rfl
  | cons e rest ih =>
    obtain ⟨⟨f, rfl, hf⟩, hrest⟩ := List.forall_mem_cons.1 hj
    rw [Journal.moments, offered_append, ih hrest, List.append_nil]
    exact List.filterMap_cons_none hf

end Offered

/-- A context has under each name what it had, or else the first listener that was offered. -/
def Books (c : ObjectId) (w w' : World H σ) (j : Journal H) : Prop :=
  ∀ n, (w'.contexts.get c).get? n =
    ((w.contexts.get c).get? n).or (offered c n (Journal.moments j)).head?

namespace Books

variable {c : ObjectId} {w w₀ w₁ w' : World H σ} {j k : Journal H}

theorem append (h : Books c w w₁ j) (h' : Books c w₁ w' k) : Books c w w' (j ++ k) := by
  intro n
  rw [h' n, h n, Journal.moments_append, offered_append, List.head?_append, Option.or_assoc]

theorem scope {s : Scope H} (h : Books c w₀ w₁ j) (hbefore : w₀.contexts = w.contexts)
    (hafter : w'.contexts = w₁.contexts) : Books c w w' [.scope s j] := by
  intro n
  rw [hafter, h n, hbefore, offered_scope]

/-- Where nothing is offered, a context stays as it is. -/
theorem of_same (hsame : w'.contexts = w.contexts)
    (hj : ∀ n, offered c n (Journal.moments j) = []) : Books c w w' j := by
  intro n
  rw [hsame, hj n, List.head?_nil, Option.or_none]

end Books

/-! ## Marks -/

/-- The extension is detector `id`. -/
def Extension.isDetector (id : ObjectId) (e : Extension H) : Bool :=
  match e.body with
  | .detector => e.id = id
  | _ => false

theorem Extension.isDetector_iff {e : Extension H} (he : e.body = .detector) {id : ObjectId} :
    e.isDetector id = true ↔ e.id = id := by
  rw [isDetector, he]
  exact decide_eq_true_iff

/-- The component about which detector `id` is called: it is shown the definition, or asked about
the finished instance. -/
def Scope.asked? (id : ObjectId) : Scope H → Option ComponentName
  | .call (.merged e _ n) _ | .call (.after e _ _ n) _ => if e.isDetector id then some n else none
  | _ => none

/-- Whether the components that were shown to a detector are singletons. -/
abbrev Marks := ComponentName → Option Bool

namespace Marks

/-- The marks of detector `id` one moment later. -/
def next (id : ObjectId) (φ : Marks) : Moment H → Marks
  | .opens (.call (.merged e d n) _) =>
    if e.isDetector id then Function.update φ n (some d.isSingleton) else φ
  | .opens (.call (.after e _ i n) _) =>
    if e.isDetector id ∧ i.listener?.isSome ∧ φ n = some false then Function.update φ n none
    else φ
  | _ => φ

/-- The marks of detector `id` after some moments. -/
def after (id : ObjectId) (φ : Marks) (ms : List (Moment H)) : Marks := ms.foldl (next id) φ

variable {id : ObjectId} {φ : Marks}

theorem after_append (ms ms' : List (Moment H)) :
    after id φ (ms ++ ms') = after id (after id φ ms) ms' := List.foldl_append

theorem after_scope (s : Scope H) (j : Journal H) :
    after id φ (Journal.moments [.scope s j]) =
      after id (next id φ (.opens s)) (Journal.moments j) := by
  rw [Journal.moments_scope, after, List.foldl_cons, List.foldl_append]
  rfl

/-- A call about one component does not concern the marks of another. -/
theorem next_opens_ne {s : Scope H} {n : ComponentName} (hs : s.asked? id ≠ some n) :
    next id φ (.opens s) n = φ n := by
  cases s with
  | call cb a =>
    cases cb with
    | merged e d m =>
      by_cases he : e.isDetector id = true
      · have hm : m ≠ n := by simpa [Scope.asked?, he] using hs
        simp [next, he, Ne.symm hm]
      · simp [next, he]
    | after e v i m =>
      by_cases he : e.isDetector id = true
      · have hm : m ≠ n := by simpa [Scope.asked?, he] using hs
        simp only [next]
        split
        · rw [Function.update_of_ne (Ne.symm hm)]
        · rfl
      · simp [next, he]
    | _ => rfl
  | _ => rfl

/-- A scope that is no call of the detector does not concern its marks. -/
theorem next_opens {s : Scope H} (hs : s.asked? id = none) : next id φ (.opens s) = φ :=
  funext fun n => next_opens_ne (by rw [hs]; exact nofun)

/-- A detector that is asked leaves its marks alone, unless it finds that the listener cannot be
reached. -/
theorem next_after {e : Extension H} {v : View} {i : Instance H} {n : ComponentName}
    {a : Except Failure (Instance H)}
    (h : e.isDetector id = true → i.listener? = none ∨ φ n ≠ some false) :
    next id φ (.opens (.call (.after e v i n) a)) = φ := by
  refine if_neg fun hall => ?_
  rcases h hall.1 with hnone | hmark
  · rw [hnone] at hall
    cases hall.2.1
  · exact hmark hall.2.2

/-- Facts do not concern marks. -/
theorem after_facts {j : Journal H} (hj : ∀ e ∈ j, ∃ f, e = .fact f) :
    after id φ (Journal.moments j) = φ := by
  induction j with
  | nil => rfl
  | cons e rest ih =>
    obtain ⟨⟨f, rfl⟩, hrest⟩ := List.forall_mem_cons.1 hj
    exact ih hrest

end Marks

theorem Scope.asked?_of_plain {s : Scope H} (hs : s.IsPlain) (id : ObjectId) :
    s.asked? id = none := by
  have hcode {e : Extension H} (he : ¬ e.body.IsOwn) : ¬ e.isDetector id = true := by
    obtain ⟨i, name, tier, views, _ | _ | _⟩ := e
    · exact nofun
    · exact nofun
    · exact absurd trivial he
  cases s with
  | call cb a =>
    cases cb with
    | merged | after => exact if_neg (hcode hs)
    | _ => rfl
  | _ => rfl

/-- What a detector has marked. -/
def World.marks (w : World H σ) (id : ObjectId) : Marks := (w.detectors.get id).singletons.get?

/-- The world with other marks of a detector. -/
def World.remark (w : World H σ) (id : ObjectId) (m : OrderedMap ComponentName Bool) :
    World H σ :=
  { w with detectors := w.detectors.set id { w.detectors.get id with singletons := m } }

namespace World

variable (w : World H σ) (id id' : ObjectId) (m : OrderedMap ComponentName Bool)

theorem context_remark :
    ((w.remark id' m).detectors.get id).context = (w.detectors.get id).context := by
  rw [remark, Table.get_set]
  split <;> rename_i hid
  · rw [hid]
  · rfl

theorem marks_remark : (w.remark id' m).marks id = if id' = id then m.get? else w.marks id := by
  rw [marks, remark, Table.get_set]
  split <;> rfl

end World

/-! ## What detectors do -/

theorem Context.addListener_run (c : ObjectId) (n : ComponentName) (l : Listener H)
    (w : World H σ) :
    Context.addListener c n l w =
      if (w.contexts.get c).contains n then some ((), w, [.fact (.listenerKnown c n l)])
      else some ((), { w with contexts := w.contexts.set c ((w.contexts.get c).insert n l) },
        [.fact (.listenerAdded c n l)]) := by
  rw [Context.addListener, Run.context, Run.ask_bind]
  split <;> rfl

/-- A listener is offered, and the first one stays. -/
theorem Context.addListener_books (c c' : ObjectId) (n : ComponentName) (l : Listener H)
    {w w' : World H σ} {u : Unit} {j : Journal H}
    (h : Context.addListener c' n l w = some (u, w', j)) : Books c w w' j := by
  rw [Context.addListener_run] at h
  intro m
  split at h <;> rename_i hknown <;> cases h
  · by_cases hm : c' = c ∧ n = m
    · obtain ⟨rfl, rfl⟩ := hm
      obtain ⟨l', hl'⟩ := Option.isSome_iff_exists.1 hknown
      rw [hl', Option.some_or]
    · simp [offered, Journal.moments, Event.moments, Moment.offer?, hm]
  · rw [Table.get_set]
    by_cases hc : c' = c
    · subst hc
      rw [if_pos rfl, OrderedMap.get?_insert]
      by_cases hm : n = m
      · subst hm
        have hnone : (w.contexts.get c').get? n = none := by
          simpa [OrderedMap.contains] using hknown
        simp [offered, Journal.moments, Event.moments, Moment.offer?, hnone]
      · simp [offered, Journal.moments, Event.moments, Moment.offer?, hm]
    · simp [offered, Journal.moments, Event.moments, Moment.offer?, hc]

/-- What a detector does when it is asked: nothing, or it offers the listener, or it says that the
listener cannot be reached and takes the mark away. -/
theorem Detector.after_eq_some {id : ObjectId} {i : Instance H} {n : ComponentName}
    {w w' : World H σ} {u : Unit} {j : Journal H}
    (h : Detector.after id i n w = some (u, w', j)) :
    ((i.listener? = none ∨ w.marks id n = none) ∧ w' = w ∧ j = []) ∨
    (∃ l, i.listener? = some l ∧ w.marks id n = some true ∧
      Context.addListener (w.detectors.get id).context n l w = some ((), w', j)) ∨
    ∃ l, i.listener? = some l ∧ w.marks id n = some false ∧
      w' = w.remark id ((w.detectors.get id).singletons.erase n) ∧
      j = [.fact (.listenerUnreachable n)] := by
  unfold Detector.after at h
  cases hl : i.listener? with
  | none =>
    rw [hl] at h
    cases h
    exact .inl ⟨.inl rfl, rfl, rfl⟩
  | some l =>
    rw [hl] at h
    dsimp only at h
    rw [Run.detector, Run.ask_bind] at h
    cases hmark : (w.detectors.get id).singletons.get? n with
    | none =>
      rw [hmark] at h
      cases h
      exact .inl ⟨.inr hmark, rfl, rfl⟩
    | some single =>
      rw [hmark] at h
      cases single with
      | true => exact .inr (.inl ⟨l, rfl, hmark, h⟩)
      | false =>
        cases h
        exact .inr (.inr ⟨l, rfl, hmark, rfl, rfl⟩)

/-! ## What is known of a context and of a detector -/

/-- What a finished run did to detector `id`, which was there before it. -/
structure Hears (id : ObjectId) (w w' : World H σ) (j : Journal H) : Prop where
  context : (w'.detectors.get id).context = (w.detectors.get id).context
  marks : w'.marks id = (w.marks id).after id (Journal.moments j)
  /-- Where it was asked about an instance, it handed that instance on, and offered its listener
  just if the component was marked as a singleton. -/
  heard : ∀ past e v i n a body, Journal.Occurs (.scope (.call (.after e v i n) a) body) past j →
    e.isDetector id = true → a = .ok i ∧ (∀ x ∈ body, ∃ f, x = .fact f) ∧
      ∀ c m, offered c m (Journal.moments body) =
        if (w.marks id).after id past n = some true ∧ (w.detectors.get id).context = c ∧ n = m then
          i.listener?.toList
        else []

/-- What a finished run that began with `w`, ended with `w'` and left `j` did to context `c`, and to
detector `id` if that was there. -/
structure Listens (id c : ObjectId) (w w' : World H σ) (j : Journal H) : Prop where
  next : w.next ≤ w'.next
  books : Books c w w' j
  hears : id < w.next → Hears id w w' j

namespace Hears

variable {id : ObjectId} {w w₀ w₁ w' : World H σ} {j k : Journal H}

/-- Facts do not concern a detector. -/
theorem of_facts (hsame : w'.detectors.get id = w.detectors.get id)
    (hj : ∀ e ∈ j, ∃ f, e = .fact f) : Hears id w w' j where
  context := by rw [hsame]
  marks := by
    rw [Marks.after_facts hj, World.marks, hsame]
    rfl
  heard past e v i n a body hoccurs := by
    obtain ⟨f, hf⟩ := hoccurs.of_facts hj
    cases hf

theorem append (h : Hears id w w₁ j) (h' : Hears id w₁ w' k) : Hears id w w' (j ++ k) where
  context := h'.context.trans h.context
  marks := by rw [h'.marks, h.marks, Journal.moments_append, Marks.after_append]
  heard past e v i n a body hoccurs he := by
    rcases hoccurs.of_append with hfirst | ⟨past', rfl, hsecond⟩
    · exact h.heard past e v i n a body hfirst he
    · have hlater := h'.heard past' e v i n a body hsecond he
      rw [h.marks, h.context] at hlater
      rw [Marks.after_append]
      exact hlater

/-- An activity around a run, which is no call of the detector. -/
theorem scope {s : Scope H} (h : Hears id w₀ w₁ j) (hs : s.asked? id = none)
    (hbefore : w₀.detectors = w.detectors) (hafter : w'.detectors = w₁.detectors) :
    Hears id w w' [.scope s j] where
  context := by rw [hafter, h.context, hbefore]
  marks := by
    rw [Marks.after_scope, Marks.next_opens hs, World.marks, hafter]
    refine h.marks.trans ?_
    rw [World.marks, World.marks, hbefore]
  heard past e v i n a body hoccurs he := by
    rcases hoccurs.of_scope with ⟨heq, -⟩ | ⟨past', rfl, hinside⟩
    · cases heq
      simp [Scope.asked?, he] at hs
    · have hlater := h.heard past' e v i n a body hinside he
      rw [World.marks, hbefore] at hlater
      have hpast : (w.marks id).after id (.opens s :: past') = (w.marks id).after id past' :=
        congrArg (fun φ => Marks.after id φ past') (Marks.next_opens hs)
      rw [hpast]
      exact hlater

end Hears

namespace Listens

variable {id c : ObjectId} {w w₀ w₁ w' : World H σ} {j k : Journal H}

theorem of_facts (hnext : w.next ≤ w'.next) (hbooks : Books c w w' j)
    (hsame : id < w.next → w'.detectors.get id = w.detectors.get id)
    (hj : ∀ e ∈ j, ∃ f, e = .fact f) : Listens id c w w' j :=
  ⟨hnext, hbooks, fun hid => .of_facts (hsame hid) hj⟩

theorem append (h : Listens id c w w₁ j) (h' : Listens id c w₁ w' k) :
    Listens id c w w' (j ++ k) :=
  ⟨Nat.le_trans h.next h'.next, h.books.append h'.books, fun hid =>
    (h.hears hid).append (h'.hears (Nat.lt_of_lt_of_le hid h.next))⟩

/-- An activity around a run, which is no call of the detector. -/
theorem scope {s : Scope H} (h : Listens id c w₀ w₁ j) (hs : s.asked? id = none)
    (hbefore : w₀.next = w.next ∧ w₀.contexts = w.contexts ∧ w₀.detectors = w.detectors)
    (hafter : w'.next = w₁.next ∧ w'.contexts = w₁.contexts ∧ w'.detectors = w₁.detectors) :
    Listens id c w w' [.scope s j] := by
  refine ⟨?_, h.books.scope hbefore.2.1 hafter.2.1, fun hid => ?_⟩
  · rw [hafter.1, ← hbefore.1]
    exact h.next
  · exact (h.hears (hbefore.1 ▸ hid)).scope hs hbefore.2.2 hafter.2.2

/-- An activity in which nothing happens. -/
theorem bare {s : Scope H} (hs : s.asked? id = none) (w : World H σ) :
    Listens id c w w [.scope s []] := by
  have hnothing : Listens id c w w ([] : Journal H) :=
    of_facts (Nat.le_refl _) (.of_same rfl fun _ => rfl) (fun _ => rfl)
      fun _ he => absurd he List.not_mem_nil
  exact hnothing.scope hs ⟨rfl, rfl, rfl⟩ ⟨rfl, rfl, rfl⟩

/-- A listener is offered. -/
theorem addListener {c' : ObjectId} {n : ComponentName} {l : Listener H} {u : Unit}
    (h : Context.addListener c' n l w = some (u, w', j)) : Listens id c w w' j := by
  have hbooks := Context.addListener_books c c' n l h
  rw [Context.addListener_run] at h
  split at h
  all_goals
    cases h
    exact of_facts (Nat.le_refl _) hbooks (fun _ => rfl) fun _ he => ⟨_, List.mem_singleton.1 he⟩

/-- A detector is shown a definition. -/
theorem merged {e : Extension H} (he : e.body = .detector) (d : Definition H)
    (n : ComponentName) (a : (Callback.merged e d n).Answer) :
    Listens id c w
      (w.remark e.id ((w.detectors.get e.id).singletons.insert n d.isSingleton))
        [.scope (.call (.merged e d n) a) []] := by
  refine ⟨Nat.le_refl _, .of_same rfl fun m => rfl, fun _ => ⟨?_, ?_, ?_⟩⟩
  · rw [World.context_remark]
  · rw [World.marks_remark, Marks.after_scope]
    show _ = (w.marks id).next id (.opens (.call (.merged e d n) a))
    rw [Marks.next]
    by_cases hid : e.id = id
    · rw [if_pos hid, if_pos ((Extension.isDetector_iff he).2 hid), ← hid]
      funext m
      rw [OrderedMap.get?_insert, Function.update_apply]
      simp only [eq_comm (a := n)]
      rfl
    · rw [if_neg hid, if_neg fun heq => hid ((Extension.isDetector_iff he).1 heq)]
  · intro past e' v i m a' body hoccurs
    rcases hoccurs.of_scope with ⟨heq, -⟩ | ⟨past', -, hinside⟩
    · cases heq
    · cases hinside

/-- A call after an initialization, put together from what it did. -/
theorem answered {e : Extension H} {v : View} {i : Instance H} {n : ComponentName}
    (hnext : w'.next = w.next) (hbooks : Books c w w' j) (hj : ∀ x ∈ j, ∃ f, x = .fact f)
    (hcontext : (w'.detectors.get id).context = (w.detectors.get id).context)
    (hmarks : w'.marks id = (w.marks id).next id (.opens (.call (.after e v i n) (.ok i))))
    (hoffers : e.isDetector id = true → ∀ c m, offered c m (Journal.moments j) =
      if w.marks id n = some true ∧ (w.detectors.get id).context = c ∧ n = m then i.listener?.toList
      else []) : Listens id c w w' [.scope (.call (.after e v i n) (.ok i)) j] := by
  refine ⟨Nat.le_of_eq hnext.symm, hbooks.scope rfl rfl, fun _ => ⟨hcontext, ?_, ?_⟩⟩
  · rw [Marks.after_scope, Marks.after_facts hj, hmarks]
  · intro past e' v' i' n' a body hoccurs he
    rcases hoccurs.of_scope with ⟨heq, rfl⟩ | ⟨past', -, hinside⟩
    · cases heq
      exact ⟨rfl, hj, hoffers he⟩
    · obtain ⟨f, hf⟩ := hinside.of_facts hj
      cases hf

section Asked

variable {e : Extension H} {v : View} {i : Instance H} {n : ComponentName} {l : Listener H}

/-- A detector is asked about an instance that does not listen, or that it has no mark of. -/
theorem after_quiet (he : e.body = .detector)
    (hquiet : i.listener? = none ∨ w.marks e.id n = none) :
    Listens id c w w [.scope (.call (.after e v i n) (.ok i)) []] := by
  have hmarks : (w.marks id).next id (.opens (.call (.after e v i n) (.ok i))) = w.marks id := by
    refine Marks.next_after fun hid => ?_
    rw [(Extension.isDetector_iff he).1 hid] at hquiet
    refine hquiet.imp_right fun hnone heq => ?_
    rw [hnone] at heq
    cases heq
  refine answered rfl (.of_same rfl fun m => rfl) (fun _ hx => absurd hx List.not_mem_nil) rfl
    hmarks.symm fun hid c' m => ?_
  rw [(Extension.isDetector_iff he).1 hid] at hquiet
  rcases hquiet with hnone | hnone
  · rw [hnone]
    exact (ite_self _).symm
  · rw [if_neg fun hall => by rw [hnone] at hall; cases hall.1]
    rfl

/-- A detector is asked about the instance of a singleton, and offers its listener. -/
theorem after_offer (he : e.body = .detector) (hl : i.listener? = some l)
    (hmark : w.marks e.id n = some true) {u : Unit}
    (h : Context.addListener (w.detectors.get e.id).context n l w = some (u, w', j)) :
    Listens id c w w' [.scope (.call (.after e v i n) (.ok i)) j] := by
  have hbooks := Context.addListener_books c (w.detectors.get e.id).context n l h
  obtain ⟨hworld, f, rfl, hf⟩ : (w'.next = w.next ∧ w'.detectors = w.detectors) ∧
      ∃ f : Fact H, j = [.fact f] ∧ ∀ c' m, Moment.offer? c' m (.fact f) =
        if (w.detectors.get e.id).context = c' ∧ n = m then some l else none := by
    rw [Context.addListener_run] at h
    split at h
    all_goals
      cases h
      exact ⟨⟨rfl, rfl⟩, _, rfl, fun _ _ => rfl⟩
  have hmarks : (w.marks id).next id (.opens (.call (.after e v i n) (.ok i))) = w.marks id := by
    refine Marks.next_after fun hid => .inr fun heq => ?_
    rw [← (Extension.isDetector_iff he).1 hid, hmark] at heq
    cases heq
  refine answered hworld.1 hbooks (fun _ hx => ⟨f, List.mem_singleton.1 hx⟩) (by rw [hworld.2])
    ?_ fun hid c' m => ?_
  · rw [hmarks, World.marks, World.marks, hworld.2]
  · rw [(Extension.isDetector_iff he).1 hid] at hmark hf
    show List.filterMap _ [_] = _
    rw [hmark, hl, List.filterMap_cons, hf]
    by_cases hm : (w.detectors.get id).context = c' ∧ n = m
    · rw [if_pos hm, if_pos ⟨rfl, hm⟩]
      rfl
    · rw [if_neg hm, if_neg fun hall => hm hall.2]
      rfl

/-- A detector is asked about an instance that listens and is no singleton. -/
theorem after_unreachable (he : e.body = .detector) (hl : i.listener? = some l)
    (hmark : w.marks e.id n = some false) :
    Listens id c w (w.remark e.id ((w.detectors.get e.id).singletons.erase n))
      [.scope (.call (.after e v i n) (.ok i)) [.fact (.listenerUnreachable n)]] := by
  refine answered rfl (.of_same rfl fun m => rfl) (fun _ hx => ⟨_, List.mem_singleton.1 hx⟩)
    (World.context_remark ..) ?_ fun hid c' m => ?_
  · rw [World.marks_remark]
    by_cases hid : e.id = id
    · subst hid
      have hnext : (w.marks e.id).next e.id (.opens (.call (.after e v i n) (.ok i))) =
          Function.update (w.marks e.id) n none :=
        if_pos ⟨(Extension.isDetector_iff he).2 rfl, by rw [hl]; rfl, hmark⟩
      rw [if_pos rfl, hnext]
      funext m
      rw [OrderedMap.get?_erase, Function.update_apply]
      simp only [eq_comm (a := n)]
      rfl
    · rw [if_neg hid, Marks.next_after fun heq => absurd ((Extension.isDetector_iff he).1 heq) hid]
  · rw [(Extension.isDetector_iff he).1 hid] at hmark
    rw [if_neg fun hall => by rw [hmark] at hall; cases hall.1]
    rfl

/-- A detector is asked about an instance. -/
theorem after (he : e.body = .detector) {u : Unit}
    (h : Detector.after e.id i n w = some (u, w', j)) :
    Listens id c w w' [.scope (.call (.after e v i n) (.ok i)) j] := by
  obtain ⟨hquiet, rfl, rfl⟩ | ⟨l, hl, hmark, hadd⟩ | ⟨l, hl, hmark, rfl, rfl⟩ :=
    Detector.after_eq_some h
  · exact after_quiet he hquiet
  · exact after_offer he hl hmark hadd
  · exact after_unreachable he hl hmark

end Asked

end Listens

/-! ## Runs that are listened to -/

/-- Every finished run does to context `c` and to detector `id` what its journal tells. -/
def Heeds (id c : ObjectId) {α : Type} (x : Run H σ α) : Prop :=
  ∀ w a w' j, x w = some (a, w', j) → Listens id c w w' j

namespace Heeds

variable {id c : ObjectId} {α β : Type}

/-- A run that leaves no trace, no listener and nothing with a detector that was there. -/
theorem silent {x : Run H σ α} (h : ∀ w a w' j, x w = some (a, w', j) →
    j = [] ∧ w.next ≤ w'.next ∧ w'.contexts = w.contexts ∧
      (id < w.next → w'.detectors.get id = w.detectors.get id)) : Heeds id c x := by
  intro w a w' j hrun
  obtain ⟨rfl, hnext, hcontexts, hsame⟩ := h w a w' j hrun
  exact .of_facts hnext (.of_same hcontexts fun _ => rfl) hsame
    fun _ he => absurd he List.not_mem_nil

theorem pure (a : α) : Heeds id c (Pure.pure a : Run H σ α) := by
  refine silent fun w b w' j hrun => ?_
  cases hrun
  exact ⟨rfl, Nat.le_refl _, rfl, fun _ => rfl⟩

theorem ask (f : World H σ → α) : Heeds id c (Run.ask f) := by
  refine silent fun w b w' j hrun => ?_
  cases hrun
  exact ⟨rfl, Nat.le_refl _, rfl, fun _ => rfl⟩

theorem fresh : Heeds id c (Run.fresh : Run H σ ObjectId) := by
  refine silent fun w a w' j hrun => ?_
  cases hrun
  exact ⟨rfl, Nat.le_succ _, rfl, fun _ => rfl⟩

theorem exceeded : Heeds id c (Run.exceeded : Run H σ α) :=
  silent fun w b w' j hrun => by cases hrun

/-- A change that concerns neither contexts nor detectors. -/
theorem change {f : World H σ → World H σ} (hnext : ∀ w, (f w).next = w.next)
    (hcontexts : ∀ w, (f w).contexts = w.contexts)
    (hdetectors : ∀ w, (f w).detectors = w.detectors) : Heeds id c (Run.change f) := by
  refine silent fun w a w' j hrun => ?_
  cases hrun
  exact ⟨rfl, Nat.le_of_eq (hnext w).symm, hcontexts w, fun _ => by rw [hdetectors]⟩

/-- What is told of neither concerns nor listeners. -/
theorem record {f : Fact H} (hf : ∀ c' n, Moment.offer? c' n (.fact f) = none) :
    Heeds id c (Run.record f : Run H σ Unit) := by
  intro w a w' j hrun
  cases hrun
  refine .of_facts (Nat.le_refl _) (.of_same rfl fun n => ?_) (fun _ => rfl)
    fun _ he => ⟨f, List.mem_singleton.1 he⟩
  exact List.filterMap_cons_none (hf c n)

theorem bind {x : Run H σ α} {f : α → Run H σ β} (hx : Heeds id c x)
    (hf : ∀ a, Heeds id c (f a)) : Heeds id c (x >>= f) := by
  intro w b w₂ j h
  obtain ⟨a, w₁, j₁, j₂, h₁, h₂, rfl⟩ := Run.bind_eq_some.1 h
  exact (hx w a w₁ j₁ h₁).append (hf a w₁ b w₂ j₂ h₂)

theorem within {s : α → Scope H} {x : Run H σ α} (hs : ∀ a, (s a).asked? id = none)
    (hx : Heeds id c x) : Heeds id c (Run.within s x) := by
  intro w a w' j h
  obtain ⟨j', h', rfl⟩ := Run.within_eq_some.1 h
  exact (hx w a w' j' h').scope (hs a) ⟨rfl, rfl, rfl⟩ ⟨rfl, rfl, rfl⟩

theorem of_edits {x : Run H σ α} (h : x.Edits) : Heeds id c x := by
  intro w a w' j hrun
  have hedit := h w a w' j hrun
  refine .of_facts (Nat.le_of_eq hedit.next.symm) (.of_same hedit.contexts fun n => ?_)
    (fun _ => by rw [hedit.detectors]) fun e he => (hedit.facts e he).imp fun _ hf => hf.1
  refine offered_facts c n fun e he => (hedit.facts e he).imp fun f hf => ⟨hf.1, ?_⟩
  cases f <;> first | rfl | exact hf.2.elim

/-! ### The library -/

theorem create {call : Call H σ} {r : ObjectId} {n : ComponentName} {d : Definition H}
    (hbuild : ∀ chain, Heeds id c (Creation.build call (.direct r) n d chain).run)
    {w w' : World H σ} {a : Except DependencyError (Instance H)} {j : Journal H}
    (h : (Creation.create call r n d).run w = some (a, w', j)) : Listens id c w w' j := by
  obtain ⟨-, -, rfl, rfl⟩ | ⟨-, result, w₁, j₁, hrun, -, rfl, rfl⟩ :=
    Creation.create_eq_some call h
  · exact .of_facts (Nat.le_refl _) (.of_same rfl fun _ => rfl) (fun _ => rfl)
      fun _ he => absurd he List.not_mem_nil
  · exact (hbuild _ _ result w₁ j₁ hrun).scope rfl ⟨rfl, rfl, rfl⟩ ⟨rfl, rfl, rfl⟩

theorem resolve {call : Call H σ} (v : View) (n : ComponentName)
    (hbuild : ∀ d chain, Heeds id c (Creation.build call (.direct v.registry) n d chain).run) :
    Heeds id c (v.resolve call n).run := by
  intro w a w' j h
  obtain ⟨i, hi, rfl, rfl, rfl⟩ |
    ⟨hnone, ⟨hlook, rfl, rfl, rfl⟩ | ⟨d, j', hlook, hcreate, rfl⟩⟩ := View.resolve_eq_some call h
  · exact .bare rfl _
  · exact .bare rfl _
  · exact (create (hbuild d) hcreate).scope rfl ⟨rfl, rfl, rfl⟩ ⟨rfl, rfl, rfl⟩

theorem paired : Paired (· = ·) fun {α} (x _ : Run H σ α) => Heeds id c x where
  alike := .of_eq
  pure := pure
  bind := bind
  ask f _ := ask f
  fresh := fresh
  remember _ := change (fun _ => rfl) (fun _ => rfl) fun _ => rfl

/-- What the library's own interceptors answer. -/
theorem own (call : Call H σ) (cb : Callback H) (hcb : cb.IsOwn) :
    Heeds id c (cb.perform call) := by
  refine Callback.perform_own (R := fun x _ => Heeds id c x) call call ?_ ?_ ?_ ?_ ?_ cb hcb
  · exact fun _ _ _ _ => within (fun _ => rfl) (pure _)
  · exact fun _ _ _ _ _ _ => within (fun _ => rfl) (pure _)
  · intro id' name tier views v i n
    have hafter : Heeds id c (Checker.after id' v i n : Run H σ Unit) :=
      paired.checker_after (fun _ _ _ _ _ => record fun _ _ => rfl)
        (fun _ _ => change (fun _ => rfl) (fun _ => rfl) fun _ => rfl) id' v i n
    exact within (fun _ => rfl) (bind hafter fun _ => pure _)
  · intro id' name tier views d n w a w' j hrun
    cases hrun
    exact .merged rfl d n _
  · intro id' name tier views v i n w a w' j hrun
    obtain ⟨j', hrespond, rfl⟩ := Run.within_eq_some.1 hrun
    obtain ⟨_, w₁, j₁, j₂, hafter, hpure, rfl⟩ := Run.bind_eq_some.1 hrespond
    cases hpure
    rw [List.append_nil]
    exact .after rfl hafter

/-- A new detector is none that was there before. -/
theorem newDetector (context : ObjectId) : Heeds id c (Detector.create context : Run H σ _) := by
  refine silent fun w a w' j hrun => ?_
  cases hrun
  refine ⟨rfl, Nat.le_succ _, rfl, fun hid => ?_⟩
  show (w.detectors.set w.next _).get id = _
  rw [Table.get_set, if_neg (Nat.ne_of_gt hid)]

theorem newChecker (target : Nat) : Heeds id c (Checker.create target : Run H σ _) := by
  refine silent fun w a w' j hrun => ?_
  cases hrun
  exact ⟨rfl, Nat.le_succ _, rfl, fun _ => rfl⟩

theorem closed {call : Call H σ} (hcall : ∀ cb, Heeds id c (call cb)) :
    Closed call (fun {α} (x : Run H σ α) => Heeds id c x) where
  toPaired := paired
  record f hf := record fun _ _ => by cases f <;> first | rfl | exact hf.elim
  within s _ _ hs hx := within (fun a => Scope.asked?_of_plain (hs a) id) hx
  register r d := of_edits (Registry.register_edits r d)
  remove r n := of_edits (Registry.remove_edits r n)
  registerInstance r n i := of_edits (Registry.registerInstance_edits r n i)
  install v e := of_edits (v.install_edits e)
  clearCache v := of_edits v.clearCache_edits
  resolve v n h := resolve v n h
  newChecker := newChecker
  newDetector := newDetector
  own := own call
  addListener _ _ _ _ _ _ _ h := .addListener h
  publish _ _ h := bind (ask _) fun _ => within (fun _ => rfl) (h _)
  call := hcall

/-- What the library does among callbacks of a behaviour is listened to. -/
theorem behaviour (b : Behaviour H σ) (depth : Nat) :
    Closed (b.call depth) (fun {α} (x : Run H σ α) => Heeds id c x) :=
  b.closed (fun _ => exceeded) (fun _ => closed) depth

/-- In the course of a program a context and a detector change as the journal tells. -/
theorem program (b : Behaviour H σ) (depth : Nat) (x : Program H σ α) :
    Heeds id c (b.run depth x) :=
  (behaviour b depth).program (fun _ => exceeded) depth x

end Heeds

end Startup
