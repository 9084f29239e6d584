import Startup.Proofs.Interceptor.Listening
import Startup.Proofs.Registry.Stack

/-!
What a detector makes of a creation. It is shown the definition and marks the component; whatever
happens until it is asked about the finished instance concerns other components, since none is
created within its own creation. So the mark that it finds then is the one that it made.

Main statements: `Marks.frame`, that in the creation of a component whatever the callbacks do does
not touch its mark, if the detector serves one registry; `Detects.frame`, that it offers no listener
under the name either, if a context is reserved for the detector; and `Detects.attended`. A creation
that succeeds asks the detector, wherever it stands in the chain. If a singleton was to be made, the
listener of the instance that the detector was asked about is offered, and nothing else under that
name. With the detector at the end of the chain that is the instance that was made, as
`Detects.created` says.
-/

namespace Startup

variable {H : Host} {σ : Type}

/-! ## A detector of one registry -/

mutual

/-- Detector `id` is called by nobody but the creations in registry `r`, each about the component
that it makes. `around` is the activity in which the entry stands. -/
def Event.serves (r id : ObjectId) (around : Option (Scope H)) : Event H → Bool
  | .fact _ => true
  | .scope s body =>
    ((s.asked? id).all fun n => decide (around.bind (·.creates? r) = some n)) &&
      Journal.serves r id (some s) body

def Journal.serves (r id : ObjectId) (around : Option (Scope H)) : List (Event H) → Bool
  | [] => true
  | e :: rest => e.serves r id around && Journal.serves r id around rest

end

namespace Journal

variable {r id : ObjectId} {around : Option (Scope H)}

theorem serves_append {j k : Journal H} :
    serves r id around (j ++ k) = true ↔
      serves r id around j = true ∧ serves r id around k = true := by
  induction j with
  | nil => simp [serves]
  | cons e rest ih =>
    rw [List.cons_append, serves, serves, Bool.and_eq_true, Bool.and_eq_true, ih, and_assoc]

theorem serves_scope {s : Scope H} {body : Journal H} :
    Event.serves r id around (.scope s body) = true ↔
      (∀ n, s.asked? id = some n → around.bind (·.creates? r) = some n) ∧
        serves r id (some s) body = true := by
  rw [Event.serves, Bool.and_eq_true, Option.all_eq_true]
  simp

/-- Within an activity, the detector serves as it does around it. -/
theorem Occurs.serves {s : Scope H} {past : List (Moment H)} {body j : Journal H}
    (h : Occurs (.scope s body) past j) (hj : Journal.serves r id around j = true) :
    Journal.serves r id (some s) body = true := by
  induction h generalizing around with
  | here rest =>
    rw [Journal.serves, Bool.and_eq_true] at hj
    exact (serves_scope.1 hj.1).2
  | inside t rest _ ih =>
    rw [Journal.serves, Bool.and_eq_true] at hj
    exact ih (serves_scope.1 hj.1).2
  | later x _ ih =>
    rw [Journal.serves, Bool.and_eq_true] at hj
    exact ih hj.2

end Journal

/-! ## Marks of components in creation -/

namespace Marks

variable {r id : ObjectId} {n : ComponentName}

mutual

theorem frame_event (e : Event H) {φ : Marks} {l : Ledger H} {around : Option (Scope H)}
    (hlaw : l.Lawful r e.moments) (hserves : e.serves r id around = true)
    (haround : around.bind (·.creates? r) ≠ some n) (hn : n ∈ l.registry.inCreation) :
    φ.after id e.moments n = φ n := by
  cases e with
  | fact f => rfl
  | scope s body =>
    obtain ⟨hcalled, hbody⟩ := Journal.serves_scope.1 hserves
    have hother : s.asked? id ≠ some n := fun hs => haround (hcalled n hs)
    have hmoments : Event.moments (.scope s body) = Journal.moments [.scope s body] :=
      (List.append_nil _).symm
    rw [Event.moments, Ledger.Lawful, Ledger.lawful_append] at hlaw
    rw [hmoments, after_scope, ← next_opens_ne (φ := φ) hother]
    refine frame body hlaw.2.1 hbody (fun hs => hlaw.1.creates_new hs hn) ?_
    rw [(Ledger.step hlaw.1).inCreation_opens]
    exact List.mem_append_left _ hn

/-- While a component is in creation, whatever the callbacks do does not touch its mark. -/
theorem frame (j : List (Event H)) {φ : Marks} {l : Ledger H} {around : Option (Scope H)}
    (hlaw : l.Lawful r (Journal.moments j)) (hserves : Journal.serves r id around j = true)
    (haround : around.bind (·.creates? r) ≠ some n) (hn : n ∈ l.registry.inCreation) :
    φ.after id (Journal.moments j) n = φ n := by
  cases j with
  | nil => rfl
  | cons e rest =>
    rw [Journal.serves, Bool.and_eq_true] at hserves
    rw [Journal.moments, Ledger.lawful_append] at hlaw
    have hstack := Ledger.inCreation_event e l hlaw.1
    rw [Journal.moments, after_append, frame rest hlaw.2 hserves.2 haround (hstack ▸ hn),
      frame_event e hlaw.1 hserves.1 haround hn]

end

end Marks

/-! ## A context and a detector of their own -/

/-- A listener is offered to context `c`. -/
def Fact.offersTo (c : ObjectId) : Fact H → Bool
  | .listenerAdded c' .. | .listenerKnown c' .. => c' = c
  | _ => false

/-- Detector `id` is asked about a finished instance. -/
def Scope.hears (id : ObjectId) : Scope H → Bool
  | .call (.after e ..) _ => e.isDetector id
  | _ => false

mutual

/-- Within the activity `around`, context `c` belongs to detector `id` and the detector to registry
`r`: listeners are offered to the context only where the detector is asked about an instance, and
the detector is called only by the creation, in that registry, of the component in question. -/
def Event.reserved (r id c : ObjectId) (around : Option (Scope H)) : Event H → Bool
  | .fact f => !f.offersTo c || around.any (·.hears id)
  | .scope s body =>
    ((s.asked? id).all fun n => decide (around.bind (·.creates? r) = some n)) &&
      Journal.reserved r id c (some s) body

def Journal.reserved (r id c : ObjectId) (around : Option (Scope H)) : List (Event H) → Bool
  | [] => true
  | e :: rest => e.reserved r id c around && Journal.reserved r id c around rest

end

theorem Fact.offer?_of_not_offersTo {f : Fact H} {c : ObjectId} (hf : f.offersTo c = false)
    (n : ComponentName) : Moment.offer? c n (.fact f) = none := by
  cases f with
  | listenerAdded | listenerKnown => exact if_neg fun h => of_decide_eq_false hf h.1
  | _ => rfl

namespace Journal

variable {r id c : ObjectId} {around : Option (Scope H)}

theorem reserved_append {j k : Journal H} :
    reserved r id c around (j ++ k) = true ↔
      reserved r id c around j = true ∧ reserved r id c around k = true := by
  induction j with
  | nil => simp [reserved]
  | cons e rest ih =>
    rw [List.cons_append, reserved, reserved, Bool.and_eq_true, Bool.and_eq_true, ih, and_assoc]

theorem reserved_scope {s : Scope H} {body : Journal H} :
    Event.reserved r id c around (.scope s body) = true ↔
      (∀ n, s.asked? id = some n → around.bind (·.creates? r) = some n) ∧
        reserved r id c (some s) body = true := by
  rw [Event.reserved, Bool.and_eq_true, Option.all_eq_true]
  simp

mutual

theorem serves_event_of_reserved {around : Option (Scope H)} (e : Event H)
    (h : e.reserved r id c around = true) : e.serves r id around = true := by
  cases e with
  | fact => rfl
  | scope s body =>
    obtain ⟨hcalled, hbody⟩ := reserved_scope.1 h
    exact serves_scope.2 ⟨hcalled, serves_of_reserved body hbody⟩

/-- A detector whose context is reserved for it serves one registry. -/
theorem serves_of_reserved {around : Option (Scope H)} (j : List (Event H))
    (h : reserved r id c around j = true) : serves r id around j = true := by
  cases j with
  | nil => rfl
  | cons e rest =>
    rw [reserved, Bool.and_eq_true] at h
    rw [serves, serves_event_of_reserved e h.1, serves_of_reserved rest h.2]
    rfl

end

/-- Within an activity, what it was reserved for still is. -/
theorem Occurs.reserved {s : Scope H} {past : List (Moment H)} {body j : Journal H}
    (h : Occurs (.scope s body) past j) (hj : Journal.reserved r id c around j = true) :
    Journal.reserved r id c (some s) body = true := by
  induction h generalizing around with
  | here rest =>
    rw [Journal.reserved, Bool.and_eq_true] at hj
    exact (reserved_scope.1 hj.1).2
  | inside t rest _ ih =>
    rw [Journal.reserved, Bool.and_eq_true] at hj
    exact ih (reserved_scope.1 hj.1).2
  | later x _ ih =>
    rw [Journal.reserved, Bool.and_eq_true] at hj
    exact ih hj.2

end Journal

/-! ## A detector in its place -/

/-- A chain ends with detector `id` and has it nowhere else. -/
def Detector.Ends (id : ObjectId) (chain : List (Extension H)) : Prop :=
  ∃ pre, chain = pre ++ [Detector.extension id] ∧ ∀ x ∈ pre, x.isDetector id = false

/-- A chain has detector `id` in one place. -/
def Detector.Among (id : ObjectId) (chain : List (Extension H)) : Prop :=
  ∃ pre post, chain = pre ++ Detector.extension id :: post ∧
    ∀ x ∈ pre ++ post, x.isDetector id = false

/-- A chain in which no object stands twice has each detector in one place. -/
theorem Detector.Among.of_mem {id : ObjectId} {chain : List (Extension H)} (h : Distinct chain)
    (hmem : Detector.extension id ∈ chain) : Detector.Among id chain := by
  obtain ⟨pre, post, rfl⟩ := List.append_of_mem hmem
  refine ⟨pre, post, rfl, fun x hx => Bool.eq_false_iff.2 fun hdetector => ?_⟩
  have hne : x.id ≠ id := by
    obtain ⟨-, hrest, hacross⟩ := List.pairwise_append.1 h
    rcases List.mem_append.1 hx with hbefore | hbehind
    · exact hacross x hbefore _ List.mem_cons_self
    · exact ((List.pairwise_cons.1 hrest).1 x hbehind).symm
  unfold Extension.isDetector at hdetector
  split at hdetector
  · exact hne (of_decide_eq_true hdetector)
  · cases hdetector

/-- Detector `id` is there, stands at the end of the chain of registry `r`, and offers listeners to
context `c`. -/
structure Detector.Seated (r id c : ObjectId) (w : World H σ) : Prop where
  known : id < w.next
  context : (w.detectors.get id).context = c
  chain : Detector.Ends id (w.registries.get r).interceptors

/-- To install a detector puts it in its place, whatever the chain was. -/
theorem Registry.ends_install (s : Registry H) (id : ObjectId) :
    Detector.Ends id (s.install (Detector.extension id)).interceptors := by
  refine ⟨_, rfl, fun x hx => ?_⟩
  have hother : (!decide (x.id = id)) = true := (List.mem_filter.1 hx).2
  unfold Extension.isDetector
  split
  · simpa only [Bool.not_eq_true'] using hother
  · rfl

/-- What a successful registration leaves behind has its detector in its place. -/
theorem Registration.seated {call : Call H σ} {v : View} {c : ObjectId} {w w' : World H σ}
    {reg : Registration H} {j : Journal H}
    (h : (v.registerInterceptors call c).run w = some (.ok reg, w', j)) :
    ∃ id, reg.detector = Detector.extension id ∧ Detector.Seated v.registry id c w' := by
  obtain ⟨body, hfurnish, -⟩ := registerInterceptors_eq_some h
  obtain ⟨a, w₁, j₁, k, -, -, -, ⟨e, -, hfailed, -⟩ | ⟨es, w₂, -, hreg, rfl, -⟩⟩ :=
    furnish_eq_some rfl hfurnish
  · cases hfailed
  · cases hreg
    refine ⟨w₂.next, rfl, Nat.lt_succ_self _, ?_, ?_⟩
    · show ((w₂.detectors.set w₂.next _).get w₂.next).context = c
      rw [Table.get_set, if_pos rfl]
    · rw [World.get_setRegistry_self]
      exact Registry.ends_install _ _

/-! ## What a journal tells of a detector -/

/-- What a journal tells of detector `id`, which stands in the chain of registry `r` and offers
listeners to context `c`, if its marks are `φ` and the ledger of the registry is `l` before it. -/
structure Detects (r id c : ObjectId) (φ : Marks) (l : Ledger H) (j : Journal H) : Prop where
  lawful : l.Lawful r (Journal.moments j)
  tells : ∀ past s body, Journal.Occurs (.scope s body) past j → (l.after r past).Tells r s body
  heard : ∀ past e v i n a body, Journal.Occurs (.scope (.call (.after e v i n) a) body) past j →
    e.isDetector id = true → a = .ok i ∧ (∀ x ∈ body, ∃ f, x = .fact f) ∧
      ∀ m, offered c m (Journal.moments body) =
        if φ.after id past n = some true ∧ n = m then i.listener?.toList else []

namespace Detects

variable {r id c : ObjectId} {φ : Marks} {l : Ledger H} {j k : Journal H}

/-- A finished run tells of a detector that was there before it. -/
theorem of_run {α : Type} {x : Run H σ α} (hx : Accounts r x) (hheeds : Heeds id c x)
    {w w' : World H σ} {a : α} (hrun : x w = some (a, w', j)) (hid : id < w.next)
    (hcontext : (w.detectors.get id).context = c) :
    Detects r id c (w.marks id) (.of (w.registries.get r)) j where
  lawful := (hx.tracks _ w a w' j hrun rfl).lawful
  tells := hx.tells _ w a w' j hrun rfl
  heard past e v i n a' body hoccurs he := by
    obtain ⟨ha, hfacts, hoffers⟩ :=
      ((hheeds w a w' j hrun).hears hid).heard past e v i n a' body hoccurs he
    refine ⟨ha, hfacts, fun m => ?_⟩
    rw [hoffers c m, hcontext]
    simp only [true_and]

/-- A part of a journal tells what the journal does. -/
theorem part (h : Detects r id c φ l j) (past : List (Moment H))
    (hlaw : (l.after r past).Lawful r (Journal.moments k))
    (hpart : ∀ e past', Journal.Occurs e past' k → Journal.Occurs e (past ++ past') j) :
    Detects r id c (φ.after id past) (l.after r past) k where
  lawful := hlaw
  tells past' s body hoccurs := by
    rw [← Ledger.after_append]
    exact h.tells _ s body (hpart _ _ hoccurs)
  heard past' e v i n a body hoccurs he := by
    rw [← Marks.after_append]
    exact h.heard _ e v i n a body (hpart _ _ hoccurs) he

theorem left (h : Detects r id c φ l (j ++ k)) : Detects r id c φ l j := by
  have hlaw := h.lawful
  rw [Journal.moments_append, Ledger.lawful_append] at hlaw
  exact h.part [] hlaw.1 fun _ _ hoccurs => hoccurs.append_right k

theorem right (h : Detects r id c φ l (j ++ k)) :
    Detects r id c (φ.after id (Journal.moments j)) (l.after r (Journal.moments j)) k := by
  have hlaw := h.lawful
  rw [Journal.moments_append, Ledger.lawful_append] at hlaw
  exact h.part _ hlaw.2 fun e past' hoccurs => hoccurs.append_left j

theorem inside {s : Scope H} (h : Detects r id c φ l [.scope s j]) :
    Detects r id c (φ.next id (.opens s)) (l.next r (.opens s)) j := by
  have hlaw := h.lawful
  rw [Journal.moments_scope, Ledger.Lawful, Ledger.lawful_append] at hlaw
  exact h.part [.opens s] hlaw.2.1 fun _ _ hoccurs => .inside s [] hoccurs

theorem at_entry {s : Scope H} {past : List (Moment H)} {body : Journal H}
    (h : Detects r id c φ l j) (hoccurs : Journal.Occurs (.scope s body) past j) :
    Detects r id c (φ.after id past) (l.after r past) [.scope s body] := by
  have hlaw := (h.lawful.at_entry hoccurs).2
  rw [← List.append_nil (Event.moments _)] at hlaw
  refine h.part past hlaw fun e past' hwithin => ?_
  rcases hwithin.of_scope with ⟨rfl, rfl⟩ | ⟨inner, rfl, hinside⟩
  · rwa [List.append_nil]
  · exact hoccurs.trans hinside

theorem opens {s : Scope H} (h : Detects r id c φ l [.scope s j]) : l.Allows r (.opens s) := by
  have hlaw := h.lawful
  rw [Journal.moments_scope, Ledger.Lawful] at hlaw
  exact hlaw.1

end Detects

/-! ## A component in creation -/

/-- Nothing in which the mark of `n` could be touched is going on around. -/
def Away (r id : ObjectId) (n : ComponentName) (around : Option (Scope H)) : Prop :=
  ∀ s ∈ around, s.hears id = false ∧ s.creates? r ≠ some n

namespace Away

variable {r id c : ObjectId} {n : ComponentName} {around : Option (Scope H)}

/-- Facts tell of no listener under the name. -/
theorem offer?_eq_none {f : Fact H} (haway : Away r id n around)
    (h : Event.reserved r id c around (.fact f) = true) :
    Moment.offer? c n (.fact f) = none := by
  have hquiet : around.any (·.hears id) = false := by
    cases around with
    | none => rfl
    | some s => exact (haway s rfl).1
  rw [Event.reserved, hquiet, Bool.or_false, Bool.not_eq_true'] at h
  exact Fact.offer?_of_not_offersTo h n

/-- A call of the detector is about the component that is created around. -/
theorem asked?_ne {s : Scope H} (haway : Away r id n around)
    (hcalled : ∀ m, s.asked? id = some m → around.bind (·.creates? r) = some m) :
    s.asked? id ≠ some n := by
  intro hs
  obtain ⟨t, ht, hcreates⟩ := Option.bind_eq_some_iff.1 (hcalled n hs)
  exact (haway t ht).2 hcreates

end Away

/-- A scope in which the detector is asked is a call of the detector. -/
theorem Scope.call_of_hears {id : ObjectId} {s : Scope H} (hs : s.hears id = true) :
    ∃ e v i m a, s = .call (.after e v i m) a ∧ e.isDetector id = true := by
  cases s with
  | call cb a =>
    cases cb with
    | after e v i m => exact ⟨e, v, i, m, a, rfl, hs⟩
    | _ => cases hs
  | _ => cases hs

namespace Detects

variable {r id c : ObjectId} {n : ComponentName}

/-- Where the detector is asked about one component, it offers nothing under another name. -/
theorem heard_ne {φ : Marks} {l : Ledger H} {s : Scope H} {body : Journal H}
    (h : Detects r id c φ l [.scope s body]) (hs : s.hears id = true)
    (hother : s.asked? id ≠ some n) :
    (∀ x ∈ body, ∃ f, x = .fact f) ∧ offered c n (Journal.moments body) = [] := by
  obtain ⟨e, v, i, m, a, rfl, he⟩ := Scope.call_of_hears hs
  obtain ⟨-, hfacts, hoffers⟩ := h.heard [] e v i m a body (.here []) he
  have hne : m ≠ n := by simpa [Scope.asked?, he] using hother
  rw [hoffers, if_neg fun hall => hne hall.2]
  exact ⟨hfacts, rfl⟩

mutual

theorem unoffered_event (e : Event H) {φ : Marks} {l : Ledger H} {around : Option (Scope H)}
    (h : Detects r id c φ l [e]) (hreserved : e.reserved r id c around = true)
    (haway : Away r id n around) (hn : n ∈ l.registry.inCreation) :
    offered c n e.moments = [] := by
  cases e with
  | fact f => exact List.filterMap_cons_none (haway.offer?_eq_none hreserved)
  | scope s body =>
    obtain ⟨hcalled, hbody⟩ := Journal.reserved_scope.1 hreserved
    have hmoments : Event.moments (.scope s body) = Journal.moments [.scope s body] :=
      (List.append_nil _).symm
    rw [hmoments, offered_scope]
    by_cases hhears : s.hears id = true
    · exact (h.heard_ne hhears (haway.asked?_ne hcalled)).2
    · refine unoffered body h.inside hbody ?_ ?_
      · rintro t ht
        cases ht
        exact ⟨Bool.eq_false_iff.2 hhears, fun hs => h.opens.creates_new hs hn⟩
      · rw [(Ledger.step h.opens).inCreation_opens]
        exact List.mem_append_left _ hn

theorem unoffered (j : List (Event H)) {φ : Marks} {l : Ledger H} {around : Option (Scope H)}
    (h : Detects r id c φ l j) (hreserved : Journal.reserved r id c around j = true)
    (haway : Away r id n around) (hn : n ∈ l.registry.inCreation) :
    offered c n (Journal.moments j) = [] := by
  cases j with
  | nil => rfl
  | cons e rest =>
    rw [Journal.reserved, Bool.and_eq_true] at hreserved
    have hhead : Detects r id c φ l [e] := left (k := rest) h
    have htail := right (j := [e]) (k := rest) h
    have hmoments : Journal.moments [e] = e.moments := List.append_nil _
    rw [hmoments] at htail
    have hstack := Ledger.inCreation_event e l (hmoments ▸ hhead.lawful)
    rw [Journal.moments, offered_append, unoffered_event e hhead hreserved.1 haway hn,
      unoffered rest htail hreserved.2 haway (hstack ▸ hn)]
    rfl

end

/-- In the creation of a component, whatever the callbacks do neither offers a listener under its
name nor touches its mark. -/
theorem frame (j : List (Event H)) {φ : Marks} {l : Ledger H} {around : Option (Scope H)}
    (h : Detects r id c φ l j) (hreserved : Journal.reserved r id c around j = true)
    (haway : Away r id n around) (hn : n ∈ l.registry.inCreation) :
    offered c n (Journal.moments j) = [] ∧ φ.after id (Journal.moments j) n = φ n := by
  refine ⟨h.unoffered j hreserved haway hn, Marks.frame j h.lawful
    (Journal.serves_of_reserved j hreserved) (fun hs => ?_) hn⟩
  obtain ⟨s, hs, hcreates⟩ := Option.bind_eq_some_iff.1 hs
  exact (haway s hs).2 hcreates

end Detects

/-! ## The turns of a creation -/

namespace Creation

variable {r id c : ObjectId} {n : ComponentName} {d : Definition H}

/-- The detector is called in a turn. -/
def Turn.asks (id : ObjectId) : Turn H → Bool
  | .merged e | .after e => e.isDetector id
  | .create | .before _ => false

/-- Turns of others are no concern of the detector. -/
theorem Performed.reserved_none {ts : List (Turn H)} {i : Option (Instance H)} {j : Journal H}
    {result : Except DependencyError (Option (Instance H))} {around : Option (Scope H)}
    (h : Performed r n d ts i j result) (hts : ∀ t ∈ ts, t.asks id = false)
    (hreserved : Journal.reserved r id c around j = true) :
    Journal.reserved r id c none j = true := by
  have hentry {t : Turn H} {i : Option (Instance H)} {entry : Event H}
      {a : Except Failure (Option (Instance H))} (ht : t.Leaves r n d i entry a)
      (hasks : t.asks id = false) (hres : entry.reserved r id c around = true) :
      entry.reserved r id c none = true := by
    have hnone {s : Scope H} {body : Journal H} (hs : s.asked? id = none)
        (hres : Event.reserved r id c around (.scope s body) = true) :
        Event.reserved r id c none (.scope s body) = true := by
      refine Journal.reserved_scope.2 ⟨fun m hm => ?_, (Journal.reserved_scope.1 hres).2⟩
      rw [hs] at hm
      cases hm
    cases ht with
    | merged | after => exact hnone (if_neg (Bool.eq_false_iff.1 hasks)) hres
    | create | before => exact hnone rfl hres
  induction h with
  | done => rfl
  | next ht _ ih =>
    obtain ⟨ht', hts'⟩ := List.forall_mem_cons.1 hts
    rw [Journal.reserved, Bool.and_eq_true] at hreserved ⊢
    exact ⟨hentry ht ht' hreserved.1, ih hts' hreserved.2⟩
  | failed ht =>
    obtain ⟨ht', -⟩ := List.forall_mem_cons.1 hts
    rw [Journal.reserved, Bool.and_eq_true] at hreserved ⊢
    exact ⟨hentry ht ht' hreserved.1, rfl⟩

/-- A chain that has the detector in one place calls it twice: among those that are shown the
definition, and among those that are asked at the end, before the members behind it. -/
theorem turns_split {id : ObjectId} {pre post : List (Extension H)} {e : Extension H}
    (hothers : ∀ x ∈ pre ++ post, x.isDetector id = false) (hmerge : e.views.mergeAware = true)
    (hview : e.views.interceptor = true) :
    ∃ early late rest, turns (pre ++ e :: post) =
        early ++ .merged e :: (late ++ .after e :: rest) ∧
      (∀ t ∈ early, t.asks id = false) ∧ (∀ t ∈ late, t.asks id = false) ∧
      (∀ t ∈ rest, t.asks id = false) ∧ (post = [] → rest = []) := by
  have hmerged (t : Turn H) (l : List (Extension H)) (hl : ∀ x ∈ l, x ∈ pre ++ post)
      (ht : t ∈ (l.filter (·.views.mergeAware)).map .merged) : t.asks id = false := by
    obtain ⟨x, hx, rfl⟩ := List.mem_map.1 ht
    exact hothers x (hl x (List.mem_filter.1 hx).1)
  have hafter (t : Turn H) (l : List (Extension H)) (hl : ∀ x ∈ l, x ∈ pre ++ post)
      (ht : t ∈ (l.filter (·.views.interceptor)).map .after) : t.asks id = false := by
    obtain ⟨x, hx, rfl⟩ := List.mem_map.1 ht
    exact hothers x (hl x (List.mem_filter.1 hx).1)
  refine ⟨(pre.filter (·.views.mergeAware)).map .merged,
    (post.filter (·.views.mergeAware)).map .merged ++
      .create :: (((pre ++ e :: post).filter (·.views.interceptor)).map .before ++
        (pre.filter (·.views.interceptor)).map .after),
    (post.filter (·.views.interceptor)).map .after, ?_, ?_, ?_, ?_, ?_⟩
  · simp [turns, List.filter_append, hmerge, hview]
  · exact fun t ht => hmerged t pre (fun _ => List.mem_append_left _) ht
  · intro t ht
    rcases List.mem_append.1 ht with ht | ht
    · exact hmerged t post (fun _ => List.mem_append_right _) ht
    · rcases List.mem_cons.1 ht with rfl | ht
      · rfl
      · rcases List.mem_append.1 ht with ht | ht
        · obtain ⟨x, -, rfl⟩ := List.mem_map.1 ht
          rfl
        · exact hafter t pre (fun _ => List.mem_append_left _) ht
  · exact fun t ht => hafter t post (fun _ => List.mem_append_right _) ht
  · rintro rfl
    rfl

end Creation

/-- The listener of what a creation made, if that is a singleton and has one. -/
def Making.listener? (m : Making H) : Option (Listener H) :=
  match m.result with
  | .ok i => if m.definition.isSingleton then i.listener? else none
  | .error _ => none

theorem Making.listener?_of_error {m : Making H} {x : DependencyError}
    (h : m.result.map some = .error x) : m.listener? = none := by
  unfold listener?
  cases hresult : m.result with
  | error => rfl
  | ok =>
    rw [hresult] at h
    cases h

namespace Detects

open Creation (Performed)

variable {r id c : ObjectId} {φ : Marks} {l : Ledger H} {n : ComponentName} {d : Definition H}

/-- Turns of others, in the creation of `n`. -/
theorem quiet {ts : List (Creation.Turn H)} {i : Option (Instance H)} {j : Journal H}
    {result : Except DependencyError (Option (Instance H))} {around : Option (Scope H)}
    (h : Detects r id c φ l j) (hj : Performed r n d ts i j result)
    (hts : ∀ t ∈ ts, t.asks id = false)
    (hreserved : Journal.reserved r id c around j = true) (hn : n ∈ l.registry.inCreation) :
    offered c n (Journal.moments j) = [] ∧ φ.after id (Journal.moments j) n = φ n :=
  h.frame j (hj.reserved_none hts hreserved) (fun _ hs => nomatch hs) hn

/-- The detector is shown the definition and marks the component. -/
theorem shown {e : Extension H} {i : Option (Instance H)} {j : Journal H}
    {result : Except DependencyError (Option (Instance H))} {around : Option (Scope H)}
    (he : e.isDetector id = true) (h : Detects r id c φ l j)
    (hj : Performed r n d [.merged e] i j result)
    (hreserved : Journal.reserved r id c around j = true) (hn : n ∈ l.registry.inCreation) :
    offered c n (Journal.moments j) = [] ∧
      φ.after id (Journal.moments j) n = some d.isSingleton := by
  have hentry {a : (Callback.merged e d n).Answer} {inner : Journal H}
      (h : Detects r id c φ l [.scope (.call (.merged e d n) a) inner])
      (hres : Event.reserved r id c around (.scope (.call (.merged e d n) a) inner) = true) :
      offered c n (Journal.moments [.scope (.call (.merged e d n) a) inner]) = [] ∧
        φ.after id (Journal.moments [.scope (.call (.merged e d n) a) inner]) n =
          some d.isSingleton := by
    have haway : Away r id n (some (.call (.merged e d n) a)) := by
      rintro s hs
      cases hs
      exact ⟨rfl, nofun⟩
    have hmark : φ.next id (.opens (.call (.merged e d n) a)) n = some d.isSingleton := by
      rw [Marks.next, if_pos he, Function.update_self]
    obtain ⟨hoffers, hkept⟩ := h.inside.frame inner (Journal.reserved_scope.1 hres).2 haway hn
    rw [offered_scope, Marks.after_scope, hoffers, hkept, hmark]
    exact ⟨rfl, rfl⟩
  cases hj with
  | next ht hts =>
    cases hts
    generalize Except.ok _ = out at ht
    cases ht
    exact hentry h (Bool.and_eq_true_iff.1 hreserved).1
  | failed ht =>
    generalize Except.error _ = out at ht
    cases ht
    exact hentry h (Bool.and_eq_true_iff.1 hreserved).1

/-- The detector is asked at the end of a creation. It hands the instance on, and offers its
listener if it finds the mark of a singleton. -/
theorem asked {e : Extension H} {i : Option (Instance H)} {j : Journal H}
    {answer : Except DependencyError (Option (Instance H))} (he : e.isDetector id = true)
    (h : Detects r id c φ l j) (hj : Performed r n d [.after e] i j answer) :
    ∃ p inner, j = [.scope (.call (.after e (.direct r) p n) (.ok p)) inner] ∧
      answer = .ok (some p) ∧
      offered c n (Journal.moments j) = if φ n = some true then p.listener?.toList else [] := by
  have hentry {p : Instance H} {a : Except Failure (Instance H)} {inner : Journal H}
      (hd : Detects r id c φ l [.scope (.call (.after e (.direct r) p n) a) inner]) :
      a = .ok p ∧
        offered c n (Journal.moments [.scope (.call (.after e (.direct r) p n) a) inner]) =
          if φ n = some true then p.listener?.toList else [] := by
    obtain ⟨ha, -, hoffers⟩ := hd.heard [] e (.direct r) p n a inner (.here []) he
    rw [offered_scope, hoffers]
    exact ⟨ha, by simp [Marks.after]⟩
  cases hj with
  | next ht hts =>
    cases hts
    generalize hout : Except.ok _ = out at ht
    cases ht with
    | after p a inner =>
      obtain ⟨rfl, hoffers⟩ := hentry h
      cases hout
      exact ⟨_, _, rfl, rfl, hoffers⟩
  | failed ht =>
    generalize hout : Except.error _ = out at ht
    cases ht with
    | after p a inner =>
      obtain ⟨rfl, -⟩ := hentry h
      cases hout

/-- A creation fails before the detector is asked, or it comes to that turn. Until then nothing is
offered under the name, and then the mark is that of the definition. -/
theorem reaches {early late tail : List (Creation.Turn H)} {e : Extension H}
    {i : Option (Instance H)} {j : Journal H}
    {result : Except DependencyError (Option (Instance H))} {around : Option (Scope H)}
    (he : e.isDetector id = true) (h : Detects r id c φ l j)
    (hj : Performed r n d (early ++ .merged e :: (late ++ tail)) i j result)
    (hearly : ∀ t ∈ early, t.asks id = false) (hlate : ∀ t ∈ late, t.asks id = false)
    (hreserved : Journal.reserved r id c around j = true) (hn : n ∈ l.registry.inCreation) :
    (∃ x, result = .error x) ∧ offered c n (Journal.moments j) = [] ∨
      ∃ i' made rest, j = made ++ rest ∧ offered c n (Journal.moments made) = [] ∧
        φ.after id (Journal.moments made) n = some d.isSingleton ∧
        Performed r n d tail i' rest result := by
  have hstack {k : Journal H} (hk : Detects r id c φ l k) :
      n ∈ (l.after r (Journal.moments k)).registry.inCreation :=
    (Ledger.inCreation_journal k l hk.lawful).symm ▸ hn
  rcases hj.of_append with ⟨x, hx, hj⟩ | ⟨i₁, j₁, k₁, rfl, hj₁, hrest⟩
  · exact .inl ⟨⟨x, hx⟩, (h.quiet hj hearly hreserved hn).1⟩
  obtain ⟨hreserved₁, hreserved₂⟩ := Journal.reserved_append.1 hreserved
  have hfirst := (h.left.quiet hj₁ hearly hreserved₁ hn).1
  have hn₁ := hstack h.left
  have hrest : Performed r n d ([.merged e] ++ (late ++ tail)) i₁ k₁ result := hrest
  rcases hrest.of_append with ⟨x, hx, hj⟩ | ⟨i₂, j₂, k₂, rfl, hj₂, hrest⟩
  · refine .inl ⟨⟨x, hx⟩, ?_⟩
    rw [Journal.moments_append, offered_append, hfirst,
      (h.right.shown he hj hreserved₂ hn₁).1, List.nil_append]
  obtain ⟨hreserved₂, hreserved₃⟩ := Journal.reserved_append.1 hreserved₂
  obtain ⟨hsecond, hmark⟩ := h.right.left.shown he hj₂ hreserved₂ hn₁
  have hn₂ : n ∈ ((l.after r (Journal.moments j₁)).after r (Journal.moments j₂)).registry.inCreation
      := (Ledger.inCreation_journal j₂ _ h.right.left.lawful).symm ▸ hn₁
  rcases hrest.of_append with ⟨x, hx, hj⟩ | ⟨i₃, j₃, k₃, rfl, hj₃, hrest⟩
  · refine .inl ⟨⟨x, hx⟩, ?_⟩
    rw [Journal.moments_append, offered_append, Journal.moments_append, offered_append, hfirst,
      hsecond, (h.right.right.quiet hj hlate hreserved₃ hn₂).1]
    rfl
  · obtain ⟨hthird, hkept⟩ :=
      h.right.right.left.quiet hj₃ hlate (Journal.reserved_append.1 hreserved₃).1 hn₂
    refine .inr ⟨i₃, j₁ ++ (j₂ ++ j₃), k₃, by simp, ?_, ?_, hrest⟩
    · rw [Journal.moments_append, offered_append, Journal.moments_append, offered_append, hfirst,
        hsecond, hthird]
      rfl
    · rw [Journal.moments_append, Marks.after_append, Journal.moments_append, Marks.after_append,
        hkept, hmark]

/-- The detector was asked about `p` in the creation `m`, whose entries are `body`, and handed it
on. -/
def Asks (r id : ObjectId) (m : Making H) (body : Journal H) (p : Instance H) : Prop :=
  ∃ made inner rest, body = made ++
    .scope (.call (.after (Detector.extension id) (.direct r) p m.name) (.ok p)) inner :: rest

/-- What the entry of a creation tells of the detector. -/
theorem entered {m : Making H} {past : List (Moment H)} {body j : Journal H}
    {around : Option (Scope H)} (h : Detects r id c φ l j)
    (hoccurs : Journal.Occurs (.scope (m.scope r) body) past j)
    (hreserved : Journal.reserved r id c around j = true) :
    ∃ ψ l', Detects r id c ψ l' body ∧ m.name ∈ l'.registry.inCreation ∧
      Performed r m.name m.definition (Creation.turns m.chain) none body (m.result.map some) ∧
      Journal.reserved r id c (some (m.scope r)) body = true := by
  have hentry := h.at_entry hoccurs
  refine ⟨_, _, hentry.inside, ?_, hentry.tells [] _ body (.here []) rfl,
    hoccurs.reserved hreserved⟩
  rw [(Ledger.step hentry.opens).inCreation_opens, Making.scope, Scope.creates?, if_pos rfl]
  exact List.mem_append_right _ List.mem_cons_self

theorem isDetector_extension (id : ObjectId) :
    (Detector.extension id : Extension H).isDetector id = true := decide_eq_true rfl

/-- Nobody stands behind the detector where it ends the chain. -/
theorem behind_eq_nil {pre post : List (Extension H)}
    (hends : Detector.Ends id (pre ++ Detector.extension id :: post))
    (hothers : ∀ x ∈ pre ++ post, x.isDetector id = false) : post = [] := by
  obtain ⟨pre', hchain, -⟩ := hends
  rcases post.eq_nil_or_concat with hnil | ⟨post', y, rfl⟩
  · exact hnil
  · rw [List.concat_eq_append, ← List.cons_append, ← List.append_assoc] at hchain
    obtain ⟨-, hlast⟩ := List.append_inj' hchain rfl
    have hdetector := hothers y (by simp)
    rw [(List.cons.inj hlast).1, isDetector_extension] at hdetector
    cases hdetector

/-- A creation whose chain ends with the detector offers the listener of the singleton that it
made, and nothing else under the name. -/
theorem created {m : Making H} {past : List (Moment H)} {body j : Journal H}
    {around : Option (Scope H)} (h : Detects r id c φ l j)
    (hoccurs : Journal.Occurs (.scope (m.scope r) body) past j)
    (hchain : Detector.Ends id m.chain) (hreserved : Journal.reserved r id c around j = true) :
    offered c m.name (Journal.moments body) = m.listener?.toList := by
  obtain ⟨ψ, l', hbody, hn, hturns, hbodyReserved⟩ := h.entered hoccurs hreserved
  obtain ⟨pre, hchain, hpre⟩ := hchain
  obtain ⟨early, late, rest, hplan, hearly, hlate, -, hrest⟩ :=
    Creation.turns_split (e := Detector.extension id) (by rwa [List.append_nil])
      rfl rfl
  rw [hchain, hplan, hrest rfl] at hturns
  obtain ⟨⟨x, hx⟩, hnone⟩ | ⟨i, made, k, rfl, hnone, hmark, hlast⟩ :=
    hbody.reaches (isDetector_extension id) hturns hearly hlate hbodyReserved hn
  · rw [Making.listener?_of_error hx, hnone]
    rfl
  · obtain ⟨p, inner, rfl, hresult, hoffers⟩ :=
      hbody.right.asked (isDetector_extension id) hlast
    have hmade : m.result = .ok p := by
      cases hm : m.result with
      | error x =>
        rw [hm] at hresult
        cases hresult
      | ok q =>
        rw [hm] at hresult
        cases hresult
        rfl
    rw [Journal.moments_append, offered_append, hnone, List.nil_append, hoffers, hmark,
      Making.listener?, hmade]
    cases m.definition.isSingleton <;> rfl

/-- A creation that succeeds asks the detector wherever it stands in the chain. The listener of the
instance that it was asked about is offered if the definition is that of a singleton, and nothing
else under the name. If nobody stands behind the detector, that instance is the one that is made. -/
theorem attended {m : Making H} {past : List (Moment H)} {body j : Journal H}
    {around : Option (Scope H)} {i : Instance H} (h : Detects r id c φ l j)
    (hoccurs : Journal.Occurs (.scope (m.scope r) body) past j)
    (hchain : Detector.Among id m.chain) (hreserved : Journal.reserved r id c around j = true)
    (hmade : m.result = .ok i) :
    ∃ p, Asks r id m body p ∧ (Detector.Ends id m.chain → p = i) ∧
      offered c m.name (Journal.moments body) =
        if m.definition.isSingleton then p.listener?.toList else [] := by
  obtain ⟨ψ, l', hbody, hn, hturns, hbodyReserved⟩ := h.entered hoccurs hreserved
  obtain ⟨pre, post, hchain, hothers⟩ := hchain
  obtain ⟨early, late, rest, hplan, hearly, hlate, hrest, hnobody⟩ :=
    Creation.turns_split (e := Detector.extension id) hothers rfl rfl
  rw [hchain, hplan, hmade] at hturns
  obtain ⟨⟨x, hx⟩, -⟩ | ⟨i₁, made, k, rfl, hnone, hmark, hlast⟩ :=
    hbody.reaches (isDetector_extension id) hturns hearly hlate hbodyReserved hn
  · cases hx
  have hlast : Performed r m.name m.definition ([.after (Detector.extension id)] ++ rest) i₁ k
      (.ok (some i)) := hlast
  obtain ⟨x, hx, -⟩ | ⟨i₂, j₁, j₂, rfl, hasked, hbehind⟩ := hlast.of_append
  · cases hx
  have hn' := (Ledger.inCreation_journal made l' hbody.left.lawful).symm ▸ hn
  obtain ⟨p, inner, rfl, hp, hoffers⟩ :=
    hbody.right.left.asked (isDetector_extension id) hasked
  cases hp
  have hquiet := (hbody.right.right.quiet hbehind hrest (Journal.reserved_append.1
    (Journal.reserved_append.1 hbodyReserved).2).2
    ((Ledger.inCreation_journal _ _ hbody.right.left.lawful).symm ▸ hn')).1
  refine ⟨p, ⟨made, inner, j₂, rfl⟩, fun hends => ?_, ?_⟩
  · rw [hnobody (behind_eq_nil (hchain ▸ hends) hothers)] at hbehind
    cases hbehind
    rfl
  · rw [Journal.moments_append, offered_append, hnone, Journal.moments_append, offered_append,
      hoffers, hquiet, hmark, List.nil_append, List.append_nil]
    cases m.definition.isSingleton <;> rfl

end Detects

end Startup
