import Startup.Proofs.Interceptor.LiveListeners
import Startup.Proofs.Registry.Queries

/-!
Broadcasts among listeners that do as they please. A listener that is told of an event may register
others, create components whose listeners are registered on the way, and send events itself, so
that broadcasts and registrations stand within each other at any depth.

What the listeners of a context are follows from all that was offered to it so far, and a broadcast
tells those that are there when it begins. Both are said of moments of the journal, so it does not
matter in how many other broadcasts a moment lies.

Main statement: `snapshot_broadcast`, for every context that was empty when a program began.
-/

namespace Startup

variable {H : Host} {σ : Type}

/-! ## Offers -/

/-- Who is offered to context `c` at a moment, and under which name. -/
def Moment.offering? (c : ObjectId) : Moment H → Option (ComponentName × Listener H)
  | .fact (.listenerAdded c' n l) | .fact (.listenerKnown c' n l) =>
    if c' = c then some (n, l) else none
  | _ => none

/-- All that was offered to context `c`, in the order of time. -/
def offerings (c : ObjectId) (ms : List (Moment H)) : List (ComponentName × Listener H) :=
  ms.filterMap (Moment.offering? c)

theorem offerings_append (c : ObjectId) (ms ms' : List (Moment H)) :
    offerings c (ms ++ ms') = offerings c ms ++ offerings c ms' := List.filterMap_append

theorem offerings_scope (c : ObjectId) (s : Scope H) (j : Journal H) :
    offerings c (Journal.moments [.scope s j]) = offerings c (Journal.moments j) :=
  Journal.filterMap_moments_scope rfl rfl j

/-! ## What is registered -/

namespace Context

/-- Whoever is offered under a new name is registered, behind those that were there before. -/
def enroll (book : Context H) (offers : List (ComponentName × Listener H)) : Context H :=
  offers.foldl (fun book p => book.insertIfNew p.1 p.2) book

theorem enroll_cons (book : Context H) (n : ComponentName) (l : Listener H)
    (offers : List (ComponentName × Listener H)) :
    enroll book ((n, l) :: offers) = enroll (book.insertIfNew n l) offers := rfl

theorem enroll_append (book : Context H) (offers offers' : List (ComponentName × Listener H)) :
    enroll book (offers ++ offers') = enroll (enroll book offers) offers' := List.foldl_append

/-- A new name stands at the end. -/
theorem keys_enroll (book : Context H) (offers : List (ComponentName × Listener H)) :
    (enroll book offers).keys =
      Registry.appendNew (fun _ => true) book.keys (offers.map Prod.fst) := by
  induction offers generalizing book with
  | nil => rfl
  | cons p rest ih =>
    obtain ⟨n, l⟩ := p
    have hkeys := OrderedMap.keys_insertIfNew book n l
    rw [enroll_cons, ih, hkeys, List.map_cons, Registry.appendNew]
    by_cases hn : n ∈ book.keys <;> simp [hn]

/-- Who is registered stays, and under a new name it is the first one that was offered. -/
theorem get?_enroll (book : Context H) (offers : List (ComponentName × Listener H))
    (n : ComponentName) :
    (enroll book offers).get? n = (book.get? n).or (Assoc.find? n offers) := by
  induction offers generalizing book with
  | nil => exact Option.or_none.symm
  | cons p rest ih =>
    obtain ⟨m, l⟩ := p
    rw [enroll_cons, ih, OrderedMap.get?_insertIfNew, Option.or_assoc, Assoc.find?]
    by_cases hm : m = n <;> simp [hm]

/-- Who is registered, in terms of what was offered. -/
structure Registers (offers : List (ComponentName × Listener H)) (book : Context H) : Prop where
  nodup : book.keys.Nodup
  mem : ∀ n, n ∈ book.keys ↔ n ∈ offers.map Prod.fst
  /-- In the order of their first offers. -/
  order : book.keys.Pairwise fun a b =>
    (offers.map Prod.fst).idxOf a < (offers.map Prod.fst).idxOf b
  /-- The listener of a name is the first one that was offered under it. -/
  first : ∀ n, book.get? n = Assoc.find? n offers

theorem registers_enroll (offers : List (ComponentName × Listener H)) :
    Registers offers (enroll ∅ offers) := by
  obtain ⟨added, heq, hmem, horder⟩ :=
    Registry.exists_appendNew (fun _ => true) [] (offers.map Prod.fst)
  have hkeys : (enroll ∅ offers).keys = added := by
    rw [keys_enroll, OrderedMap.keys_empty, heq, List.nil_append]
  constructor
  · exact OrderedMap.keys_nodup _
  · intro n
    rw [hkeys, hmem]
    simp
  · rw [hkeys]
    exact horder
  · intro n
    rw [get?_enroll, OrderedMap.get?_empty, Option.none_or]

/-- One more offer. -/
theorem enroll_offered {c : ObjectId} {f : Fact H} {n : ComponentName} {l : Listener H}
    (hf : Moment.offering? c (.fact f) = some (n, l)) (book : Context H)
    (past : List (Moment H)) :
    enroll book (offerings c (past ++ [.fact f])) =
      (enroll book (offerings c past)).insertIfNew n l := by
  have hoffers : offerings c [Moment.fact f] = [(n, l)] := List.filterMap_cons_some hf
  rw [offerings_append, hoffers, enroll_append]
  rfl

/-! ## What a journal tells of a context -/

/-- What a moment tells of context `c` is so: a name is new or known, and a broadcast begins with
those that are registered. -/
def Admits (c : ObjectId) (book : Context H) : Moment H → Prop
  | .fact (.listenerAdded c' n _) => c' = c → n ∉ book.keys
  | .fact (.listenerKnown c' n _) => c' = c → n ∈ book.keys
  | .opens (.publication c' _ listeners) => c' = c → listeners = book.values
  | _ => True

/-- All that is told of context `c` from some moment on is so. -/
def Follows (c : ObjectId) (book : Context H) : List (Moment H) → Prop
  | [] => True
  | m :: ms => Admits c book m ∧ Follows c (enroll book (offerings c [m])) ms

variable {c : ObjectId} {book : Context H}

theorem follows_append {ms ms' : List (Moment H)} :
    Follows c book (ms ++ ms') ↔
      Follows c book ms ∧ Follows c (enroll book (offerings c ms)) ms' := by
  induction ms generalizing book with
  | nil => simp [Follows, offerings, enroll]
  | cons m ms ih =>
    have hoffers : offerings c (m :: ms) = offerings c [m] ++ offerings c ms :=
      offerings_append c [m] ms
    rw [List.cons_append, Follows, Follows, ih, hoffers, enroll_append, and_assoc]

/-- What is told at any moment is so after all that was offered before. -/
theorem Follows.admits {ms past future : List (Moment H)} {m : Moment H}
    (h : Follows c book ms) (hsplit : ms = past ++ m :: future) :
    Admits c (enroll book (offerings c past)) m := by
  rw [hsplit, follows_append] at h
  exact h.2.1

/-- Where nothing is offered and no broadcast begins, there is nothing to tell. -/
theorem follows_facts (book : Context H) {j : Journal H}
    (hj : ∀ e ∈ j, ∃ f, e = .fact f ∧ Moment.offering? c (.fact f) = none) :
    Follows c book (Journal.moments j) ∧ offerings c (Journal.moments j) = [] := by
  induction j generalizing book with
  | nil => exact ⟨trivial, rfl⟩
  | cons e rest ih =>
    obtain ⟨⟨f, rfl, hf⟩, hrest⟩ := List.forall_mem_cons.1 hj
    have hnone : offerings c [Moment.fact f] = [] := List.filterMap_cons_none hf
    have hadmits : Admits c book (.fact f) := by
      cases f with
      | listenerAdded c' n l =>
        intro hc
        simp [Moment.offering?, hc] at hf
      | listenerKnown c' n l =>
        intro hc
        simp [Moment.offering?, hc] at hf
      | _ => trivial
    have hmoments : Journal.moments (.fact f :: rest) = [.fact f] ++ Journal.moments rest := rfl
    rw [hmoments, follows_append, offerings_append, hnone, List.nil_append]
    obtain ⟨hfollows, hoffers⟩ := ih book hrest
    exact ⟨⟨⟨hadmits, trivial⟩, hfollows⟩, hoffers⟩

theorem follows_scope {s : Scope H} {j : Journal H} :
    Follows c book (Journal.moments [.scope s j]) ↔
      Admits c book (.opens s) ∧ Follows c book (Journal.moments j) := by
  have hopens : offerings c [Moment.opens s] = [] := rfl
  have hcloses (book : Context H) : Follows c book [.closes s] := ⟨trivial, trivial⟩
  rw [Journal.moments_scope, Follows, hopens, follows_append]
  simp [enroll, hcloses]

/-- A registration offers a listener, and tells whether the name is known. -/
theorem addListener_offers {c' : ObjectId} {n : ComponentName} {l : Listener H}
    {w w' : World H σ} {u : Unit} {j : Journal H}
    (h : Context.addListener c' n l w = some (u, w', j)) (c : ObjectId) : ∃ f : Fact H,
      j = [.fact f] ∧
      Moment.offering? c (.fact f) = (if c' = c then some (n, l) else none) ∧
      Admits c (w.contexts.get c) (.fact f) ∧
      w'.contexts.get c =
        if c' = c then (w.contexts.get c).insertIfNew n l else w.contexts.get c := by
  rw [Context.addListener_run] at h
  by_cases hknown : n ∈ (w.contexts.get c').keys
  · have hcontains : (w.contexts.get c').contains n = true :=
      ((w.contexts.get c').mem_keys_iff n).1 hknown
    rw [if_pos hcontains] at h
    cases h
    refine ⟨.listenerKnown c' n l, rfl, rfl, fun hc => hc ▸ hknown, ?_⟩
    by_cases hc : c' = c
    · rw [if_pos hc, ← hc, OrderedMap.insertIfNew_of_mem hknown]
    · rw [if_neg hc]
  · have hnew : ¬ (w.contexts.get c').contains n = true :=
      fun hn => hknown (((w.contexts.get c').mem_keys_iff n).2 hn)
    rw [if_neg hnew] at h
    cases h
    refine ⟨.listenerAdded c' n l, rfl, rfl, fun hc => hc ▸ hknown, ?_⟩
    rw [Table.get_set]
    by_cases hc : c' = c
    · rw [if_pos hc, if_pos hc, ← hc, OrderedMap.insertIfNew_of_not_mem hknown]
    · rw [if_neg hc, if_neg hc]

end Context

open Context

/-! ## Runs -/

/-- An activity that is no broadcast. -/
def Scope.IsQuiet : Scope H → Prop
  | .publication .. => False
  | _ => True

theorem Scope.IsPlain.quiet {s : Scope H} (h : s.IsPlain) : s.IsQuiet := by
  cases s with
  | publication => exact h
  | _ => trivial

/-- What a finished run did to context `c`, and whom its broadcasts told. -/
structure Delivers (c : ObjectId) (w w' : World H σ) (j : Journal H) : Prop where
  book : w'.contexts.get c = enroll (w.contexts.get c) (offerings c (Journal.moments j))
  follows : Follows c (w.contexts.get c) (Journal.moments j)
  /-- A broadcast consists of one call for each listener, in order, and of nothing else. -/
  told : ∀ past e listeners body,
    Journal.Occurs (.scope (.publication c e listeners) body) past j →
      List.Forall₂ (Informs e) listeners body

namespace Delivers

variable {c : ObjectId} {w w₀ w₁ w' : World H σ} {j k : Journal H}

/-- Among facts there is no broadcast. -/
theorem of_facts
    (hbook : w'.contexts.get c = enroll (w.contexts.get c) (offerings c (Journal.moments j)))
    (hfollows : Follows c (w.contexts.get c) (Journal.moments j))
    (hj : ∀ e ∈ j, ∃ f, e = .fact f) : Delivers c w w' j where
  book := hbook
  follows := hfollows
  told past e listeners body hoccurs := by
    obtain ⟨f, hf⟩ := hoccurs.of_facts hj
    cases hf

/-- Facts by which nothing is offered. -/
theorem aside (hsame : w'.contexts = w.contexts)
    (hj : ∀ e ∈ j, ∃ f, e = .fact f ∧ Moment.offering? c (.fact f) = none) :
    Delivers c w w' j := by
  obtain ⟨hfollows, hnone⟩ := follows_facts (w.contexts.get c) hj
  have hbook : w'.contexts.get c =
      enroll (w.contexts.get c) (offerings c (Journal.moments j)) := by
    rw [hsame, hnone]
    rfl
  exact of_facts hbook hfollows fun e he => (hj e he).imp fun _ hf => hf.1

theorem append (h : Delivers c w w₁ j) (h' : Delivers c w₁ w' k) : Delivers c w w' (j ++ k) where
  book := by rw [h'.book, h.book, Journal.moments_append, offerings_append, enroll_append]
  follows := by
    rw [Journal.moments_append, follows_append, ← h.book]
    exact ⟨h.follows, h'.follows⟩
  told past e listeners body hoccurs := by
    rcases hoccurs.of_append with hfirst | ⟨past', -, hsecond⟩
    · exact h.told past e listeners body hfirst
    · exact h'.told past' e listeners body hsecond

/-- An activity around a run. If it is a broadcast, the run has to consist of the calls of those
that are registered. -/
theorem scope {s : Scope H} (h : Delivers c w₀ w₁ j) (hbefore : w₀.contexts = w.contexts)
    (hafter : w'.contexts = w₁.contexts) (hopens : Admits c (w.contexts.get c) (.opens s))
    (htold : ∀ e listeners, s = .publication c e listeners →
      List.Forall₂ (Informs e) listeners j) : Delivers c w w' [.scope s j] where
  book := by rw [hafter, h.book, hbefore, offerings_scope]
  follows := by
    have hinside := h.follows
    rw [hbefore] at hinside
    exact follows_scope.2 ⟨hopens, hinside⟩
  told past e listeners body hoccurs := by
    rcases hoccurs.of_scope with ⟨heq, -⟩ | ⟨past', -, hinside⟩
    · cases heq
      exact htold e listeners rfl
    · exact h.told past' e listeners body hinside

theorem quiet {s : Scope H} (h : Delivers c w₀ w₁ j) (hs : s.IsQuiet)
    (hbefore : w₀.contexts = w.contexts) (hafter : w'.contexts = w₁.contexts) :
    Delivers c w w' [.scope s j] := by
  apply h.scope hbefore hafter
  · cases s with
    | publication => exact hs.elim
    | _ => trivial
  · rintro e listeners rfl
    exact hs.elim

theorem nothing (w : World H σ) : Delivers c w w ([] : Journal H) :=
  aside rfl fun _ he => absurd he List.not_mem_nil

theorem addListener {c' : ObjectId} {n : ComponentName} {l : Listener H} {u : Unit}
    (h : Context.addListener c' n l w = some (u, w', j)) : Delivers c w w' j := by
  obtain ⟨f, rfl, hoffer, hadmits, hcontext⟩ := Context.addListener_offers h c
  have hbook : w'.contexts.get c =
      enroll (w.contexts.get c) (offerings c (Journal.moments [.fact f])) := by
    show _ = enroll _ (List.filterMap _ [_])
    rw [hcontext, List.filterMap_cons, hoffer]
    by_cases hc : c' = c
    · rw [if_pos hc, if_pos hc]
      rfl
    · rw [if_neg hc, if_neg hc]
      rfl
  exact of_facts hbook ⟨hadmits, trivial⟩ fun e he => ⟨f, List.mem_singleton.1 he⟩

end Delivers

/-- Every finished run does to context `c` what its journal tells, and its broadcasts tell those
that were registered when they began. -/
def Broadcasts (c : ObjectId) {α : Type} (x : Run H σ α) : Prop :=
  ∀ w a w' j, x w = some (a, w', j) → Delivers c w w' j

namespace Broadcasts

variable {c : ObjectId} {α β : Type}

/-- A run that leaves no trace and no listener. -/
theorem silent {x : Run H σ α} (h : ∀ w a w' j, x w = some (a, w', j) →
    j = [] ∧ w'.contexts = w.contexts) : Broadcasts c x := by
  intro w a w' j hrun
  obtain ⟨rfl, hcontexts⟩ := h w a w' j hrun
  exact .aside hcontexts fun _ he => absurd he List.not_mem_nil

theorem pure (a : α) : Broadcasts c (Pure.pure a : Run H σ α) := by
  apply silent
  intro w b w' j hrun
  cases hrun
  exact ⟨rfl, rfl⟩

theorem ask (f : World H σ → α) : Broadcasts c (Run.ask f) := by
  apply silent
  intro w b w' j hrun
  cases hrun
  exact ⟨rfl, rfl⟩

theorem fresh : Broadcasts c (Run.fresh : Run H σ ObjectId) := by
  apply silent
  intro w a w' j hrun
  cases hrun
  exact ⟨rfl, rfl⟩

theorem exceeded : Broadcasts c (Run.exceeded : Run H σ α) := by
  apply silent
  intro w b w' j hrun
  cases hrun

/-- A change that does not concern contexts. -/
theorem change {f : World H σ → World H σ} (hf : ∀ w, (f w).contexts = w.contexts) :
    Broadcasts c (Run.change f) := by
  apply silent
  intro w a w' j hrun
  cases hrun
  exact ⟨rfl, hf w⟩

/-- A fact by which nobody is offered. -/
theorem record {f : Fact H} (hf : Moment.offering? c (.fact f) = none) :
    Broadcasts c (Run.record f : Run H σ Unit) := by
  intro w a w' j hrun
  cases hrun
  exact .aside rfl fun e he => ⟨f, List.mem_singleton.1 he, hf⟩

theorem bind {x : Run H σ α} {f : α → Run H σ β} (hx : Broadcasts c x)
    (hf : ∀ a, Broadcasts c (f a)) : Broadcasts c (x >>= f) := by
  intro w b w₂ j h
  obtain ⟨a, w₁, j₁, j₂, h₁, h₂, rfl⟩ := Run.bind_eq_some.1 h
  exact (hx w a w₁ j₁ h₁).append (hf a w₁ b w₂ j₂ h₂)

theorem within {s : α → Scope H} {x : Run H σ α} (hs : ∀ a, (s a).IsQuiet)
    (hx : Broadcasts c x) : Broadcasts c (Run.within s x) := by
  intro w a w' j h
  obtain ⟨j', h', rfl⟩ := Run.within_eq_some.1 h
  exact (hx w a w' j' h').quiet (hs a) rfl rfl

theorem of_edits {x : Run H σ α} (h : x.Edits) : Broadcasts c x := by
  intro w a w' j hrun
  have hedit := h w a w' j hrun
  refine .aside hedit.contexts fun e he => (hedit.facts e he).imp fun f hf => ⟨hf.1, ?_⟩
  have hkind := hf.2
  cases f <;> first | rfl | exact hkind.elim

/-! ### The library -/

/-- A broadcast begins with those that are registered, and consists of their calls. -/
theorem publish {call : Call H σ} (c' : ObjectId) (e : ContainerEvent)
    (htell : ∀ listeners, Broadcasts c (Context.tell call e listeners)) :
    Broadcasts c (Context.publish call c' e) := by
  intro w u w' j hrun
  rw [Context.publish, Run.context, Run.ask_bind] at hrun
  obtain ⟨told, hcalls, rfl⟩ := Run.within_eq_some.1 hrun
  apply (htell _ w u w' told hcalls).scope rfl rfl
  · exact fun hc => hc ▸ rfl
  · intro e' listeners hscope
    cases hscope
    exact Context.tell_eq_some hcalls

theorem create {call : Call H σ} {r : ObjectId} {n : ComponentName} {d : Definition H}
    (hbuild : ∀ chain, Broadcasts c (Creation.build call (.direct r) n d chain).run)
    {w w' : World H σ} {a : Except DependencyError (Instance H)} {j : Journal H}
    (h : (Creation.create call r n d).run w = some (a, w', j)) : Delivers c w w' j := by
  obtain ⟨-, -, rfl, rfl⟩ | ⟨-, result, w₁, j₁, hrun, -, rfl, rfl⟩ :=
    Creation.create_eq_some call h
  · exact .nothing _
  · exact (hbuild _ _ result w₁ j₁ hrun).quiet trivial rfl rfl

theorem resolve {call : Call H σ} (v : View) (n : ComponentName)
    (hbuild : ∀ d chain, Broadcasts c (Creation.build call (.direct v.registry) n d chain).run) :
    Broadcasts c (v.resolve call n).run := by
  intro w a w' j h
  obtain ⟨i, -, -, rfl, rfl⟩ | ⟨-, ⟨-, -, rfl, rfl⟩ | ⟨d, j', -, hcreate, rfl⟩⟩ :=
    View.resolve_eq_some call h
  · exact (Delivers.nothing _).quiet trivial rfl rfl
  · exact (Delivers.nothing _).quiet trivial rfl rfl
  · exact (create (hbuild d) hcreate).quiet trivial rfl rfl

theorem addListener (c' : ObjectId) (n : ComponentName) (l : Listener H) :
    Broadcasts c (Context.addListener c' n l : Run H σ Unit) :=
  fun _ _ _ _ h => .addListener h

theorem paired : Paired (· = ·) fun {α} (x _ : Run H σ α) => Broadcasts c x where
  alike := .of_eq
  pure := pure
  bind := bind
  ask f _ := ask f
  fresh := fresh
  remember _ := change fun _ => rfl

theorem setChecker (id : ObjectId) (s : Checker) :
    Broadcasts c (Run.setChecker id s : Run H σ Unit) := change fun _ => rfl

theorem setDetector (id : ObjectId) (s : Detector) :
    Broadcasts c (Run.setDetector id s : Run H σ Unit) := change fun _ => rfl

/-- What the library's own interceptors answer. -/
theorem own (call : Call H σ) (cb : Callback H) (hcb : cb.IsOwn) :
    Broadcasts c (cb.perform call) := by
  refine Callback.perform_own (R := fun x _ => Broadcasts c x) call call ?_ ?_ ?_ ?_ ?_ cb hcb
  · exact fun _ _ _ _ => within (fun _ => trivial) (pure _)
  · exact fun _ _ _ _ _ _ => within (fun _ => trivial) (pure _)
  · intro id name tier views v i n
    have hafter : Broadcasts c (Checker.after id v i n : Run H σ Unit) :=
      paired.checker_after (fun _ _ _ _ _ => record rfl) setChecker id v i n
    exact within (fun _ => trivial) (bind hafter fun _ => pure _)
  · intro id name tier views d n
    have hmerged : Broadcasts c (Detector.merged id d n : Run H σ Unit) :=
      paired.detector_merged setDetector id d n
    exact within (fun _ => trivial) (bind hmerged fun _ => pure _)
  · intro id name tier views v i n
    have hafter : Broadcasts c (Detector.after id i n : Run H σ Unit) :=
      paired.detector_after setDetector (fun _ => record rfl) addListener id i n
    exact within (fun _ => trivial) (bind hafter fun _ => pure _)

theorem closed {call : Call H σ} (hcall : ∀ cb, Broadcasts c (call cb)) :
    Closed call (fun {α} (x : Run H σ α) => Broadcasts c x) where
  toPaired := paired
  record f hf := record (by cases f <;> first | rfl | exact hf.elim)
  within s _ _ hs hx := within (fun a => (hs a).quiet) hx
  register r d := of_edits (Registry.register_edits r d)
  remove r n := of_edits (Registry.remove_edits r n)
  registerInstance r n i := of_edits (Registry.registerInstance_edits r n i)
  install v e := of_edits (v.install_edits e)
  clearCache v := of_edits v.clearCache_edits
  resolve := resolve
  newChecker _ := bind fresh fun _ => bind (setChecker _ _) fun _ => pure _
  newDetector _ := bind fresh fun _ => bind (setDetector _ _) fun _ => pure _
  own := own call
  addListener := addListener
  publish := publish
  call := hcall

theorem program (b : Behaviour H σ) (depth : Nat) (x : Program H σ α) :
    Broadcasts c (b.run depth x) :=
  (b.closed (fun _ => exceeded) (fun _ => closed) depth).program (fun _ => exceeded) depth x

end Broadcasts

/-! ## Broadcasts that end -/

/-- A listener is told in any world if its callback ends in any world. -/
theorem Context.tell_ends {call : Call H σ} {e : ContainerEvent} {listeners : List (Listener H)}
    (h : ∀ l ∈ listeners, ∀ w, ∃ p, call (.event l e) w = some p) (w : World H σ) :
    ∃ p, tell call e listeners w = some p := by
  induction listeners generalizing w with
  | nil => exact ⟨_, rfl⟩
  | cons l rest ih =>
    obtain ⟨⟨a, w₁, j₁⟩, hcall⟩ := h l List.mem_cons_self w
    obtain ⟨⟨u, w₂, j₂⟩, hrest⟩ := ih (fun k hk => h k (List.mem_cons_of_mem l hk)) w₁
    have hperform : Callback.perform call (.event l e) w =
        some (a, w₁, [.scope (.call (.event l e) a) j₁]) :=
      Run.within_eq_some.2 ⟨j₁, hcall, rfl⟩
    exact ⟨_, Run.bind_eq_some.2 ⟨a, w₁, _, j₂, hperform, hrest, rfl⟩⟩

/-- A broadcast ends if the calls of its listeners do, and leaves one entry, with these calls in
it. -/
theorem Context.publish_ends {call : Call H σ} {e : ContainerEvent} {c : ObjectId} {w : World H σ}
    (h : ∀ l ∈ (w.contexts.get c).values, ∀ w, ∃ p, call (.event l e) w = some p) :
    ∃ w' told,
      publish call c e w =
        some ((), w', [.scope (.publication c e (w.contexts.get c).values) told]) ∧
      List.Forall₂ (Informs e) (w.contexts.get c).values told := by
  obtain ⟨⟨u, w', told⟩, htell⟩ := tell_ends h w
  have hpublish : publish call c e w =
      some (u, w', [.scope (.publication c e (w.contexts.get c).values) told]) := by
    rw [publish, Run.context, Run.ask_bind]
    exact Run.within_eq_some.2 ⟨told, htell, rfl⟩
  exact ⟨w', told, hpublish, tell_eq_some htell⟩

/-- To offer a listener under a new name registers it behind the others, and nothing else in the
world is touched. -/
theorem Context.addListener_of_new {c : ObjectId} {n : ComponentName} (l : Listener H)
    {u : World H σ} (hn : n ∉ (u.contexts.get c).keys) :
    ∃ book : Context H, book.entries = (u.contexts.get c).entries ++ [(n, l)] ∧
      addListener c n l u =
        some ((), { u with contexts := u.contexts.set c book }, [.fact (.listenerAdded c n l)]) ∧
      (u.contexts.set c book).get c = book := by
  have hunknown : ¬ (u.contexts.get c).contains n = true :=
    fun hknown => hn (((u.contexts.get c).mem_keys_iff n).2 hknown)
  refine ⟨_, OrderedMap.entries_insert hn l, ?_, ?_⟩
  · rw [addListener_run, if_neg hunknown]
  · rw [Table.get_set, if_pos rfl]

/-! ## Programs -/

/-- A program that begins with an empty context, whatever it asks for, among callbacks that do
whatever they please. At every moment the listeners of the context are those that were offered, one
for each name, in the order of their first offers, and the listener of a name is the first one that
was offered under it. To offer a listener under a name that is known changes nothing at all; under a
new name it is registered at the end, and stands there from then on. A broadcast, at whatever depth
it stands in others, tells the listeners that were registered when it began, each of them once and
in their order, and nobody else; and it ends if the calls of its listeners do, with one entry for
all of them. -/
theorem snapshot_broadcast {α : Type} (b : Behaviour H σ) (depth : Nat) (x : Program H σ α)
    (c : ObjectId) {w w' : World H σ} {a : α} {j : Journal H} (hempty : w.contexts.get c = ∅)
    (hrun : b.run depth x w = some (a, w', j)) :
    let book (past : List (Moment H)) := enroll ∅ (offerings c past)
    w'.contexts.get c = book (Journal.moments j) ∧
    (∀ past, Registers (offerings c past) (book past)) ∧
    (∀ past n l future, Journal.moments j = past ++ .fact (.listenerKnown c n l) :: future →
      n ∈ (book past).keys ∧
        book (past ++ [.fact (.listenerKnown c n l)]) = book past) ∧
    (∀ past n l future, Journal.moments j = past ++ .fact (.listenerAdded c n l) :: future →
      n ∉ (book past).keys ∧
        (book (past ++ [.fact (.listenerAdded c n l)])).entries =
          (book past).entries ++ [(n, l)]) ∧
    (∀ past e listeners told,
      Journal.Occurs (.scope (.publication c e listeners) told) past j →
        listeners = (book past).values ∧ List.Forall₂ (Informs e) listeners told) ∧
    (∀ n l (u : World H σ), n ∈ (u.contexts.get c).keys →
      Context.addListener c n l u = some ((), u, [.fact (.listenerKnown c n l)])) ∧
    (∀ n l (u : World H σ), n ∉ (u.contexts.get c).keys → ∃ after : Context H,
      after.entries = (u.contexts.get c).entries ++ [(n, l)] ∧
        Context.addListener c n l u = some ((), { u with contexts := u.contexts.set c after },
          [.fact (.listenerAdded c n l)]) ∧
        (u.contexts.set c after).get c = after) ∧
    ∀ e (u : World H σ),
      (∀ l ∈ (u.contexts.get c).values, ∀ u', ∃ p, b.call depth (.event l e) u' = some p) →
        ∃ u' told,
          Context.publish (b.call depth) c e u =
            some ((), u', [.scope (.publication c e (u.contexts.get c).values) told]) ∧
          List.Forall₂ (Informs e) (u.contexts.get c).values told := by
  intro book
  have hdelivers := Broadcasts.program (c := c) b depth x w a w' j hrun
  have hfollows := hdelivers.follows
  have hbook := hdelivers.book
  rw [hempty] at hfollows hbook
  refine ⟨hbook, fun past => registers_enroll _, ?_, ?_, ?_, ?_, ?_, ?_⟩
  · intro past n l future hsplit
    have hknown : n ∈ (book past).keys := hfollows.admits hsplit rfl
    have hoffer : Moment.offering? c (.fact (.listenerKnown c n l)) = some (n, l) := if_pos rfl
    have hnext := enroll_offered hoffer ∅ past
    rw [OrderedMap.insertIfNew_of_mem hknown] at hnext
    exact ⟨hknown, hnext⟩
  · intro past n l future hsplit
    have hnew : n ∉ (book past).keys := hfollows.admits hsplit rfl
    have hoffer : Moment.offering? c (.fact (.listenerAdded c n l)) = some (n, l) := if_pos rfl
    have hnext := enroll_offered hoffer ∅ past
    rw [OrderedMap.insertIfNew_of_not_mem hnew] at hnext
    refine ⟨hnew, ?_⟩
    show (enroll ∅ (offerings c (past ++ _))).entries = _
    rw [hnext]
    exact OrderedMap.entries_insert hnew l
  · intro past e listeners told hoccurs
    obtain ⟨future, hsplit⟩ := hoccurs.split
    rw [Event.moments, List.append_assoc, List.cons_append] at hsplit
    exact ⟨hfollows.admits hsplit rfl, hdelivers.told past e listeners told hoccurs⟩
  · intro n l u hn
    have hknown : (u.contexts.get c).contains n = true := ((u.contexts.get c).mem_keys_iff n).1 hn
    rw [Context.addListener_run, if_pos hknown]
  · exact fun n l u hn => Context.addListener_of_new l hn
  · exact fun e u h => Context.publish_ends h

/-! ### A listener that registers another one and sends the event again -/

namespace Scenario

/-- Until a listener under the name "late" is known, whoever is told of an event registers one,
offers itself under a name that is taken, and sends the event again. -/
def echoing : Behaviour Scripted Memory
  | .event l e => do
    let book ← Program.request (.look fun w => w.contexts.get Setup.context)
    if book.contains ⟨"late"⟩ then
      return ()
    else
      let _ ← Program.request (.addListener Setup.context ⟨"late"⟩ { l with id := 9 })
      let _ ← Program.request (.addListener Setup.context ⟨"first"⟩ { l with id := 10 })
      Program.request (.publish Setup.context e)
  | cb => behaviour cb

/-- A listener with nothing to do but what all of them do. -/
def echo (id : ObjectId) : Listener Scripted := { id, code := .minimal }

/-- Two listeners are told of an event. -/
def echoes : Program Scripted Memory Unit := do
  let _ ← Program.request (.addListener Setup.context ⟨"first"⟩ (echo 7))
  let _ ← Program.request (.addListener Setup.context ⟨"second"⟩ (echo 8))
  Program.request (.publish Setup.context .closed)

/-- The first listener sends the event again before the second one is told of it. The one that it
registered is told only of the event that was sent after that. -/
theorem echoes_delivered :
    ∃ p, echoing.run 4 echoes (Setup.world {}) = some p ∧
      informedObjects p.2.2 = [7, 7, 8, 9, 8] ∧
      (p.2.1.contexts.get Setup.context).keys.map (·.text) = ["first", "second", "late"] ∧
      ∀ past e listeners told,
        Journal.Occurs (.scope (.publication Setup.context e listeners) told) past p.2.2 →
          listeners = (enroll ∅ (offerings Setup.context past)).values ∧
            List.Forall₂ (Informs e) listeners told := by
  have hreport : (echoing.run 4 echoes (Setup.world {})).map (fun p =>
      (informedObjects p.2.2, (p.2.1.contexts.get Setup.context).keys.map (·.text))) =
      some ([7, 7, 8, 9, 8], ["first", "second", "late"]) := by
    decide +kernel
  obtain ⟨⟨a, w', j⟩, hrun, hpair⟩ := Option.map_eq_some_iff.1 hreport
  obtain ⟨hinformed, hkeys⟩ := Prod.mk.inj hpair
  obtain ⟨-, -, -, -, htold, -, -, -⟩ :=
    snapshot_broadcast echoing 4 echoes Setup.context rfl hrun
  exact ⟨(a, w', j), hrun, hinformed, hkeys, htold⟩

end Scenario

end Startup
