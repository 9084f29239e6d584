import Startup.Proofs.Registry.Installed
import Startup.Proofs.Registry.Resolution

/-!
The history of a chain. A call that asks for an interceptor to be installed is noted as it is made,
and again when it has been carried out. Nothing comes between the two, whoever calls and however
deep in other activities: so the calls of a registry and the installations that became of them are
one list, except that the last call may not be carried out yet.

Main statement: `chain_of_calls`. The chain of a registry is at every moment the list of the
interceptors that it was called to install, with the last call for each object kept, and it makes no
difference whether a list is installed at once or member by member.
-/

namespace Startup

variable {H : Host} {σ : Type}

/-! ## Calls -/

/-- The interceptor that registry `r` is called to install at a moment. -/
def Moment.requested? (r : ObjectId) : Moment H → Option (Extension H)
  | .fact (.installing v e) =>
    if v.registry = r ∧ e.views.interceptor = true then some e else none
  | _ => none

/-- The interceptors that registry `r` is called to install, in the order of the calls. -/
def requests (r : ObjectId) (ms : List (Moment H)) : List (Extension H) :=
  ms.filterMap (Moment.requested? r)

/-- The call that was made last, if nothing has happened since. -/
def pending (r : ObjectId) (ms : List (Moment H)) : List (Extension H) :=
  (ms.getLast?.bind (Moment.requested? r)).toList

theorem pending_cons_cons (r : ObjectId) (m m' : Moment H) (ms : List (Moment H)) :
    pending r (m :: m' :: ms) = pending r (m' :: ms) := by
  rw [pending, pending, List.getLast?_cons_cons]

theorem pending_cons {r : ObjectId} {m : Moment H} (hm : m.requested? r = none)
    (ms : List (Moment H)) : pending r (m :: ms) = pending r ms := by
  cases ms with
  | nil => simp [pending, hm]
  | cons m' ms => exact pending_cons_cons r m m' ms

/-! ## Calls and what becomes of them -/

/-- Every call for an interceptor is followed at once by its installation, and there are no other
installations. -/
inductive Answered (r : ObjectId) : List (Moment H) → Prop
  | nil : Answered r []
  | other {m : Moment H} {ms : List (Moment H)} (hcall : m.requested? r = none)
      (hinstall : m.installed? r = none) (h : Answered r ms) : Answered r (m :: ms)
  | install {v : View} {e : Extension H} {position : Nat} {ms : List (Moment H)}
      (hcall : (Moment.fact (.installing v e)).requested? r = some e)
      (hinstall : (Moment.fact (.installed v.registry e position)).installed? r = some e)
      (h : Answered r ms) :
      Answered r (.fact (.installing v e) :: .fact (.installed v.registry e position) :: ms)

namespace Answered

variable {r : ObjectId} {ms ms' : List (Moment H)}

theorem append (h : Answered r ms) (h' : Answered r ms') : Answered r (ms ++ ms') := by
  induction h with
  | nil => exact h'
  | other hcall hinstall _ ih => exact .other hcall hinstall ih
  | install hcall hinstall _ ih => exact .install hcall hinstall ih

theorem fact {f : Fact H} (hcall : (Moment.fact f).requested? r = none)
    (hinstall : (Moment.fact f).installed? r = none) : Answered r (Journal.moments [.fact f]) :=
  .other hcall hinstall .nil

/-- The beginning and the end of an activity are neither a call nor an installation. -/
theorem scope (s : Scope H) {j : Journal H} (h : Answered r (Journal.moments j)) :
    Answered r (Journal.moments [.scope s j]) := by
  rw [Journal.moments_scope]
  exact .other rfl rfl (h.append (.other rfl rfl .nil))

/-- At every moment all calls but the pending one have been carried out. -/
theorem requests_eq (h : Answered r ms) {past rest : List (Moment H)} (hms : ms = past ++ rest) :
    requests r past = installs r past ++ pending r past := by
  induction h generalizing past with
  | nil =>
    obtain ⟨rfl, -⟩ := List.append_eq_nil_iff.1 hms.symm
    rfl
  | @other m ms hcall hinstall _ ih =>
    cases past with
    | nil => rfl
    | cons m' past =>
      obtain ⟨rfl, hrest⟩ := List.cons.inj hms
      rw [pending_cons hcall, requests, installs, List.filterMap_cons_none hcall,
        List.filterMap_cons_none hinstall]
      exact ih hrest
  | @install v e position ms hcall hinstall _ ih =>
    have hnone : (Moment.fact (.installing v e)).installed? r = none := rfl
    have hdone : (Moment.fact (.installed v.registry e position)).requested? r = none := rfl
    obtain - | ⟨m, - | ⟨m', past⟩⟩ := past
    · rfl
    · obtain ⟨rfl, -⟩ := List.cons.inj hms
      simp only [requests, installs, pending, List.filterMap_cons, List.filterMap_nil,
        List.getLast?_singleton, Option.bind_some, hcall, hnone]
      rfl
    · obtain ⟨rfl, htail⟩ := List.cons.inj hms
      obtain ⟨rfl, hrest⟩ := List.cons.inj htail
      rw [pending_cons_cons, pending_cons hdone, requests, installs,
        List.filterMap_cons_some hcall, List.filterMap_cons_none hdone,
        List.filterMap_cons_none hnone, List.filterMap_cons_some hinstall, List.cons_append]
      exact congrArg (e :: ·) (ih hrest)

/-- In the end no call is left. -/
theorem pending_nil (h : Answered r ms) : pending r ms = [] := by
  induction h with
  | nil => rfl
  | other hcall _ _ ih => rw [pending_cons hcall, ih]
  | install _ _ _ ih =>
    rw [pending_cons_cons, pending_cons rfl, ih]

end Answered

/-! ## Runs -/

/-- In the journal of a finished run every call is answered. -/
def Answers (r : ObjectId) {α : Type} (x : Run H σ α) : Prop :=
  ∀ (w : World H σ) (a : α) (w' : World H σ) (j : Journal H),
    x w = some (a, w', j) → Answered r (Journal.moments j)

namespace Answers

variable {r : ObjectId} {α β : Type}

theorem pure (a : α) : Answers r (Pure.pure a : Run H σ α) := by
  intro w b w' j h
  cases h
  exact .nil

theorem bind {x : Run H σ α} {f : α → Run H σ β} (hx : Answers r x)
    (hf : ∀ a, Answers r (f a)) : Answers r (x >>= f) := by
  intro w b w₂ j h
  obtain ⟨a, w₁, j₁, j₂, h₁, h₂, rfl⟩ := Run.bind_eq_some.1 h
  rw [Journal.moments_append]
  exact (hx w a w₁ j₁ h₁).append (hf a w₁ b w₂ j₂ h₂)

theorem ask (f : World H σ → α) : Answers r (Run.ask f) := by
  intro w a w' j h
  cases h
  exact .nil

theorem fresh : Answers r (Run.fresh : Run H σ ObjectId) := by
  intro w a w' j h
  cases h
  exact .nil

theorem change (f : World H σ → World H σ) : Answers r (Run.change f) := by
  intro w a w' j h
  cases h
  exact .nil

theorem exceeded : Answers r (Run.exceeded : Run H σ α) := by
  intro w a w' j h
  cases h

theorem record {f : Fact H} (hcall : (Moment.fact f).requested? r = none)
    (hinstall : (Moment.fact f).installed? r = none) :
    Answers r (Run.record f : Run H σ Unit) := by
  intro w a w' j h
  cases h
  exact .fact hcall hinstall

theorem within (s : α → Scope H) {x : Run H σ α} (hx : Answers r x) :
    Answers r (Run.within s x) := by
  intro w a w' j h
  obtain ⟨j', h', rfl⟩ := Run.within_eq_some.1 h
  exact .scope (s a) (hx w a w' j' h')

/-! ### Changes of a registry -/

theorem register (r' : ObjectId) (d : Definition H) :
    Answers r (Registry.register r' d : Run H σ _) := by
  intro w a w' j h
  rw [Registry.register_run] at h
  split at h
  · cases h
    exact .nil
  · cases h
    exact .fact rfl rfl

theorem remove (r' : ObjectId) (n : ComponentName) :
    Answers r (Registry.remove r' n : Run H σ _) := by
  intro w a w' j h
  rw [Registry.remove_run] at h
  split at h
  · cases h
    exact .nil
  · cases h
    exact .fact rfl rfl

theorem registerInstance (r' : ObjectId) (n : ComponentName) (i : Instance H) :
    Answers r (Registry.registerInstance r' n i : Run H σ _) := by
  intro w a w' j h
  rw [Registry.registerInstance_run] at h
  split at h
  · cases h
    exact .nil
  · cases h
    exact .fact rfl rfl

/-- A call for an interceptor is carried out at once; a call for anything else is none. -/
theorem install (v : View) (e : Extension H) : Answers r (v.install e : Run H σ Unit) := by
  intro w a w' j h
  rw [View.install_run] at h
  split at h
  · rename_i he
    cases h
    by_cases hr : v.registry = r
    · exact .install (if_pos ⟨hr, he⟩) (if_pos hr) .nil
    · exact .other (if_neg fun h => hr h.1) rfl (.other rfl (if_neg hr) .nil)
  · rename_i he
    cases h
    exact .other (if_neg fun h => he h.2) rfl (.other rfl rfl .nil)

theorem clearCache (v : View) : Answers r (v.clearCache : Run H σ Unit) := by
  intro w a w' j h
  rw [View.clearCache_run] at h
  cases h
  exact .other rfl rfl (.other rfl rfl .nil)

/-! ### The library -/

theorem create {call : Call H σ} {r' : ObjectId} {n : ComponentName} {d : Definition H}
    (hbuild : ∀ chain, Answers r (Creation.build call (.direct r') n d chain).run) :
    Answers r (Creation.create call r' n d).run := by
  intro w a w' j h
  obtain ⟨-, -, -, rfl⟩ | ⟨-, result, w₁, j₁, hrun, -, -, rfl⟩ := Creation.create_eq_some call h
  · exact .nil
  · exact .scope _ (hbuild _ _ _ _ _ hrun)

theorem resolve {call : Call H σ} (v : View) (n : ComponentName)
    (hbuild : ∀ d chain, Answers r (Creation.build call (.direct v.registry) n d chain).run) :
    Answers r (v.resolve call n).run := by
  intro w a w' j h
  obtain ⟨i, -, -, -, rfl⟩ | ⟨-, ⟨-, -, -, rfl⟩ | ⟨d, j', -, hcreate, rfl⟩⟩ :=
    View.resolve_eq_some call h
  · exact .scope _ .nil
  · exact .scope _ .nil
  · exact .scope _ (create (hbuild d) _ _ _ _ hcreate)

theorem apart : Apart (· = ·) fun {α} (x _ : Run H σ α) => Answers r x where
  alike := .of_eq
  pure := pure
  bind := bind
  ask f _ := ask f
  fresh := fresh
  remember _ := change _
  record f hf := by
    refine record ?_ ?_ <;> cases f <;> first | rfl | exact hf.elim
  within s _ _ _ hx := within s hx
  setContext _ _ := change _
  setChecker _ _ := change _
  setDetector _ _ := change _

/-- In the course of a program every call is answered. -/
theorem program (b : Behaviour H σ) (depth : Nat) (x : Program H σ α) :
    Answers r (b.run depth x) := by
  have hclosed : ∀ call : Call H σ, (∀ cb, Answers r (call cb)) →
      Closed call fun {α} (x : Run H σ α) => Answers r x := fun call hcall =>
    apart.lockstep register remove registerInstance install clearCache
      (fun v n h => resolve v n h) hcall
  exact (b.closed (fun _ => exceeded) hclosed depth).program (fun _ => exceeded) depth x

end Answers

/-! ## Lists that are installed at once -/

/-- The note of a call to install what is no interceptor. -/
def Event.isVain : Event H → Bool
  | .fact (.installing _ e) => !e.views.interceptor
  | _ => false

theorem Event.isVain_installing (v : View) (e : Extension H) :
    (Event.fact (.installing v e)).isVain = !e.views.interceptor := rfl

theorem requests_cons (r : ObjectId) (x : Event H) (j : Journal H) :
    requests r (Journal.moments (x :: j)) =
      requests r (Event.moments x) ++ requests r (Journal.moments j) :=
  List.filterMap_append

/-- A vain call is no request. -/
theorem requests_of_vain (r : ObjectId) {x : Event H} (hx : x.isVain = true) :
    requests r (Event.moments x) = [] := by
  unfold Event.isVain at hx
  split at hx
  · refine List.filterMap_cons_none (if_neg fun h => ?_)
    rw [h.2] at hx
    cases hx
  · cases hx

theorem requests_filter_vain (r : ObjectId) (j : Journal H) :
    requests r (Journal.moments (j.filter fun x => !x.isVain)) =
      requests r (Journal.moments j) := by
  induction j with
  | nil => rfl
  | cons x rest ih =>
    rw [requests_cons, ← ih]
    cases hx : x.isVain with
    | true => rw [List.filter_cons_of_neg (by simp [hx]), requests_of_vain r hx, List.nil_append]
    | false => rw [List.filter_cons_of_pos (by simp [hx]), requests_cons]

/-- Install extensions one after the other, each by a call of its own. -/
def Program.installEach (v : View) : List (Extension H) → Program H σ Unit
  | [] => .pure ()
  | e :: rest => .ask (.install v e) fun _ => installEach v rest

/-- A call to install one extension: two notes, of which the second one is that of what came of
it. -/
theorem View.install_noted (v : View) (e : Extension H) (w : World H σ) :
    ∃ w' f, v.install e w = some ((), w', [.fact (.installing v e), .fact f]) ∧
      (Event.fact f).isVain = false ∧ (∀ r, (Moment.fact f).requested? r = none) ∧
      (e.views.interceptor = false → w' = w ∧ f = .notInterceptor e) := by
  rw [install_run]
  split
  · rename_i he
    exact ⟨_, _, rfl, rfl, fun _ => rfl, fun h => by rw [he] at h; cases h⟩
  · exact ⟨_, _, rfl, rfl, fun _ => rfl, fun _ => ⟨rfl, rfl⟩⟩

/-- Installed at once or member by member, a list leads to the same world. Only the vain calls for
members that are no interceptors are spared. -/
theorem View.installAll_each (b : Behaviour H σ) (depth : Nat) (v : View)
    (es : List (Extension H)) (w : World H σ) :
    ∃ w' k, b.run depth (Program.installEach v es) w = some ((), w', k) ∧
      v.installAll es w = some ((), w', k.filter fun x => !x.isVain) ∧
      ∀ r, requests r (Journal.moments k) =
        if v.registry = r then es.filter (·.views.interceptor) else [] := by
  induction es generalizing w with
  | nil => exact ⟨w, [], rfl, rfl, fun r => (ite_self _).symm⟩
  | cons e rest ih =>
    obtain ⟨w₁, f, hinstall, hvain, hdone, hnone⟩ := v.install_noted e w
    obtain ⟨w', k, hmembers, hall, hrequests⟩ := ih w₁
    refine ⟨w', .fact (.installing v e) :: .fact f :: k, ?_, ?_, fun r => ?_⟩
    · exact Run.bind_eq_some.2 ⟨(), w₁, _, k, hinstall, hmembers, rfl⟩
    · rw [View.installAll]
      cases he : e.views.interceptor with
      | true =>
        simp only [if_true]
        refine Run.bind_eq_some.2 ⟨(), w₁, _, _, hinstall, hall, ?_⟩
        simp [Event.isVain_installing, he, hvain]
      | false =>
        obtain ⟨rfl, rfl⟩ := hnone he
        refine Run.bind_eq_some.2 ⟨(), w₁, _, _, rfl, hall, ?_⟩
        simp [Event.isVain_installing, he, hvain]
    · have hsecond : requests r (Event.moments (.fact f)) = [] :=
        List.filterMap_cons_none (hdone r)
      rw [requests_cons, requests_cons, hsecond, List.nil_append, hrequests r]
      have hfirst : requests r (Event.moments (.fact (.installing v e))) =
          if v.registry = r then [e].filter (·.views.interceptor) else [] := by
        show List.filterMap _ [_] = _
        rw [List.filterMap_cons, Moment.requested?]
        cases he : e.views.interceptor <;> by_cases hr : v.registry = r <;> simp [he, hr]
      rw [hfirst]
      split
      · rw [← List.filter_append]
        rfl
      · rfl

/-! ## The chain -/

/-- The chain of a registry that had none when a run began. At every moment of the run, also in the
middle of any callback, it is the list of the interceptors that the registry was called to install,
in the order of the calls, with the last call for each object kept. (A call that has just been made
is carried out at the next moment.) So it never holds an object twice, nor what is no interceptor;
the number of its members is the number of objects that were installed so far, and it never
decreases. And whenever a list is installed at once, the same calls are made and the same world is
reached as if it were installed member by member; only the vain calls are spared. -/
theorem chain_of_calls {α : Type} (b : Behaviour H σ) (depth : Nat) (x : Program H σ α)
    (r : ObjectId) {w w' : World H σ} {a : α} {j : Journal H}
    (hnew : (w.registries.get r).interceptors = []) (hrun : b.run depth x w = some (a, w', j)) :
    let chain := fun past => ((Ledger.of (w.registries.get r)).after r past).registry.interceptors
    (chain (Journal.moments j) = (w'.registries.get r).interceptors ∧
      requests r (Journal.moments j) = installs r (Journal.moments j)) ∧
    (∀ past rest, Journal.moments j = past ++ rest →
      requests r past = installs r past ++ pending r past ∧
      chain past = keepLast (installs r past) ∧
      Distinct (chain past) ∧ (∀ e ∈ chain past, e.views.interceptor = true) ∧
      (∀ (v : View) (u : World H σ), v.registry = r →
        (u.registries.get r).interceptors = chain past →
          v.interceptorCount u = some (((installs r past).map (·.id)).dedup.length, u, [])) ∧
      ∀ more rest', rest = more ++ rest' → (chain past).length ≤ (chain (past ++ more)).length) ∧
    ∀ (v : View) (es : List (Extension H)) (u : World H σ), ∃ u' k,
      b.run depth (Program.installEach v es) u = some ((), u', k) ∧
      b.run depth (Program.request (.installAll v es)) u =
        some ((), u', k.filter fun x => !x.isVain) ∧
      ∀ r', requests r' (Journal.moments k) =
          (if v.registry = r' then es.filter (·.views.interceptor) else []) ∧
        requests r' (Journal.moments (k.filter fun x => !x.isVain)) =
          requests r' (Journal.moments k) := by
  intro chain
  obtain ⟨hlaw, hregistry, -⟩ := Ledger.of_run b depth x r hrun
  have hanswered := Answers.program (r := r) b depth x w a w' j hrun
  refine ⟨⟨by simp only [chain, hregistry], ?_⟩, fun past rest hsplit => ?_, fun v es u => ?_⟩
  · have hall := hanswered.requests_eq (List.append_nil _).symm
    rwa [hanswered.pending_nil, List.append_nil] at hall
  · rw [hsplit] at hlaw
    have hempty : ∀ {ms}, (Ledger.of (w.registries.get r)).Lawful r ms →
        chain ms = keepLast (installs r ms) := by
      intro ms hms
      have hchain := hms.chain (by rw [Ledger.of, hnew]; exact List.Pairwise.nil)
      rwa [Ledger.of, hnew, List.nil_append] at hchain
    have hpast := (Ledger.lawful_append.1 hlaw).1
    have hchain := hempty hpast
    refine ⟨hanswered.requests_eq hsplit, hchain, ?_, ?_, fun v u hv hu => ?_,
      fun more rest' hrest => ?_⟩
    · rw [hchain]
      exact distinct_keepLast _
    · have hnone : (Ledger.of (w.registries.get r)).registry.Intercepting := by
        intro e he
        rw [Ledger.of, hnew] at he
        cases he
      exact hpast.intercepting hnone
    · subst hv
      rw [← length_keepLast, ← hchain, ← hu]
      rfl
    · rw [hrest, ← List.append_assoc] at hlaw
      rw [hchain, hempty (Ledger.lawful_append.1 hlaw).1, installs_append]
      exact length_keepLast_le _ _
  · obtain ⟨u', k, heach, hall, hrequests⟩ := View.installAll_each b depth v es u
    refine ⟨u', k, heach, ?_, fun r' => ⟨hrequests r', requests_filter_vain r' k⟩⟩
    exact Run.bind_eq_some.2 ⟨(), u', _, [], hall, rfl, (List.append_nil _).symm⟩

/-! ### Two interceptors of one name -/

namespace Scenario

/-- Install two interceptors of one name, together with an extension that is none and with the first
one again. Then create a component under another interceptor that moves the first one to the end. -/
def installTwins : Program Scripted Memory (Except Failure Answer) := do
  let perform := fun op => (Act.perform (.direct Setup.base) op).run
  let _ ← perform (.make (interceptor "twin" []))
  let _ ← perform (.make (interceptor "twin" []))
  let _ ← perform (.make (.minimal "aware" { mergeAware := true }))
  let _ ← perform (.installAll [.handle 0, .handle 1, .handle 2, .handle 0])
  let again := Step.mk {} (.perform .quiet (.install (.handle 0)))
  let _ ← perform (.install (.made (interceptor "mover" [again])))
  let _ ← perform (.register (labelled "it" []))
  perform (.resolve "a")

/-- One twin was installed three times, the last time from within a callback, and stands at the
end of the chain. -/
theorem installTwins_chain :
    ∃ p, behaviour.run 3 installTwins (Setup.world {}) = some p ∧
      (requests Setup.base (Journal.moments p.2.2)).map (·.name) =
        ["twin", "twin", "twin", "mover", "twin"] ∧
      chainNames p.2.1 = ["twin", "mover", "twin"] ∧
      (p.2.1.registries.get Setup.base).interceptors =
        keepLast (requests Setup.base (Journal.moments p.2.2)) := by
  have hevaluated : (behaviour.run 3 installTwins (Setup.world {})).map (fun p =>
      ((requests Setup.base (Journal.moments p.2.2)).map (·.name), chainNames p.2.1)) =
        some (["twin", "twin", "twin", "mover", "twin"], ["twin", "mover", "twin"]) := by
    decide +kernel
  obtain ⟨⟨a, w', j⟩, hrun, heq⟩ := Option.map_eq_some_iff.1 hevaluated
  obtain ⟨hrequests, hnames⟩ := Prod.mk.inj heq
  obtain ⟨⟨hend, hall⟩, hchain, -⟩ :=
    chain_of_calls behaviour 3 installTwins Setup.base rfl hrun
  obtain ⟨-, hkept, -⟩ := hchain (Journal.moments j) [] (List.append_nil _).symm
  refine ⟨(a, w', j), hrun, hrequests, hnames, ?_⟩
  show (w'.registries.get Setup.base).interceptors = _
  rw [← hend, hkept, hall]

end Scenario

end Startup
