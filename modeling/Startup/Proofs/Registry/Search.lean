import Mathlib.Data.List.Perm.Subperm
import Startup.Proofs.Registry.Coherent
import Startup.Proofs.Registry.Identity
import Startup.Proofs.Registry.Wiring

/-!
Resolution as a search of the dependency graph. To create a component is to visit the names that it
depends on, depth first: the stack of creations is the way that led there, a name that is on it
closes a cycle, and the singletons are names that need not be visited again. Other components are
visited again and again.

Main statements: `resolution_decides`. Without interceptors, and if each factory does no more than
resolve its dependencies, a resolution ends; it succeeds just when everything that is reached is
known and nothing of it is circular, and otherwise it tells of a name where that is not so. And
`resolution_settles_from`, which also says what is added to the singletons.
-/

namespace Startup

open Relation (ReflTransGen TransGen)

variable {H : Host} {σ : Type}

namespace Registry

/-! ## The registry during a search -/

/-- A registry `t` in the middle of a search that began in `s`, inside of the creations in
`stack`. -/
structure Searching (s : Registry H) (deps : ComponentName → List ComponentName)
    (stack : List ComponentName) (t : Registry H) : Prop where
  definitions : t.definitions = s.definitions
  coherent : t.Coherent
  unobserved : t.interceptors = []
  stack_eq : t.inCreation = stack
  nodup : stack.Nodup
  defined : ∀ n ∈ stack, s.definitions.contains n = true
  /-- What was there stays there. -/
  kept : ∀ n, t.singletons.get? n = none → s.singletons.get? n = none
  /-- What is there can be relied on. -/
  grounded : ∀ n i, t.singletons.get? n = some i → s.Grounded deps n
  /-- With a singleton everything is there that it demands. -/
  complete : ∀ n, t.singletons.contains n = true → ∀ m, s.Demands deps n m →
    t.singletons.contains m = true

variable {s t : Registry H} {deps : ComponentName → List ComponentName}
  {stack : List ComponentName} {n : ComponentName}

theorem Searching.start (hunobserved : s.interceptors = []) (hidle : s.inCreation = [])
    (hcoherent : s.Coherent) : s.Searching deps [] s where
  definitions := rfl
  coherent := hcoherent
  unobserved := hunobserved
  stack_eq := hidle
  nodup := List.nodup_nil
  defined := by simp
  kept _ := id
  grounded _ _ := Grounded.of_singleton
  complete n hn m hm := by
    obtain ⟨i, hi⟩ := Option.isSome_iff_exists.1 hn
    rwa [reached_of_singleton hi hm.1]

theorem Searching.lookup (h : s.Searching deps stack t) (n : ComponentName) :
    s.Searching deps stack (t.lookup n).2 where
  definitions := by rw [lookup_eq, h.definitions]
  coherent := h.coherent.after_lookup n
  unobserved := by rw [interceptors_lookup, h.unobserved]
  stack_eq := by rw [inCreation_lookup, h.stack_eq]
  nodup := h.nodup
  defined := h.defined
  kept k hk := h.kept k (by rwa [singletons_lookup] at hk)
  grounded k i hi := h.grounded k i (by rwa [singletons_lookup] at hi)
  complete := by
    rw [singletons_lookup]
    exact h.complete

theorem Searching.begin (h : s.Searching deps stack t) (hn : n ∉ stack)
    (hd : s.definitions.contains n = true) :
    s.Searching deps (stack ++ [n]) (t.beginCreation n) where
  definitions := h.definitions
  coherent := h.coherent
  unobserved := h.unobserved
  stack_eq := by rw [beginCreation, h.stack_eq]
  nodup := by
    rw [List.nodup_append]
    refine ⟨h.nodup, by simp, fun a ha b hb => ?_⟩
    rw [List.mem_singleton.1 hb]
    rintro rfl
    exact hn ha
  defined k hk := by
    rcases List.mem_append.1 hk with hold | hnew
    · exact h.defined k hold
    · rw [List.mem_singleton.1 hnew]
      exact hd
  kept := h.kept
  grounded := h.grounded
  complete := h.complete

/-- When a creation ends, its component may be kept, which then has to be grounded, and what its
dependencies demand has to be there. -/
theorem Searching.conclude (h : s.Searching deps (stack ++ [n]) t) {d : Definition H}
    {a : Except DependencyError (Instance H)} (hgrounded : ∀ i, a = .ok i → s.Grounded deps n)
    (hcomplete : ∀ i, a = .ok i → ∀ k ∈ deps n, ∀ m, s.Demands deps k m →
      t.singletons.contains m = true) :
    s.Searching deps stack (t.conclude n d a).2 := by
  obtain ⟨hnodup, -, hnew⟩ := List.nodup_append.1 h.nodup
  have hn : n ∉ stack := fun hmem => hnew n hmem n (List.mem_singleton_self n) rfl
  constructor
  · rw [definitions_conclude, h.definitions]
  · rw [conclude_eq]
    exact h.coherent
  · rw [interceptors_conclude, h.unobserved]
  · rw [inCreation_conclude, h.stack_eq]
    exact filter_snoc hn
  · exact hnodup
  · exact fun k hk => h.defined k (List.mem_append_left _ hk)
  · intro k hk
    rcases get?_conclude t n k d a with hsame | ⟨-, -, -, i, -, hi⟩
    · exact h.kept k (hsame.symm.trans hk)
    · rw [hk] at hi
      cases hi
  · intro k i hi
    rcases get?_conclude t n k d a with hsame | ⟨-, rfl, -, i', hok, -⟩
    · exact h.grounded k i (hsame.symm.trans hi)
    · exact hgrounded i' hok
  · intro k hk m hm
    rw [contains_conclude] at hk ⊢
    obtain hold | ⟨⟨i, hok⟩, hd, rfl⟩ := hk
    · exact .inl (h.complete k hold m hm)
    · obtain rfl | ⟨k', hk', hm'⟩ := hm.cases
      · exact .inr ⟨⟨i, hok⟩, hd, rfl⟩
      · exact .inl (hcomplete i hok k' hk' m hm')

/-- As long as there is a component to create, not all definitions are on the stack. -/
theorem Searching.length_lt (h : s.Searching deps stack t) (hn : n ∉ stack) {d : Definition H}
    (hd : s.definitions.get? n = some d) : stack.length < s.definitions.size := by
  have hnext := h.begin hn (OrderedMap.contains_of_some hd)
  have hsub : stack ++ [n] ⊆ s.definitions.keys := by
    intro k hk
    exact (s.definitions.mem_keys_iff k).2 (hnext.defined k hk)
  have hlength := (hnext.nodup.subperm hsub).length_le
  rw [List.length_append, List.length_singleton, OrderedMap.keys, List.length_map] at hlength
  exact hlength

/-! ## The singletons during a search -/

/-- More singletons than before, but nothing that is not demanded by one of `names`. -/
structure Grows (s : Registry H) (deps : ComponentName → List ComponentName)
    (names : List ComponentName) (before after : OrderedMap ComponentName (Instance H)) : Prop where
  kept : ∀ n, before.contains n = true → after.contains n = true
  demanded : ∀ n, after.contains n = true →
    before.contains n = true ∨ ∃ m ∈ names, s.Demands deps m n

variable {names : List ComponentName} {m m₁ m₂ : OrderedMap ComponentName (Instance H)}

theorem Grows.refl : s.Grows deps names m m where
  kept _ := id
  demanded _ := .inl

/-- A name, and then the others. -/
theorem Grows.cons (hn : s.Grows deps [n] m m₁) (h : s.Grows deps names m₁ m₂) :
    s.Grows deps (n :: names) m m₂ where
  kept k hk := h.kept k (hn.kept k hk)
  demanded k hk := by
    obtain hold | ⟨l, hl, hlk⟩ := h.demanded k hk
    · obtain hold | ⟨l, hl, hlk⟩ := hn.demanded k hold
      · exact .inl hold
      · rw [List.mem_singleton.1 hl] at hlk
        exact .inr ⟨n, List.mem_cons_self, hlk⟩
    · exact .inr ⟨l, List.mem_cons_of_mem n hl, hlk⟩

/-- What its dependencies demand is demanded by a component, and so is the component itself if it is
a singleton. -/
theorem Grows.conclude (h : s.Grows deps (deps n) m t.singletons) {d : Definition H}
    (hnone : s.singletons.get? n = none) (hd : s.definitions.get? n = some d)
    (a : Except DependencyError (Instance H)) :
    s.Grows deps [n] m (t.conclude n d a).2.singletons where
  kept k hk := contains_conclude.2 (.inl (h.kept k hk))
  demanded k hk := by
    obtain hold | ⟨-, hsingle, rfl⟩ := contains_conclude.1 hk
    · obtain hold | ⟨l, hl, hlk⟩ := h.demanded k hold
      · exact .inl hold
      · have hdepends : s.DependsOn deps n l := ⟨hnone, OrderedMap.contains_of_some hd, hl⟩
        exact .inr ⟨n, List.mem_singleton_self n, hlk.through hdepends⟩
    · exact .inr ⟨k, List.mem_singleton_self k, .refl, d, hd, hsingle⟩

end Registry

/-! ## Programs and resolutions during a search -/

section Search

variable (r : ObjectId) (s : Registry H) (deps : ComponentName → List ComponentName)
  (stack : List ComponentName)

/-- How a resolution of `n` ends: it succeeds, all is well below `n`, and the singletons are there
that `n` demands; or it fails, and the error says where all is not well. -/
structure Resolved (n : ComponentName) (a : Except DependencyError (Instance H))
    (w : World H σ) : Prop where
  searching : s.Searching deps stack (w.registries.get r)
  grounded : ∀ i, a = .ok i → s.Grounded deps n
  complete : ∀ i, a = .ok i → ∀ m, s.Demands deps n m →
    (w.registries.get r).singletons.contains m = true
  blames : ∀ e, a = .error e → s.Blames deps stack n e

/-- How it ends, and what has been added to the singletons that were there. -/
structure ResolvedFrom (old : OrderedMap ComponentName (Instance H)) (n : ComponentName)
    (a : Except DependencyError (Instance H)) (w : World H σ) : Prop
    extends Resolved r s deps stack n a w where
  grows : s.Grows deps [n] old (w.registries.get r).singletons

/-- How a program ends that resolves some names. -/
structure WiredFrom {α : Type} (old : OrderedMap ComponentName (Instance H))
    (names : List ComponentName) (a : Except Failure α) (w : World H σ) : Prop where
  searching : s.Searching deps stack (w.registries.get r)
  grounded : ∀ x, a = .ok x → ∀ n ∈ names, s.Grounded deps n
  complete : ∀ x, a = .ok x → ∀ n ∈ names, ∀ m, s.Demands deps n m →
    (w.registries.get r).singletons.contains m = true
  blames : ∀ f, a = .error f →
    ∃ n ∈ names, ∃ e, f = .dependency e ∧ s.Blames deps stack n e
  grows : s.Grows deps names old (w.registries.get r).singletons

variable {r s deps stack} {b : Behaviour H σ} {k : Nat}
  {old : OrderedMap ComponentName (Instance H)}

theorem ResolvedFrom.of_ok {n : ComponentName} {i : Instance H} {w : World H σ}
    (hw : s.Searching deps stack (w.registries.get r)) (hn : s.Grounded deps n)
    (hcomplete : ∀ m, s.Demands deps n m → (w.registries.get r).singletons.contains m = true)
    (hgrows : s.Grows deps [n] old (w.registries.get r).singletons) :
    ResolvedFrom r s deps stack old n (.ok i) w where
  searching := hw
  grounded _ _ := hn
  complete _ _ := hcomplete
  blames e he := by cases he
  grows := hgrows

theorem ResolvedFrom.of_error {n : ComponentName} {e : DependencyError} {w : World H σ}
    (hw : s.Searching deps stack (w.registries.get r)) (he : s.Blames deps stack n e)
    (hgrows : s.Grows deps [n] old (w.registries.get r).singletons) :
    ResolvedFrom r s deps stack old n (.error e) w where
  searching := hw
  grounded i hi := by cases hi
  complete i hi := by cases hi
  blames e' he' := by
    cases he'
    exact he
  grows := hgrows

theorem WiredFrom.nil {α : Type} {a : α} {w : World H σ}
    (hw : s.Searching deps stack (w.registries.get r)) :
    WiredFrom r s deps stack (w.registries.get r).singletons [] (.ok a) w where
  searching := hw
  grounded _ _ := List.forall_mem_nil _
  complete _ _ := List.forall_mem_nil _
  blames f hf := by cases hf
  grows := .refl

/-- The first name that fails ends the program. -/
theorem WiredFrom.of_error {α : Type} {n : ComponentName} {names : List ComponentName}
    {e : DependencyError} {w : World H σ} (h : ResolvedFrom r s deps stack old n (.error e) w) :
    WiredFrom r s deps stack old (n :: names)
      (Except.error (.dependency e) : Except Failure α) w where
  searching := h.searching
  grounded x hx := by cases hx
  complete x hx := by cases hx
  blames f hf := by
    cases hf
    exact ⟨n, List.mem_cons_self, e, rfl, h.blames e rfl⟩
  grows := h.grows.cons .refl

/-- One name more, in front of those that are resolved afterwards. -/
theorem WiredFrom.cons {α : Type} {n : ComponentName} {names : List ComponentName}
    {i : Instance H} {a : Except Failure α} {w w' : World H σ}
    (hn : ResolvedFrom r s deps stack old n (.ok i) w)
    (h : WiredFrom r s deps stack (w.registries.get r).singletons names a w') :
    WiredFrom r s deps stack old (n :: names) a w' where
  searching := h.searching
  grounded x hx := List.forall_mem_cons.2 ⟨hn.grounded i rfl, h.grounded x hx⟩
  complete x hx := by
    refine List.forall_mem_cons.2 ⟨fun m hm => ?_, h.complete x hx⟩
    exact h.grows.kept m (hn.complete i rfl m hm)
  blames f hf := by
    obtain ⟨m, hm, hblames⟩ := h.blames f hf
    exact ⟨m, List.mem_cons_of_mem n hm, hblames⟩
  grows := hn.grows.cons h.grows

/-- If resolutions settle, so does a program that resolves some names. -/
theorem Program.Wires.settles {α : Type} {names : List ComponentName}
    {x : Program H σ (Except Failure α)} (hx : x.Wires r names)
    (hresolve : ∀ (v : View) (n : ComponentName) (w : World H σ), v.registry = r →
      s.Searching deps stack (w.registries.get r) →
        Settles k (fun depth => (v.resolve (b.call depth) n).run) w
          (ResolvedFrom r s deps stack (w.registries.get r).singletons n))
    {w : World H σ} (hw : s.Searching deps stack (w.registries.get r)) :
    Settles k (fun depth => b.run depth x) w
      (WiredFrom r s deps stack (w.registries.get r).singletons names) := by
  induction hx generalizing w with
  | done a => exact Settles.pure (.nil hw)
  | aside hq _ ih =>
    refine (Settles.aside hq w).ask fun a w' hw' => ?_
    rw [← hw'] at hw ⊢
    exact ih a hw
  | @resolve n names v next hv _ herror ih =>
    refine (hresolve v n w hv hw).ask fun a w' hw' => ?_
    cases a with
    | ok i => exact (ih i hw'.searching).mono fun a w'' hw'' => .cons hw' hw''
    | error e =>
      rw [herror]
      exact Settles.pure (.of_error hw')

/-- One creation: it settles if its factory does, which resolves what the component depends on. -/
theorem creation_settles {n : ComponentName} {d : Definition H} {w : World H σ}
    (hw : s.Searching deps stack (w.registries.get r)) (hn : n ∉ stack)
    (hnone : s.singletons.get? n = none) (hd : s.definitions.get? n = some d)
    (hfactory : ∀ w', s.Searching deps (stack ++ [n]) (w'.registries.get r) →
      Settles k (fun depth => b.call depth (.create d (.direct r))) w'
        (WiredFrom r s deps (stack ++ [n]) (w'.registries.get r).singletons (deps n))) :
    Settles k (fun depth => (Creation.create (b.call depth) r n d).run) w
      (ResolvedFrom r s deps stack (w.registries.get r).singletons n) := by
  have hin : n ∉ (w.registries.get r).inCreation := by
    rw [hw.stack_eq]
    exact hn
  have hdefined : s.definitions.contains n = true := OrderedMap.contains_of_some hd
  have hbegin : s.Searching deps (stack ++ [n])
      ((w.setRegistry r ((w.registries.get r).beginCreation n)).registries.get r) := by
    rw [World.get_setRegistry_self]
    exact hw.begin hn hdefined
  have hcreated := hfactory _ hbegin
  rw [World.get_setRegistry_self] at hcreated
  refine Settles.create hin ?_
  rw [hw.unobserved]
  refine Settles.build _ (hcreated.mono fun a w' hw' => ?_)
  cases a with
  | ok i =>
    have hgrounded : s.Grounded deps n :=
      .of_dependencies (.inr hdefined) fun m hm => hw'.grounded i rfl m hm.2.2
    constructor
    · constructor
      · rw [World.get_setRegistry_self]
        exact hw'.searching.conclude (fun _ _ => hgrounded) fun _ _ => hw'.complete i rfl
      · exact fun _ _ => hgrounded
      · intro j hj m hm
        rw [World.get_setRegistry_self, Registry.contains_conclude]
        obtain rfl | ⟨l, hl, hlm⟩ := hm.cases
        · obtain ⟨d', hd', hsingle⟩ := hm.2
          rw [hd] at hd'
          cases hd'
          exact .inr ⟨⟨i, rfl⟩, hsingle, rfl⟩
        · exact .inl (hw'.complete i rfl l hl m hlm)
      · intro e he
        cases Registry.conclude_eq_error.1 he
    · rw [World.get_setRegistry_self]
      exact hw'.grows.conclude hnone hd _
  | error f =>
    obtain ⟨m, hm, e, rfl, hblames⟩ := hw'.blames f rfl
    refine .of_error ?_ (hblames.through ⟨hnone, hdefined, hm⟩) ?_
    · rw [World.get_setRegistry_self]
      exact hw'.searching.conclude (fun i hi => by cases hi) fun i hi => by cases hi
    · rw [World.get_setRegistry_self]
      exact hw'.grows.conclude hnone hd _

/-- One resolution: it settles if the factory does that it may have to call. -/
theorem resolution_of_creation {v : View} {n : ComponentName} {w : World H σ}
    (hv : v.registry = r) (hw : s.Searching deps stack (w.registries.get r))
    (hfactory : ∀ d, n ∉ stack → s.definitions.get? n = some d → ∀ w',
      s.Searching deps (stack ++ [n]) (w'.registries.get r) →
        Settles k (fun depth => b.call depth (.create d (.direct r))) w'
          (WiredFrom r s deps (stack ++ [n]) (w'.registries.get r).singletons (deps n))) :
    Settles k (fun depth => (v.resolve (b.call depth) n).run) w
      (ResolvedFrom r s deps stack (w.registries.get r).singletons n) := by
  subst hv
  have hlook : ((w.registries.get v.registry).lookup n).1 = s.definitions.get? n := by
    rw [hw.coherent.lookup, hw.definitions]
  refine Settles.resolve rfl (fun i hi => ?_) (fun hnone hd => ?_) fun d hnone hd => ?_
  · exact .of_ok hw (hw.grounded n i hi) (hw.complete n (OrderedMap.contains_of_some hi)) .refl
  · refine .of_error hw (.unknown n .refl ?_ rfl) .refl
    rw [hlook] at hd
    simp [Registry.Known, OrderedMap.contains, hw.kept n hnone, hd]
  · have hlooked : s.Searching deps stack ((w.setRegistry v.registry
        ((w.registries.get v.registry).lookup n).2).registries.get v.registry) := by
      rw [World.get_setRegistry_self]
      exact hw.lookup n
    have hsame : (w.registries.get v.registry).singletons = ((w.setRegistry v.registry
        ((w.registries.get v.registry).lookup n).2).registries.get v.registry).singletons := by
      rw [World.get_setRegistry_self, Registry.singletons_lookup]
    rw [hlook] at hd
    rw [hsame]
    by_cases hn : n ∈ stack
    · -- the way has come back to a component in creation
      have hin := hn
      rw [← hlooked.stack_eq] at hin
      refine ⟨_, _, [], fun _ _ => Creation.create_refused _ hin, .of_error hlooked ?_ .refl⟩
      rw [hlooked.stack_eq]
      exact .circular [] stack n (.singleton n) rfl hn rfl
    · exact creation_settles hlooked hn (hw.kept n hnone) hd (hfactory d hn hd)

/-- Every resolution settles in a depth for which there are definitions left that are not being
created. -/
theorem resolution_settles_from
    (hwires : ∀ n d, s.definitions.get? n = some d →
      Program.Wires r (deps n) (b (.create d (.direct r))))
    {v : View} {n : ComponentName} {w : World H σ} (hv : v.registry = r)
    (hw : s.Searching deps stack (w.registries.get r))
    (hk : s.definitions.size ≤ stack.length + k) :
    Settles k (fun depth => (v.resolve (b.call depth) n).run) w
      (ResolvedFrom r s deps stack (w.registries.get r).singletons n) := by
  induction k generalizing stack v n w with
  | zero =>
    refine resolution_of_creation hv hw fun d hn hd => ?_
    have hlt := hw.length_lt hn hd
    omega
  | succ k ih =>
    refine resolution_of_creation hv hw fun d hn hd w' hw' => Settles.call ?_
    refine (hwires n d hd).settles (fun u m w'' hu hw'' => ih hu hw'' ?_) hw'
    rw [List.length_append, List.length_singleton]
    omega

theorem resolution_settles
    (hwires : ∀ n d, s.definitions.get? n = some d →
      Program.Wires r (deps n) (b (.create d (.direct r))))
    {v : View} {n : ComponentName} {w : World H σ} (hv : v.registry = r)
    (hw : s.Searching deps stack (w.registries.get r))
    (hk : s.definitions.size ≤ stack.length + k) :
    Settles k (fun depth => (v.resolve (b.call depth) n).run) w (Resolved r s deps stack n) :=
  (resolution_settles_from hwires hv hw hk).mono fun _ _ h => h.toResolved

end Search

/-! ## Resolutions from outside -/

/-- A resolution in a registry without interceptors in which nothing is being created, if the
factory of every definition resolves a list of names and does nothing else. (A registry that was
empty once is coherent at every moment since: `Coherent.of_run`.) It ends, however deep the
definitions are nested, in the same way whatever depth is given beyond their number. It succeeds
just when every name that is reached is known and none of them is reached from itself; singletons
are not looked behind. If it fails, the innermost error tells of a name that is reached and not
known, or of a walk along the dependencies that begins with the name that was asked for and comes
back to a name on it. -/
theorem resolution_decides (b : Behaviour H σ) (r : ObjectId)
    (deps : ComponentName → List ComponentName) {w : World H σ}
    (hunobserved : (w.registries.get r).interceptors = [])
    (hidle : (w.registries.get r).inCreation = []) (hcoherent : (w.registries.get r).Coherent)
    (hwires : ∀ n d, (w.registries.get r).definitions.get? n = some d →
      Program.Wires r (deps n) (b (.create d (.direct r))))
    (v : View) (hv : v.registry = r) (n : ComponentName) :
    let s := w.registries.get r
    let Reaches := ReflTransGen (s.DependsOn deps)
    ∃ a w' j,
      (∀ depth, s.definitions.size ≤ depth →
        b.run depth (Program.request (.resolve v n)) w = some (a, w', j)) ∧
      ((∃ i, a = .ok i) ↔
        (∀ m, Reaches n m → s.Known m) ∧
          ∀ m, Reaches n m → ¬ TransGen (s.DependsOn deps) m m) ∧
      ∀ e, a = .error e →
        (∃ m, Reaches n m ∧ ¬ s.Known m ∧
          e.innermost = .dependency (.notRegistered m.text)) ∨
        ∃ walk way last, walk.head? = some n ∧ walk.IsChain (s.DependsOn deps) ∧
          walk = way ++ [last] ∧ last ∈ way ∧
          e.innermost = .dependency (.circular (Creation.cycleText walk)) := by
  intro s Reaches
  have hstart : s.Searching deps [] (w.registries.get r) := .start hunobserved hidle hcoherent
  have hsettles : Settles s.definitions.size (fun depth => (v.resolve (b.call depth) n).run) w
      (Resolved r s deps [] n) := resolution_settles hwires hv hstart (Nat.le_add_left _ _)
  have hrequest : Settles s.definitions.size
      (fun depth => b.run depth (Program.request (.resolve v n))) w (Resolved r s deps [] n) :=
    Settles.ask (q := .resolve v n) hsettles fun a w' hw' => Settles.pure hw'
  obtain ⟨a, w', j, hrun, hresolved⟩ := hrequest
  refine ⟨a, w', j, hrun, ⟨?_, ?_⟩, ?_⟩
  · rintro ⟨i, hi⟩
    obtain ⟨hknown, hacyclic⟩ := hresolved.grounded i hi
    exact ⟨hknown, hacyclic⟩
  · rintro ⟨hknown, hacyclic⟩
    cases a with
    | ok i => exact ⟨i, rfl⟩
    | error e => exact absurd ⟨hknown, hacyclic⟩ (hresolved.blames e rfl).not_grounded
  · intro e he
    cases hresolved.blames e he with
    | unknown m hm hunknown he => exact .inl ⟨m, hm, hunknown, he⟩
    | circular rest way last hchain hway hlast he =>
      exact .inr ⟨n :: rest, way, last, rfl, hchain, hway, hlast, he⟩

/-! ### Registries of scripted factories -/

namespace Scenario

/-- A component of a plan. -/
structure Planned where
  lifetime : Lifetime := .singleton
  name : String
  dependencies : List String

/-- The registry in which the components of a plan are defined, the last one first. -/
def registryOf : List Planned → Registry Scripted
  | [] => {}
  | p :: rest => (registryOf rest).define (wired p.lifetime p.name p.dependencies).toDefinition

/-- What a component depends on according to a plan. -/
def dependenciesIn : List Planned → ComponentName → List ComponentName
  | [], _ => []
  | p :: rest, n =>
    if ⟨p.name⟩ = n then p.dependencies.map ComponentName.mk else dependenciesIn rest n

theorem registryOf_coherent (plan : List Planned) : (registryOf plan).Coherent := by
  induction plan with
  | nil =>
    intro n d hd
    cases hd
  | cons p rest ih => exact ih.define _

theorem registryOf_idle (plan : List Planned) :
    (registryOf plan).interceptors = [] ∧ (registryOf plan).inCreation = [] := by
  induction plan with
  | nil => exact ⟨rfl, rfl⟩
  | cons p rest ih => exact ih

/-- The factories of a plan do what the plan says. -/
theorem registryOf_wires (r : ObjectId) (plan : List Planned) (n : ComponentName)
    (d : Definition Scripted) (hd : (registryOf plan).definitions.get? n = some d) :
    Program.Wires r (dependenciesIn plan n) (behaviour (.create d (.direct r))) := by
  induction plan with
  | nil => cases hd
  | cons p rest ih =>
    have hget : (((registryOf rest).definitions.insert ⟨p.name⟩
        (wired p.lifetime p.name p.dependencies).toDefinition).get? n) = some d := hd
    rw [OrderedMap.get?_insert] at hget
    rw [dependenciesIn]
    split at hget <;> rename_i hn
    · cases hget
      rw [if_pos hn]
      exact wired_wires r p.lifetime p.name p.dependencies
    · rw [if_neg hn]
      exact ih hget

/-- A diamond with a component that is no singleton, and a cycle that leads to it. -/
def diamond : List Planned :=
  [{ name := "a", dependencies := ["b", "c"] },
    { lifetime := .transient, name := "b", dependencies := ["c"] },
    { name := "c", dependencies := [] },
    { name := "x", dependencies := ["a", "y"] }, { name := "y", dependencies := ["x"] }]

def diamondWorld : World Scripted Memory :=
  (Setup.world {}).setRegistry Setup.base (registryOf diamond)

/-- The diamond is resolved in every depth from five on, and so there is nothing circular in it. -/
theorem diamond_decided :
    (∃ i w' j, ∀ depth, 5 ≤ depth → behaviour.run depth
      (Program.request (.resolve (.direct Setup.base) ⟨"a"⟩)) diamondWorld =
        some (.ok i, w', j)) ∧
      ∀ m, ReflTransGen ((registryOf diamond).DependsOn (dependenciesIn diamond)) ⟨"a"⟩ m →
        ¬ TransGen ((registryOf diamond).DependsOn (dependenciesIn diamond)) m m := by
  have hregistry : diamondWorld.registries.get Setup.base = registryOf diamond := by
    rw [diamondWorld, World.get_setRegistry_self]
  obtain ⟨hunobserved, hidle⟩ := registryOf_idle diamond
  obtain ⟨a, w', j, hrun, hdecides, -⟩ :=
    resolution_decides behaviour Setup.base (dependenciesIn diamond)
      (by rw [hregistry, hunobserved]) (by rw [hregistry, hidle])
      (by rw [hregistry]; exact registryOf_coherent diamond)
      (by rw [hregistry]; exact registryOf_wires Setup.base diamond)
      (.direct Setup.base) rfl ⟨"a"⟩
  rw [hregistry] at hrun hdecides
  have hevaluated : (behaviour.run 5 (Program.request (.resolve (.direct Setup.base) ⟨"a"⟩))
      diamondWorld).map (fun p => p.1.isOk) = some true := by
    decide +kernel
  have hsize : (registryOf diamond).definitions.size = 5 := by decide
  rw [hsize] at hrun
  rw [hrun 5 (Nat.le_refl 5)] at hevaluated
  cases a with
  | error e => cases hevaluated
  | ok i => exact ⟨⟨i, w', j, hrun⟩, (hdecides.1 ⟨i, rfl⟩).2⟩

end Scenario

end Startup
