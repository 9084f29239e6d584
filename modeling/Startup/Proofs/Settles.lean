import Startup.Program

/-!
Runs that end. Whether a run ends may depend on the depth that callbacks are given; how it ends
should not. A family of runs, one for each depth, settles if from some depth on all of them end, and
in the same way.

Main statements: a rule for each construct, such as `Settles.bind` and `Settles.within`;
`Settles.call`, that a callback settles one level deeper than its program; and the rules
`Settles.create` and `Settles.resolve` for the creation of components.
-/

namespace Startup

variable {H : Host} {σ α β : Type}

/-- A request that concerns nothing but the host. -/
def Request.IsAside : Request H σ → Prop
  | .look _ | .remember _ | .note _ | .fresh => True
  | _ => False

/-- From depth `k` on the run ends, always in the same way, and what it leaves is as `post` says. -/
def Settles (k : Nat) (x : Nat → Run H σ α) (w : World H σ) (post : α → World H σ → Prop) : Prop :=
  ∃ a w' j, (∀ depth, k ≤ depth → x depth w = some (a, w', j)) ∧ post a w'

namespace Settles

variable {k : Nat} {w : World H σ}

theorem mono {x : Nat → Run H σ α} {post post' : α → World H σ → Prop} (h : Settles k x w post)
    (hpost : ∀ a w', post a w' → post' a w') : Settles k x w post' := by
  obtain ⟨a, w', j, hx, ha⟩ := h
  exact ⟨a, w', j, hx, hpost a w' ha⟩

theorem pure {a : α} {post : α → World H σ → Prop} (h : post a w) :
    Settles k (fun _ => Pure.pure a) w post :=
  ⟨a, w, [], fun _ _ => rfl, h⟩

theorem bind {x : Nat → Run H σ α} {f : α → Nat → Run H σ β} {mid : α → World H σ → Prop}
    {post : β → World H σ → Prop} (hx : Settles k x w mid)
    (hf : ∀ a w', mid a w' → Settles k (f a) w' post) :
    Settles k (fun depth => x depth >>= fun a => f a depth) w post := by
  obtain ⟨a, w₁, j₁, hrun₁, hmid⟩ := hx
  obtain ⟨b, w₂, j₂, hrun₂, hpost⟩ := hf a w₁ hmid
  refine ⟨b, w₂, j₁ ++ j₂, fun depth hdepth => ?_, hpost⟩
  exact Run.bind_eq_some.2 ⟨a, w₁, j₁, j₂, hrun₁ depth hdepth, hrun₂ depth hdepth, rfl⟩

theorem within {s : α → Scope H} {x : Nat → Run H σ α} {post : α → World H σ → Prop}
    (hx : Settles k x w post) : Settles k (fun depth => Run.within s (x depth)) w post := by
  obtain ⟨a, w', j, hrun, hpost⟩ := hx
  refine ⟨a, w', [.scope (s a) j], fun depth hdepth => ?_, hpost⟩
  exact Run.within_eq_some.2 ⟨j, hrun depth hdepth, rfl⟩

theorem map {x : Nat → Run H σ α} {g : α → β} {post : β → World H σ → Prop}
    (hx : Settles k x w fun a w' => post (g a) w') :
    Settles k (fun depth => g <$> x depth) w post := by
  have hbind := hx.bind (f := fun a _ => Pure.pure (g a)) fun a w' ha => Settles.pure ha
  simpa only [bind_pure_comp] using hbind

variable {b : Behaviour H σ}

/-- A program settles if its first request does, and then what it goes on with. -/
theorem ask {q : Request H σ} {next : q.Answer → Program H σ α}
    {mid : q.Answer → World H σ → Prop} {post : α → World H σ → Prop}
    (hq : Settles k (fun depth => q.run (b.call depth) depth) w mid)
    (hnext : ∀ a w', mid a w' → Settles k (fun depth => b.run depth (next a)) w' post) :
    Settles k (fun depth => b.run depth (.ask q next)) w post :=
  hq.bind hnext

theorem request {q : Request H σ} {post : q.Answer → World H σ → Prop}
    (hq : Settles k (fun depth => q.run (b.call depth) depth) w post) :
    Settles k (fun depth => b.run depth (Program.request q)) w post :=
  hq.ask fun _ _ ha => Settles.pure ha

/-- What concerns nothing but the host settles, and no registry changes. -/
theorem aside {q : Request H σ} (hq : q.IsAside) (w : World H σ) :
    Settles k (fun depth => q.run (b.call depth) depth) w
      fun _ w' => w'.registries = w.registries := by
  cases q with
  | look f => exact ⟨f w, w, [], fun _ _ => rfl, rfl⟩
  | remember f => exact ⟨(), { w with memory := f w.memory }, [], fun _ _ => rfl, rfl⟩
  | note x => exact ⟨(), w, [.fact (.note x)], fun _ _ => rfl, rfl⟩
  | fresh => exact ⟨w.next, { w with next := w.next + 1 }, [], fun _ _ => rfl, rfl⟩
  | _ => exact hq.elim

/-- A callback needs one more level than its program. -/
theorem call {cb : Callback H} {post : cb.Answer → World H σ → Prop}
    (h : Settles k (fun depth => b.run depth (b cb)) w post) :
    Settles (k + 1) (fun depth => b.call depth cb) w post := by
  obtain ⟨a, w', j, hrun, hpost⟩ := h
  refine ⟨a, w', j, fun depth hdepth => ?_, hpost⟩
  obtain ⟨inner, rfl⟩ : ∃ inner, depth = inner + 1 := ⟨depth - 1, by omega⟩
  exact hrun inner (by omega)

/-! ## Creation -/

variable {r : ObjectId} {n : ComponentName} {d : Definition H}
  {post : Except DependencyError (Instance H) → World H σ → Prop}

/-- Without interceptors a component is built by its factory alone. -/
theorem build (v : View) (h : Settles k (fun depth => b.call depth (.create d v)) w
      fun a w' => post (a.mapError (.creationFailed n.text)) w') :
    Settles k (fun depth => (Creation.build (b.call depth) v n d []).run) w post := by
  simp only [Creation.build_nil]
  exact h.within.map

/-- A creation that is not refused settles if the component can be built. -/
theorem create (hn : n ∉ (w.registries.get r).inCreation)
    (h : Settles k (fun depth => (Creation.build (b.call depth) (.direct r) n d
      (w.registries.get r).interceptors).run)
        (w.setRegistry r ((w.registries.get r).beginCreation n)) fun a w' =>
          post ((w'.registries.get r).conclude n d a).1
            (w'.setRegistry r ((w'.registries.get r).conclude n d a).2)) :
    Settles k (fun depth => (Creation.create (b.call depth) r n d).run) w post := by
  obtain ⟨a, w', j, hrun, hpost⟩ := h.within (s := .creation r n d
    (w.registries.get r).inCreation (w.registries.get r).interceptors)
  refine ⟨_, _, j, fun depth hdepth => ?_, hpost⟩
  simp only [Creation.create_begun _ hn]
  exact Option.map_eq_some_iff.2 ⟨(a, w', j), hrun depth hdepth, rfl⟩

/-- A resolution settles: it finds a singleton, or nothing, or it is refused, or the creation
settles that it begins. -/
theorem resolve {v : View} {s : Registry H} (hs : w.registries.get v.registry = s)
    (hfound : ∀ i, s.singletons.get? n = some i → post (.ok i) w)
    (hunknown : s.singletons.get? n = none → (s.lookup n).1 = none →
      post (.error (.notRegistered n.text)) w)
    (hdefined : ∀ d, s.singletons.get? n = none → (s.lookup n).1 = some d →
      Settles k (fun depth => (Creation.create (b.call depth) v.registry n d).run)
        (w.setRegistry v.registry (s.lookup n).2) post) :
    Settles k (fun depth => (v.resolve (b.call depth) n).run) w post := by
  subst hs
  cases hi : (w.registries.get v.registry).singletons.get? n with
  | some i => exact ⟨_, _, _, fun _ _ => View.resolve_cached _ hi, hfound i hi⟩
  | none =>
    cases hd : ((w.registries.get v.registry).lookup n).1 with
    | none => exact ⟨_, _, _, fun _ _ => View.resolve_unknown _ hi hd, hunknown hi hd⟩
    | some d =>
      obtain ⟨a, w', j, hrun, hpost⟩ := (hdefined d hi hd).within (s := .resolution v n)
      refine ⟨a, w', j, fun depth hdepth => ?_, hpost⟩
      simp only [View.resolve_defined _ hi hd]
      exact hrun depth hdepth

end Settles

end Startup
