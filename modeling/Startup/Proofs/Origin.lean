import Startup.Proofs.Interceptor.Course
import Startup.Proofs.Pipeline.FailFast
import Startup.Proofs.Registry.Relaying

/-!
The origin of a failure. A start-up that fails tells why, and its error may have come a long way:
from a factory that could not do its work through the creations of all that depend on its component,
through the fetch of a mutator or an interceptor, and through the pipeline or the registration that
asked for it. None of them takes anything away.

Main statement: `origin_kept`.
-/

namespace Startup

variable {H : Host} {σ : Type}

/-! ## Failed deeds -/

/-- What failed among some deeds is what their result tells. -/
theorem Ending.eq_error {α : Type} {r : Except ExtensionError α} {ds : List (Deed H)}
    (h : Ending r ds) {d : Deed H} {x : ExtensionError} (hd : d ∈ ds) (hx : d.error? = some x) :
    r = .error x := by
  cases h with
  | smooth a ds hsmooth =>
    rw [hsmooth d hd] at hx
    cases hx
  | broken y ds last hsmooth hlast =>
    rcases List.mem_append.1 hd with hbefore | hend
    · rw [hsmooth d hbefore] at hx
      cases hx
    · rw [List.mem_singleton.1 hend, hlast] at hx
      rw [Option.some.inj hx]

theorem Ending.ok {α β : Type} {a : α} {b : β} {ds : List (Deed H)} (h : Ending (.ok a) ds) :
    Ending (.ok b) ds := by
  cases h with
  | smooth a ds hsmooth => exact .smooth b ds hsmooth

/-- An attempt that ends with its first failure. -/
def Attempt.BreaksFast {α : Type} (x : Attempt H σ ExtensionError α) : Prop :=
  ∀ w r w' j, x.run w = some (r, w', j) → Ending r (Journal.deeds j)

namespace Attempt.BreaksFast

variable {α β : Type}

theorem pure (a : α) : BreaksFast (Pure.pure a : Attempt H σ ExtensionError α) := by
  intro w r w' j h
  cases h
  exact .silent a

theorem bind {x : Attempt H σ ExtensionError α} {f : α → Attempt H σ ExtensionError β}
    (hx : BreaksFast x) (hf : ∀ a, BreaksFast (f a)) : BreaksFast (x >>= f) := by
  intro w r w' j h
  obtain ⟨e, rfl, hfailed⟩ | ⟨a, w₁, j₁, j₂, h₁, h₂, rfl⟩ := Attempt.bind_eq_some h
  · exact (hx w _ w' j hfailed).error
  · rw [Journal.deeds_append]
    exact (hx w _ w₁ j₁ h₁).after (hf a w₁ r w' j₂ h₂)

theorem blame {x : Attempt H σ DependencyError α} (hx : x.FailsFast) :
    BreaksFast (x.blame .dependency) := by
  intro w r w' j h
  obtain ⟨a, hrun, rfl⟩ := Attempt.blame_eq_some h
  exact (hx w a w' j hrun).1

theorem installTier (v : View) (t : TierClass) (tier : List (Extension H)) :
    BreaksFast (always (Registration.installTier v t tier) : Attempt H σ ExtensionError _) := by
  intro w r w' j h
  have hbind : (always (Registration.installTier v t tier) >>= fun l => Pure.pure l :
      Attempt H σ ExtensionError _).run w = some (r, w', j) := by
    rw [bind_pure]
    exact h
  obtain ⟨sorted, w₁, j₁, j₂, htier, hpure, rfl⟩ := Attempt.always_bind_eq_some.1 hbind
  cases hpure
  obtain ⟨-, hnotes, -⟩ := Registration.installTier_eq_some htier
  rw [List.append_nil, hnotes.deeds]
  exact .silent sorted

end Attempt.BreaksFast

namespace Registration

open Attempt (BreaksFast)

variable {call : Call H σ} {v : View} {w w' : World H σ} {j : Journal H}

theorem fetchTier_breaksFast (names : List ComponentName) :
    BreaksFast (fetchTier call v names) :=
  .blame (.fetchAll _ names)

theorem installNamed_breaksFast (names : List ComponentName) :
    BreaksFast (installNamed call v names) := by
  refine .bind (.blame (.divide _ _ names)) fun tiers => .bind (.installTier _ _ _) fun _ => ?_
  refine .bind (fetchTier_breaksFast _) fun _ => .bind (.installTier _ _ _) fun _ => ?_
  refine .bind (fetchTier_breaksFast _) fun _ => .bind (.installTier _ _ _) fun _ => ?_
  exact .pure _

/-- A registration ends with its first failure. -/
theorem registerInterceptors_ends {context : ObjectId}
    {result : Except ExtensionError (Registration H)}
    (h : (v.registerInterceptors call context).run w = some (result, w', j)) :
    ∃ body, j = [.scope (.registration v context (View.error? result)) body] ∧
      Ending result (Journal.deeds body) := by
  obtain ⟨body, hfurnish, rfl⟩ := registerInterceptors_eq_some h
  refine ⟨_, rfl, ?_⟩
  obtain ⟨a, w₁, j₁, k, hnamed, rfl, hnotes, hresult⟩ := furnish_eq_some rfl hfurnish
  have hends := installNamed_breaksFast _ _ _ _ _ hnamed
  have hdeeds (s : Registry H) : Journal.deeds (installedChecker s v
      (Checker.extension w.next) ++ (j₁ ++ k)) = Journal.deeds j₁ := by
    rw [Journal.deeds_append, Journal.deeds_append, (installedChecker_notes _ _ _).deeds,
      hnotes.deeds, List.nil_append, List.append_nil]
  show Ending result (Journal.deeds (installedChecker _ _ _ ++ (j₁ ++ k)))
  rw [hdeeds]
  obtain ⟨e, rfl, rfl, -, -⟩ | ⟨es, w₂, rfl, rfl, -⟩ := hresult
  · exact hends.error
  · exact hends.ok

end Registration

/-- A run of the pipeline fails with what failed among its deeds. -/
theorem Pipeline.invoke_ends {call : Call H σ} {v : View} {depth : Nat}
    {supplied : List (Extension H)} {w w' : World H σ} {result : Except ExtensionError Unit}
    {report : Report} {j : Journal H}
    (h : invoke call v depth supplied w = some ((result, report), w', j)) :
    ∃ body, j = [.scope (.pipeline v supplied report (error? result)) body] ∧
      ∀ d ∈ Journal.deeds body, ∀ x, d.error? = some x → result = .error x := by
  obtain ⟨s, w₁, j₁, s', j₂, hsteps, hfinish, rfl, rfl⟩ := invoke_parts h
  obtain ⟨-, hends⟩ := steps_failsFast depth supplied {} w result s w₁ j₁ hsteps
  obtain ⟨-, hclosing⟩ := finish_leaves result _ _ _ hfinish
  refine ⟨_, rfl, fun d hd x hx => ?_⟩
  rw [deeds_started, Journal.deeds_append] at hd
  rcases List.mem_append.1 hd with hbefore | hclose
  · exact hends.eq_error hbefore hx
  · rw [hclosing.smooth d hclose] at hx
    cases hx

/-! ## Start-ups -/

/-- The entries inside of a part of a start-up, if that is its run of the pipeline or its
registration of interceptors. -/
def Event.part : Event H → Journal H
  | .scope (.pipeline ..) body => body
  | .scope (.registration ..) body => body
  | _ => []

/-- The entries that the run of the pipeline and the registration of interceptors made in a
start-up. -/
def Journal.parts (j : Journal H) : Journal H := j.flatMap Event.part

theorem Journal.parts_singleton (x : Event H) : parts [x] = x.part :=
  List.flatMap_singleton Event.part x

theorem Journal.parts_append (j k : Journal H) : parts (j ++ k) = parts j ++ parts k :=
  List.flatMap_append

/-- An attempt that fails with whatever failed among the deeds of a pipeline or a registration. -/
def Attempt.Discloses {α : Type} (x : Attempt H σ InfrastructureError α) : Prop :=
  ∀ w r w' j, x.run w = some (r, w', j) →
    ∀ d ∈ Journal.deeds (Journal.parts j), ∀ y, d.error? = some y → r = .error (.extension y)

namespace Attempt.Discloses

variable {α β : Type}

theorem pure (a : α) : Discloses (Pure.pure a : Attempt H σ InfrastructureError α) := by
  intro w r w' j h d hd
  cases h
  cases hd

theorem bind {x : Attempt H σ InfrastructureError α} {f : α → Attempt H σ InfrastructureError β}
    (hx : Discloses x) (hf : ∀ a, Discloses (f a)) : Discloses (x >>= f) := by
  intro w r w' j h d hd y hy
  obtain ⟨e, rfl, hfailed⟩ | ⟨a, w₁, j₁, j₂, h₁, h₂, rfl⟩ := Attempt.bind_eq_some h
  · cases hx w _ w' j hfailed d hd y hy
    rfl
  · rw [Journal.parts_append, Journal.deeds_append] at hd
    rcases List.mem_append.1 hd with hfirst | hsecond
    · cases hx w _ w₁ j₁ h₁ d hfirst y hy
    · exact hf a w₁ r w' j₂ h₂ d hsecond y hy

/-- What is no run of the pipeline and no registration may come in between. -/
theorem always_bind {x : Run H σ α} {f : α → Attempt H σ InfrastructureError β}
    (hx : ∀ w a w' j, x w = some (a, w', j) → Journal.parts j = [])
    (hf : ∀ a, Discloses (f a)) : Discloses (Attempt.always x >>= f) := by
  intro w r w' j h d hd
  obtain ⟨a, w₁, j₁, j₂, h₁, h₂, rfl⟩ := Attempt.always_bind_eq_some.1 h
  rw [Journal.parts_append, hx w a w₁ j₁ h₁, List.nil_append] at hd
  exact hf a w₁ r w' j₂ h₂ d hd

end Attempt.Discloses

namespace Container

open Attempt (Discloses)

variable {call : Call H σ} {v : View} {depth : Nat} {settings : StartSettings}
  {supplied : List (Extension H)}

theorem mutate_discloses : Discloses (mutate call v depth supplied) := by
  intro w r w' j h d hd y hy
  obtain ⟨⟨result, report⟩, w₁, j₁, j₂, hinvoke, hpure, rfl⟩ := Attempt.always_bind_eq_some.1 h
  obtain ⟨body, rfl, hends⟩ := Pipeline.invoke_ends hinvoke
  cases result with
  | ok _ =>
    cases hpure
    rw [List.append_nil, Journal.parts_singleton] at hd
    cases hends d hd y hy
  | error x =>
    cases hpure
    rw [List.append_nil, Journal.parts_singleton] at hd
    cases hends d hd y hy
    rfl

theorem register_discloses (context : ObjectId) :
    Discloses ((v.registerInterceptors call context).blame .extension) := by
  intro w r w' j h d hd y hy
  obtain ⟨result, hrun, rfl⟩ := Attempt.blame_eq_some h
  obtain ⟨body, rfl, hends⟩ := Registration.registerInterceptors_ends hrun
  rw [Journal.parts_singleton] at hd
  rw [hends.eq_error hd hy]
  rfl

theorem populate_discloses : Discloses (populate call v settings) := by
  intro w r w' j h d hd
  rw [populate] at h
  split at h
  · obtain ⟨a, hrun, -⟩ := Attempt.blame_eq_some h
    rw [View.preinstantiate_run, Run.ask_bind] at hrun
    obtain ⟨_, w₁, j₁, j₂, hnoted, hall, rfl⟩ := Run.bind_eq_some.1 hrun
    cases hnoted
    rw [Attempt.within, Attempt.run_of] at hall
    obtain ⟨body, -, rfl⟩ := Run.within_eq_some.1 hall
    cases hd
  · cases h
    cases hd

theorem prepare_discloses : Discloses (prepare call v depth settings supplied) := by
  refine .bind mutate_discloses fun report => .always_bind ?_ fun context => ?_
  · intro w a w' j h
    cases h
    rfl
  · refine .bind (register_discloses context) fun registration => ?_
    exact .bind populate_discloses fun _ => .pure _

theorem steps_discloses : Discloses (steps call v depth settings supplied) := by
  refine .bind prepare_discloses fun c => .always_bind ?_ fun _ => .always_bind ?_ fun _ => .pure c
  · intro w a w' j h
    rw [announce] at h
    split at h
    · rw [Run.ask_bind, Context.publish, Run.context, Run.ask_bind] at h
      obtain ⟨told, -, rfl⟩ := Run.within_eq_some.1 h
      rfl
    · cases h
      rfl
  · intro w a w' j h
    cases h
    rfl

/-- A start-up fails with whatever failed in its run of the pipeline or in its registration. -/
theorem start_discloses {w w' : World H σ} {a : Except InfrastructureError (Container H)}
    {j : Journal H} (h : (start call v depth settings supplied).run w = some (a, w', j)) :
    ∃ body, j = [.scope (.bootstrap v (View.error? a)) body] ∧
      ∀ d ∈ Journal.deeds (Journal.parts body), ∀ y, d.error? = some y →
        a = .error (.extension y) := by
  rw [start, Attempt.within, Attempt.run_of] at h
  obtain ⟨body, hbody, rfl⟩ := Run.within_eq_some.1 h
  refine ⟨body, rfl, fun d hd y hy => ?_⟩
  obtain ⟨_, w₁, j₁, k₁, hstarted, h₁, rfl⟩ := Run.bind_eq_some.1 hbody
  cases hstarted
  obtain ⟨result, w₂, j₂, k₂, hsteps, h₂, rfl⟩ := Run.bind_eq_some.1 h₁
  obtain ⟨_, w₃, j₃, k₃, hnoted, hpure, rfl⟩ := Run.bind_eq_some.1 h₂
  cases hpure
  have hnone : Journal.parts (j₃ ++ []) = [] := by
    cases a <;> cases hnoted <;> rfl
  rw [Journal.parts_append, Journal.parts_append, hnone, List.append_nil] at hd
  exact steps_discloses w a w₂ j₂ hsteps d hd y hy

end Container

/-! ## The origin -/

/-- A fetch passes on the error of the resolution that it makes. -/
theorem View.fetch_of_error {call : Call H σ} {v : View} {n : ComponentName}
    {e : DependencyError} {w w' : World H σ} {j : Journal H}
    (h : (v.resolve call n).run w = some (.error e, w', j)) (c : Capability) :
    (v.fetch call n c).run w = some (.error e, w', [.scope (.fetch v n c (.error e)) j]) := by
  refine Run.within_eq_some.2 ⟨j, ?_, rfl⟩
  rw [Attempt.run_bind]
  exact Run.bind_eq_some.2 ⟨.error e, w', j, [], h, rfl, (List.append_nil j).symm⟩

/-- The origin of a failure is never lost. Every failure nests some origin, a failure in somebody's
own words, in a number of wrappers; each wrapper that is not transparent is one link in the chain of
causes, the last link is the origin or shows it as it is, and the text ends with its text.

So it is where components fail because others do. If the factories of distinct components that have
to be created pass a failure on, from the last one to the first one, the resolution of the first one
names all of them, from the outside in, and the origin is the last of its causes and the end of its
text. That is so in whatever depth there is room for them. A fetch that makes this resolution has
the same error. And whenever a fetch fails that is made by the pipeline of a start-up, or by its
registration of interceptors, the start-up fails with the same text and the same causes. -/
theorem origin_kept (b : Behaviour H σ) :
    (∀ f : Failure, ∃ (origin : Failure) (count : Nat), origin.Nests count f) ∧
    (∀ (f origin : Failure) (count : Nat), origin.Nests count f → f.Keeps origin count) ∧
    (∀ (v : View) (n : ComponentName) (rest : List ComponentName) (f : Failure) (w : World H σ),
      let s := w.registries.get v.registry
      f.layer = .root → (n :: rest).Nodup → s.Ready s.definitions (n :: rest) →
      FailsAlong b v.registry s.definitions f n rest →
      let e := DependencyError.creationFailed n.text (f.inCreations rest)
      (∃ w' j, ∀ depth, rest.length < depth →
        (v.resolve (b.call depth) n).run w = some (.error e, w', j) ∧
          ∀ c, (v.fetch (b.call depth) n c).run w =
            some (.error e, w', [.scope (.fetch v n c (.error e)) j])) ∧
        e.causes.length = rest.length + 1 ∧ e.causes.getLast? = some f ∧
        ∃ before, e.message = before ++ f.message) ∧
    ∀ (v : View) (depth : Nat) (settings : StartSettings) (supplied : List (Extension H))
      (w w' : World H σ) (a : Except InfrastructureError (Container H)) (j : Journal H),
      (Container.start (b.call depth) v depth settings supplied).run w = some (a, w', j) →
      ∃ body, j = [.scope (.bootstrap v (View.error? a)) body] ∧
        ∀ v' n c e inner, .scope (.fetch v' n c (.error e)) inner ∈ Journal.parts body →
          ∃ failure, a = .error failure ∧ failure = .extension (.dependency e) ∧
            failure.message = e.message ∧ failure.causes = e.causes := by
  refine ⟨Failure.exists_nests, fun f origin count h => h.keeps, ?_, ?_⟩
  · intro v n rest f w s hf hnodup hready halong e
    obtain ⟨a, w', j, hrun, rfl⟩ := halong.resolve hnodup rfl hready
    have hnests : f.Nests (n :: rest).length (f.inCreations (n :: rest)) :=
      Failure.nests_inCreations hf
    refine ⟨⟨w', j, fun depth hdepth => ?_⟩, hnests.length_causes,
      Failure.getLast?_causes_inCreations hf n, hnests.endsWith⟩
    exact ⟨hrun depth hdepth, fun c => View.fetch_of_error (hrun depth hdepth) c⟩
  · intro v depth settings supplied w w' a j h
    obtain ⟨body, hj, hdiscloses⟩ := Container.start_discloses h
    refine ⟨body, hj, fun v' n c e inner hfetch => ?_⟩
    have hdeed : .fetched n c (.error e) ∈ Journal.deeds (Journal.parts body) :=
      List.mem_filterMap.2 ⟨_, hfetch, rfl⟩
    exact ⟨_, hdiscloses _ hdeed _ rfl, rfl, rfl, rfl⟩

/-! ### A start-up without light -/

namespace Scenario

/-- A definition mutator that needs a component whose factory fails. -/
def lampRegistry : Registry Scripted :=
  (({} : Registry Scripted).define
    { (wired .singleton "reader" ["lamp"]).toDefinition with
      capabilities := [.definitionMutator] }).define
    (failing "lamp" "no light").toDefinition

theorem lampRegistry_ready :
    lampRegistry.Ready lampRegistry.definitions [⟨"reader"⟩, ⟨"lamp"⟩] where
  definitions_eq := rfl
  coherent n d hd := by cases hd
  unshown := List.forall_mem_nil _
  uncached _ _ := rfl
  idle _ _ := List.not_mem_nil

theorem lampRegistry_failsAlong :
    FailsAlong behaviour Setup.base lampRegistry.definitions (.plain "no light")
      ⟨"reader"⟩ [⟨"lamp"⟩] :=
  .relay rfl (wired_wires Setup.base .singleton "reader" ["lamp"]).relays
    (.last rfl (failing_gives Setup.base "lamp" "no light"))

def lampWorld : World Scripted Memory := (Setup.world {}).setRegistry Setup.base lampRegistry

/-- The texts of the fetches that failed in a start-up. -/
def failedFetches : Journal Scripted → List String
  | [.scope (.bootstrap ..) body] => (Journal.parts body).filterMap fun
    | .scope (.fetch _ _ _ (.error e)) _ => some e.message
    | _ => none
  | _ => []

theorem mem_failedFetches {v : View} {failure? : Option InfrastructureError}
    {body : Journal Scripted} {text : String}
    (h : text ∈ failedFetches [.scope (.bootstrap v failure?) body]) :
    ∃ v' n c e inner, .scope (.fetch v' n c (.error e)) inner ∈ Journal.parts body ∧
      e.message = text := by
  obtain ⟨entry, hentry, htext⟩ := List.mem_filterMap.1 h
  split at htext
  · exact ⟨_, _, _, _, _, hentry, Option.some.inj htext⟩
  · cases htext

def lampText : String := "组件创建失败: reader, 原因: 组件创建失败: lamp, 原因: no light"

/-- The resolution of the mutator and the start-up fail with the same text, at the end of which
stands what the lamp said. -/
theorem lamp_origin_kept :
    ∃ e failure w₁ w₂ j₁ j₂,
      ((View.direct Setup.base).resolve (behaviour.call 3) ⟨"reader"⟩).run lampWorld =
        some (.error e, w₁, j₁) ∧
      (Container.start (behaviour.call 3) (.direct Setup.base) 3 {} []).run lampWorld =
        some (.error failure, w₂, j₂) ∧
      e.message = lampText ∧ e.causes.getLast? = some (.plain "no light") ∧
      failure.message = lampText := by
  have hevaluated : ((Container.start (behaviour.call 3) (.direct Setup.base) 3 {} []).run
      lampWorld).map (fun p => failedFetches p.2.2) = some [lampText] := by
    decide +kernel
  have hregistry : lampWorld.registries.get Setup.base = lampRegistry := by
    rw [lampWorld, World.get_setRegistry_self]
  obtain ⟨-, -, hchain, hstart⟩ := origin_kept behaviour
  have hresolved := hchain (.direct Setup.base) ⟨"reader"⟩ [⟨"lamp"⟩] (.plain "no light") lampWorld
  rw [show lampWorld.registries.get (View.direct Setup.base).registry = lampRegistry
    from hregistry] at hresolved
  obtain ⟨⟨w₁, j₁, hresolve⟩, -, hlast, -⟩ :=
    hresolved rfl (by decide) lampRegistry_ready lampRegistry_failsAlong
  obtain ⟨⟨a, w₂, j₂⟩, hrun, hfetches⟩ := Option.map_eq_some_iff.1 hevaluated
  obtain ⟨body, rfl, htold⟩ := hstart _ _ _ _ _ _ _ _ hrun
  have hmem : lampText ∈ failedFetches [.scope (.bootstrap (.direct Setup.base)
      (View.error? a)) body] := by
    rw [hfetches]
    exact List.mem_singleton_self lampText
  obtain ⟨v, n, c, e, inner, hfetch, htext⟩ := mem_failedFetches hmem
  obtain ⟨failure, rfl, -, hmessage, -⟩ := htold v n c e inner hfetch
  exact ⟨_, failure, w₁, w₂, j₁, _, (hresolve 3 (by decide)).1, hrun, rfl, hlast,
    hmessage.trans htext⟩

end Scenario

end Startup
