import Startup.Proofs.Lockstep.Registry
import Startup.Proofs.Registry.Ledger

/-!
Two views of one registry. A view may hold the changing of definitions back, and note what is done
through it, but everything else it passes on to the registry. So two holders of such views, one of
whom may change definitions and the other may not, do the same, as long as neither makes use of the
difference.

Two runs echo each other if they end in the same world, with answers that belong together, and if
the same callbacks were made on the way. Every operation of the library on the one view echoes the
operation on the other, and so does every program that hands its view on and does not look at it.

Main statement: `Behaviour.Unaware.call`, for the callbacks of a host whose programs are of that
kind.
-/

namespace Startup

variable {H : Host} {σ : Type}

/-! ## The callbacks of a journal -/

/-- The same callback, whatever it is that the holder of its registry may do. -/
def Callback.plain : Callback H → Callback H
  | .create d v => .create d (.direct v.registry)
  | .mutateDefinitions e v => .mutateDefinitions e (.direct v.registry)
  | .mutateFactory e v => .mutateFactory e (.direct v.registry)
  | .before e v i n => .before e (.direct v.registry) i n
  | .after e v i n => .after e (.direct v.registry) i n
  | cb => cb

/-- The callback that begins at a moment, and how it will fail if it does. -/
def Moment.call? : Moment H → Option (Callback H × Option Failure)
  | .opens (.call cb a) => some (cb.plain, cb.failure? a)
  | _ => none

/-- The callbacks that were made, in the order of their beginnings. -/
def Journal.calls (j : Journal H) : List (Callback H × Option Failure) :=
  (Journal.moments j).filterMap Moment.call?

namespace Journal

theorem calls_append (j k : Journal H) : calls (j ++ k) = calls j ++ calls k := by
  rw [calls, moments_append, List.filterMap_append]
  rfl

theorem calls_scope (s : Scope H) (j : Journal H) :
    calls [.scope s j] = (Moment.call? (.opens s)).toList ++ calls j := by
  have hcloses : Moment.call? (.closes s) = none := rfl
  rw [calls, moments_scope, List.filterMap_cons, List.filterMap_append,
    List.filterMap_cons_none hcloses, List.filterMap_nil, List.append_nil]
  cases Moment.call? (.opens s) <;> rfl

end Journal

/-! ## Runs that echo each other -/

/-- Two runs ended in the same world, with answers that belong together, and made the same callbacks
on the way. -/
structure Echo {α β : Type} (Q : α → β → Prop) (p : α × World H σ × Journal H)
    (p' : β × World H σ × Journal H) : Prop where
  answer : Q p.1 p'.1
  world : p'.2.1 = p.2.1
  calls : Journal.calls p'.2.2 = Journal.calls p.2.2

/-- Begun in the same world, both runs end or neither does, and if they end they echo each other. -/
def Run.Echoes {α β : Type} (Q : α → β → Prop) (x : Run H σ α) (x' : Run H σ β) : Prop :=
  ∀ w, Option.Rel (Echo Q) (x w) (x' w)

namespace Run.Echoes

variable {α α' β β' : Type} {P : α → α' → Prop} {Q : β → β' → Prop}

theorem refl (x : Run H σ α) : Echoes Eq x x := by
  intro w
  cases x w with
  | none => exact .none
  | some p => exact .some ⟨rfl, rfl, rfl⟩

theorem pure {a : α} {a' : α'} (h : P a a') :
    Echoes P (Pure.pure a : Run H σ α) (Pure.pure a') :=
  fun _ => .some ⟨h, rfl, rfl⟩

theorem record (f f' : Fact H) : Echoes Eq (Run.record f : Run H σ Unit) (Run.record f') :=
  fun _ => .some ⟨rfl, rfl, rfl⟩

/-- In one world: two runs that echo each other, and then two that do so wherever the first ones may
end. -/
theorem bind_at {x : Run H σ α} {x' : Run H σ α'} {f : α → Run H σ β} {f' : α' → Run H σ β'}
    {w : World H σ} (hx : Option.Rel (Echo P) (x w) (x' w))
    (hf : ∀ a a' w₁ j, x w = some (a, w₁, j) → P a a' →
      Option.Rel (Echo Q) (f a w₁) (f' a' w₁)) :
    Option.Rel (Echo Q) ((x >>= f) w) ((x' >>= f') w) := by
  apply Run.rel_bind hx
  · intro p p' hrun hp
    rw [hp.world]
    exact hf p.1 p'.1 p.2.1 p.2.2 hrun hp.answer
  · intro p p' q q' hp hq
    have hcalls : Journal.calls (p'.2.2 ++ q'.2.2) = Journal.calls (p.2.2 ++ q.2.2) := by
      rw [Journal.calls_append, Journal.calls_append, hp.calls, hq.calls]
    exact ⟨hq.answer, hq.world, hcalls⟩

theorem bind {x : Run H σ α} {x' : Run H σ α'} {f : α → Run H σ β} {f' : α' → Run H σ β'}
    (hx : Echoes P x x') (hf : ∀ a a', P a a' → Echoes Q (f a) (f' a')) :
    Echoes Q (x >>= f) (x' >>= f') :=
  fun w => bind_at (hx w) fun a a' w₁ _ _ ha => hf a a' ha w₁

/-- After runs with the same answer. -/
theorem bind_same {x x' : Run H σ α} {f : α → Run H σ β} {f' : α → Run H σ β'}
    (hx : Echoes Eq x x') (hf : ∀ a, Echoes Q (f a) (f' a)) : Echoes Q (x >>= f) (x' >>= f') := by
  apply hx.bind
  rintro a _ rfl
  exact hf a

/-- In one world: two activities echo each other if neither is a callback, or both are the same. -/
theorem within_at {s : α → Scope H} {s' : α' → Scope H} {x : Run H σ α} {x' : Run H σ α'}
    {w : World H σ}
    (hs : ∀ a a', P a a' → Moment.call? (.opens (s' a')) = Moment.call? (.opens (s a)))
    (hx : Option.Rel (Echo P) (x w) (x' w)) :
    Option.Rel (Echo P) (Run.within s x w) (Run.within s' x' w) := by
  apply Run.rel_within hx
  intro p p' hp
  constructor
  · exact hp.answer
  · exact hp.world
  · rw [Journal.calls_scope, Journal.calls_scope, hp.calls, hs _ _ hp.answer]

theorem within {s : α → Scope H} {s' : α' → Scope H} {x : Run H σ α} {x' : Run H σ α'}
    (hs : ∀ a a', P a a' → Moment.call? (.opens (s' a')) = Moment.call? (.opens (s a)))
    (hx : Echoes P x x') : Echoes P (Run.within s x) (Run.within s' x') :=
  fun w => within_at hs (hx w)

theorem attempt_within {ε : Type} {s s' : Except ε α → Scope H} {x x' : Attempt H σ ε α}
    (hs : ∀ a, Moment.call? (.opens (s' a)) = Moment.call? (.opens (s a)))
    (hx : Echoes Eq x.run x'.run) : Echoes Eq (x.within s).run (x'.within s').run := by
  refine within ?_ hx
  rintro a _ rfl
  exact hs a

/-- With the same answers, sequences have the rules that all relations between runs share. -/
theorem paired : Paired (· = ·) fun {α} (x x' : Run H σ α) => Echoes Eq x x' where
  alike := .of_eq
  pure _ := refl _
  bind := bind_same
  ask _ _ := refl _
  fresh := refl _
  remember _ := refl _

end Run.Echoes

/-! ## The operations of two views -/

/-- The two views are views of one registry and pass its comparator on alike. They may differ in
what they let their holder do with definitions, and in what they note. -/
structure View.Forwards (v' v : View) : Prop where
  registry : v'.registry = v.registry
  ordering : v'.ordering = v.ordering

namespace View.Forwards

variable {v v' : View} (hv : v'.Forwards v) {call : Call H σ}
include hv

open Run.Echoes (refl record paired)

theorem names (c : Capability) (all eager : Bool) :
    Run.Echoes Eq (v.names c all eager : Run H σ _) (v'.names c all eager) := by
  unfold View.names
  rw [hv.registry]
  exact (record _ _).bind_same fun _ => refl _

theorem isMatch (n : ComponentName) (c : Capability) :
    (v'.isMatch n c : Run H σ Bool) = v.isMatch n c := by
  unfold View.isMatch
  rw [hv.registry]

theorem role? (n : ComponentName) : (v'.role? n : Run H σ (Option Role)) = v.role? n := by
  unfold View.role?
  rw [hv.registry]

theorem interceptorCount : (v'.interceptorCount : Run H σ Nat) = v.interceptorCount := by
  unfold View.interceptorCount
  rw [hv.registry]

theorem comparator? : (v'.comparator? : Run H σ (Option (Comparator H))) = v.comparator? := by
  unfold View.comparator?
  rw [hv.registry, hv.ordering]

theorem sort (l : List (Extension H)) :
    Run.Echoes Eq (v.sort l : Run H σ (List (Extension H))) (v'.sort l) := by
  unfold View.sort
  split
  · exact refl _
  · rw [hv.comparator?]
    apply (refl _).bind_same
    intro c
    cases c with
    | some c => exact (record _ _).bind_same fun _ => refl _
    | none => exact refl _

theorem install (e : Extension H) :
    Run.Echoes Eq (v.install e : Run H σ Unit) (v'.install e) := by
  unfold View.install
  rw [hv.registry]
  exact (record _ _).bind_same fun _ => refl _

theorem installAll (es : List (Extension H)) :
    Run.Echoes Eq (v.installAll es : Run H σ Unit) (v'.installAll es) := by
  induction es with
  | nil => exact refl _
  | cons e rest ih =>
    unfold View.installAll
    split
    · exact (hv.install e).bind_same fun _ => ih
    · exact (refl _).bind_same fun _ => ih

theorem clearCache : Run.Echoes Eq (v.clearCache : Run H σ Unit) v'.clearCache := by
  unfold View.clearCache
  rw [hv.registry]
  exact (record _ _).bind_same fun _ => refl _

/-- Factories are handed the registry itself, whichever view a component is asked for through. -/
theorem resolve (n : ComponentName) :
    Run.Echoes Eq (v.resolve call n).run (v'.resolve call n).run := by
  unfold View.resolve
  rw [hv.registry]
  exact Run.Echoes.attempt_within (fun _ => rfl) (refl _)

theorem fetch (n : ComponentName) (c : Capability) :
    Run.Echoes Eq (v.fetch call n c).run (v'.fetch call n c).run := by
  unfold View.fetch
  apply Run.Echoes.attempt_within
  · exact fun _ => rfl
  · exact paired.attempt_bind (hv.resolve n) fun _ => refl _

theorem fetchAll (c : Capability) (names : List ComponentName) :
    Run.Echoes Eq (v.fetchAll call c names).run (v'.fetchAll call c names).run := by
  induction names with
  | nil => exact refl _
  | cons n rest ih =>
    unfold View.fetchAll
    exact paired.attempt_bind (hv.fetch n c) fun _ => paired.attempt_bind ih fun _ => refl _

theorem preinstantiate :
    Run.Echoes Eq (v.preinstantiate call).run (v'.preinstantiate call).run := by
  unfold View.preinstantiate
  rw [hv.registry]
  exact refl _

theorem divide (c : Capability) (skip : ComponentName → Bool) (names : List ComponentName) :
    Run.Echoes Eq (v.divide call c skip names).run (v'.divide call c skip names).run := by
  induction names with
  | nil => exact refl _
  | cons n rest ih =>
    unfold View.divide
    rw [hv.isMatch, hv.isMatch]
    split
    · exact ih
    · apply paired.attempt_bind (refl _)
      intro isPriority
      split
      · exact paired.attempt_bind (hv.fetch n c) fun _ => paired.attempt_bind ih fun _ => refl _
      · apply paired.attempt_bind (refl _)
        intro isOrdered
        split
        · exact paired.attempt_bind ih fun _ => refl _
        · exact paired.attempt_bind ih fun _ => refl _

/-! ### Interceptors -/

theorem installTier (t : TierClass) (tier : List (Extension H)) :
    Run.Echoes Eq (Registration.installTier v t tier : Run H σ _)
      (Registration.installTier v' t tier) := by
  unfold Registration.installTier
  exact (hv.sort tier).bind_same fun sorted => (refl _).bind_same fun _ =>
    (hv.installAll sorted).bind_same fun _ => refl _

theorem relocate (es : List (Extension H)) :
    Run.Echoes Eq (Registration.relocate v es : Run H σ Unit) (Registration.relocate v' es) := by
  unfold Registration.relocate
  exact (hv.sort es).bind_same fun sorted => (refl _).bind_same fun _ => hv.installAll sorted

theorem fetchTier (names : List ComponentName) :
    Run.Echoes Eq (Registration.fetchTier call v names).run
      (Registration.fetchTier call v' names).run :=
  paired.blame (hv.fetchAll _ names)

theorem installNamed (names : List ComponentName) :
    Run.Echoes Eq (Registration.installNamed call v names).run
      (Registration.installNamed call v' names).run := by
  unfold Registration.installNamed
  apply paired.attempt_bind (paired.blame (hv.divide _ _ names))
  intro tiers
  apply paired.attempt_bind (paired.always (hv.installTier .priority tiers.priority))
  intro priority
  apply paired.attempt_bind (hv.fetchTier tiers.ordered)
  intro ordered
  apply paired.attempt_bind (paired.always (hv.installTier .ordered ordered))
  intro ordered
  apply paired.attempt_bind (hv.fetchTier tiers.unordered)
  intro unordered
  exact paired.attempt_bind (paired.always (hv.installTier .unordered unordered)) fun _ => refl _

theorem registration (context : ObjectId) :
    Run.Echoes Eq (Registration.steps call v context).run
      (Registration.steps call v' context).run := by
  unfold Registration.steps
  rw [hv.interceptorCount]
  apply paired.attempt_bind (paired.always (hv.names _ _ _))
  intro names
  apply paired.attempt_bind (refl _)
  intro count
  apply paired.attempt_bind (refl _)
  intro _
  apply paired.attempt_bind (refl _)
  intro checker
  apply paired.attempt_bind (paired.always (hv.install checker))
  intro _
  apply paired.attempt_bind (hv.installNamed names)
  intro installed
  apply paired.attempt_bind (paired.always (hv.relocate _))
  intro _
  apply paired.attempt_bind (refl _)
  intro detector
  exact paired.attempt_bind (paired.always (hv.install detector)) fun _ => refl _

theorem registerInterceptors (context : ObjectId) :
    Run.Echoes Eq (v.registerInterceptors call context).run
      (v'.registerInterceptors call context).run := by
  unfold View.registerInterceptors
  exact Run.Echoes.attempt_within (fun _ => rfl) (hv.registration context)

end View.Forwards

/-! ## Callbacks that hand their view on -/

/-- What the host answers does not depend on which of two views a callback is given. -/
structure Call.Unaware (call : Call H σ) (v v' : View) : Prop where
  create : ∀ d, Run.Echoes Eq (call (.create d v)) (call (.create d v'))
  mutateFactory : ∀ e, Run.Echoes Eq (call (.mutateFactory e v)) (call (.mutateFactory e v'))
  before : ∀ e i n, Run.Echoes Eq (call (.before e v i n)) (call (.before e v' i n))
  after : ∀ e i n, Run.Echoes Eq (call (.after e v i n)) (call (.after e v' i n))

namespace Call.Unaware

variable {v v' : View} {call : Call H σ} (h : call.Unaware v v') (hv : v'.Forwards v)
include h hv

open Run.Echoes (refl)

theorem perform_create (d : Definition H) :
    Run.Echoes Eq (Callback.perform call (.create d v)) (Callback.perform call (.create d v')) := by
  refine Run.Echoes.within ?_ (h.create d)
  rintro (a | a) _ rfl <;> simp [Moment.call?, Callback.plain, Callback.failure?, hv.registry]

theorem perform_mutateFactory (e : Extension H) :
    Run.Echoes Eq (Callback.perform call (.mutateFactory e v))
      (Callback.perform call (.mutateFactory e v')) := by
  refine Run.Echoes.within ?_ (h.mutateFactory e)
  rintro (a | a) _ rfl <;> simp [Moment.call?, Callback.plain, Callback.failure?, hv.registry]

theorem perform_before (e : Extension H) (i : Instance H) (n : ComponentName) :
    Run.Echoes Eq (Callback.perform call (.before e v i n))
      (Callback.perform call (.before e v' i n)) := by
  have hrespond : Run.Echoes Eq (Callback.respond call (.before e v i n))
      (Callback.respond call (.before e v' i n)) := by
    obtain ⟨id, name, tier, views, _ | _ | _⟩ := e
    · exact h.before _ i n
    · exact refl _
    · exact refl _
  refine Run.Echoes.within ?_ hrespond
  rintro (a | a) _ rfl <;> simp [Moment.call?, Callback.plain, Callback.failure?, hv.registry]

theorem perform_after (e : Extension H) (i : Instance H) (n : ComponentName) :
    Run.Echoes Eq (Callback.perform call (.after e v i n))
      (Callback.perform call (.after e v' i n)) := by
  have hrespond : Run.Echoes Eq (Callback.respond call (.after e v i n))
      (Callback.respond call (.after e v' i n)) := by
    obtain ⟨id, name, tier, views, _ | _ | _⟩ := e
    · exact h.after _ i n
    · -- the checker looks at the registry through its view
      have hchecker : (Checker.after id v' i n : Run H σ Unit) = Checker.after id v i n := by
        unfold Checker.after
        rw [hv.role?, hv.interceptorCount]
      simp only [Callback.respond, hchecker]
      exact refl _
    · exact refl _
  refine Run.Echoes.within ?_ hrespond
  rintro (a | a) _ rfl <;> simp [Moment.call?, Callback.plain, Callback.failure?, hv.registry]

end Call.Unaware

namespace Program

/-- Two programs, one for each of two views, that do the same, each with its own view. They hand
their view on wherever the library does not ask it for more than any view grants: they do not run a
pipeline on it, and they do not ask whether definitions can be changed. -/
inductive Unaware (v v' : View) {α : Type} : Program H σ α → Program H σ α → Prop
  | pure (a : α) : Unaware v v' (.pure a) (.pure a)
  /-- The same request on either side, which has nothing to do with the view. -/
  | ask (q : Request H σ) {next next' : q.Answer → Program H σ α}
      (h : ∀ a, Unaware v v' (next a) (next' a)) : Unaware v v' (.ask q next) (.ask q next')
  | names (c : Capability) (all eager : Bool) {next next' : List ComponentName → Program H σ α}
      (h : ∀ a, Unaware v v' (next a) (next' a)) :
      Unaware v v' (.ask (.names v c all eager) next) (.ask (.names v' c all eager) next')
  | install (e : Extension H) {next next' : Unit → Program H σ α}
      (h : ∀ a, Unaware v v' (next a) (next' a)) :
      Unaware v v' (.ask (.install v e) next) (.ask (.install v' e) next')
  | installAll (es : List (Extension H)) {next next' : Unit → Program H σ α}
      (h : ∀ a, Unaware v v' (next a) (next' a)) :
      Unaware v v' (.ask (.installAll v es) next) (.ask (.installAll v' es) next')
  | clearCache {next next' : Unit → Program H σ α}
      (h : ∀ a, Unaware v v' (next a) (next' a)) :
      Unaware v v' (.ask (.clearCache v) next) (.ask (.clearCache v') next')
  | resolve (n : ComponentName)
      {next next' : Except DependencyError (Instance H) → Program H σ α}
      (h : ∀ a, Unaware v v' (next a) (next' a)) :
      Unaware v v' (.ask (.resolve v n) next) (.ask (.resolve v' n) next')
  | fetch (n : ComponentName) (c : Capability)
      {next next' : Except DependencyError (Extension H) → Program H σ α}
      (h : ∀ a, Unaware v v' (next a) (next' a)) :
      Unaware v v' (.ask (.fetch v n c) next) (.ask (.fetch v' n c) next')
  | preinstantiate {next next' : Except DependencyError Unit → Program H σ α}
      (h : ∀ a, Unaware v v' (next a) (next' a)) :
      Unaware v v' (.ask (.preinstantiate v) next) (.ask (.preinstantiate v') next')
  | registerInterceptors (context : ObjectId)
      {next next' : Except ExtensionError (Registration H) → Program H σ α}
      (h : ∀ a, Unaware v v' (next a) (next' a)) :
      Unaware v v' (.ask (.registerInterceptors v context) next)
        (.ask (.registerInterceptors v' context) next')
  | create (d : Definition H) {next next' : Except Failure (Instance H) → Program H σ α}
      (h : ∀ a, Unaware v v' (next a) (next' a)) :
      Unaware v v' (.ask (.perform (.create d v)) next) (.ask (.perform (.create d v')) next')
  | mutateFactory (e : Extension H) {next next' : Except Failure Unit → Program H σ α}
      (h : ∀ a, Unaware v v' (next a) (next' a)) :
      Unaware v v' (.ask (.perform (.mutateFactory e v)) next)
        (.ask (.perform (.mutateFactory e v')) next')
  | before (e : Extension H) (i : Instance H) (n : ComponentName)
      {next next' : Except Failure (Instance H) → Program H σ α}
      (h : ∀ a, Unaware v v' (next a) (next' a)) :
      Unaware v v' (.ask (.perform (.before e v i n)) next)
        (.ask (.perform (.before e v' i n)) next')
  | after (e : Extension H) (i : Instance H) (n : ComponentName)
      {next next' : Except Failure (Instance H) → Program H σ α}
      (h : ∀ a, Unaware v v' (next a) (next' a)) :
      Unaware v v' (.ask (.perform (.after e v i n)) next)
        (.ask (.perform (.after e v' i n)) next')

theorem Unaware.echoes {v v' : View} (hv : v'.Forwards v) {call : Call H σ}
    (hcall : call.Unaware v v') (depth : Nat) {α : Type} {x x' : Program H σ α}
    (h : x.Unaware v v' x') : Run.Echoes Eq (x.run call depth) (x'.run call depth) := by
  induction h with
  | pure a => exact .refl _
  | ask q _ ih => exact (Run.Echoes.refl (q.run call depth)).bind_same ih
  | names c all eager _ ih => exact (hv.names c all eager).bind_same ih
  | install e _ ih => exact (hv.install e).bind_same ih
  | installAll es _ ih => exact (hv.installAll es).bind_same ih
  | clearCache _ ih => exact hv.clearCache.bind_same ih
  | resolve n _ ih => exact (hv.resolve n).bind_same ih
  | fetch n c _ ih => exact (hv.fetch n c).bind_same ih
  | preinstantiate _ ih => exact hv.preinstantiate.bind_same ih
  | registerInterceptors context _ ih => exact (hv.registerInterceptors context).bind_same ih
  | create d _ ih => exact (hcall.perform_create hv d).bind_same ih
  | mutateFactory e _ ih => exact (hcall.perform_mutateFactory hv e).bind_same ih
  | before e i n _ ih => exact (hcall.perform_before hv e i n).bind_same ih
  | after e i n _ ih => exact (hcall.perform_after hv e i n).bind_same ih

end Program

/-- The programs of a behaviour do the same with either of two views, as far as a callback may be
given either of them. -/
structure Behaviour.Unaware (b : Behaviour H σ) (v v' : View) : Prop where
  create : ∀ d, (b (.create d v)).Unaware v v' (b (.create d v'))
  mutateFactory : ∀ e, (b (.mutateFactory e v)).Unaware v v' (b (.mutateFactory e v'))
  before : ∀ e i n, (b (.before e v i n)).Unaware v v' (b (.before e v' i n))
  after : ∀ e i n, (b (.after e v i n)).Unaware v v' (b (.after e v' i n))

theorem Behaviour.Unaware.call {b : Behaviour H σ} {v v' : View} (hb : b.Unaware v v')
    (hv : v'.Forwards v) (depth : Nat) : (b.call depth).Unaware v v' := by
  induction depth with
  | zero => constructor <;> intros <;> exact .refl _
  | succ depth ih =>
    constructor
    · exact fun d => (hb.create d).echoes hv ih depth
    · exact fun e => (hb.mutateFactory e).echoes hv ih depth
    · exact fun e i n => (hb.before e i n).echoes hv ih depth
    · exact fun e i n => (hb.after e i n).echoes hv ih depth

end Startup
