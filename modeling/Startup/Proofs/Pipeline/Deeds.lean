import Startup.Pipeline.Basic

/-!
What a run of the pipeline does on its own account: the phases it enters, the components it
fetches and the callbacks it makes. They are read off the entries that stand directly below the
entry of the run; what happens inside a callback is not the run's own deed, even where it is
another run of the pipeline.

Main statements: `deeds_append`, and the rules for `Run.Leaves`, `Attempt.Leaves` and
`Stage.Leaves`, by which the deeds of a sequence are found part by part.
-/

namespace Startup

variable {H : Host} {σ : Type}

/-! ## Deeds -/

inductive Deed (H : Host) where
  | entered (p : Phase)
  | fetched (n : ComponentName) (c : Capability) (result : Except DependencyError (Extension H))
  /-- A mutation callback was made, and failed or did not. -/
  | called (p : MutationPhase) (e : Extension H) (failure? : Option Failure)

/-- The capability that is asked for in a phase. -/
def MutationPhase.capability : MutationPhase → Capability
  | definition => .definitionMutator
  | factory => .factoryMutator

/-- The deed behind an entry. A callback is read off the entry that the call itself left. -/
def Event.deed? : Event H → Option (Deed H)
  | .fact (.phaseChanged _ p) => some (.entered p)
  | .scope (.fetch _ n c result) _ => some (.fetched n c result)
  | .scope (.mutation ..) [.scope (.call (.mutateDefinitions e v) a) _] =>
    some (.called .definition e (Callback.failure? (.mutateDefinitions e v) a))
  | .scope (.mutation ..) [.scope (.call (.mutateFactory e v) a) _] =>
    some (.called .factory e (Callback.failure? (.mutateFactory e v) a))
  | _ => none

/-- The deeds that the entries of a journal tell of, leaving aside what is inside of them. -/
def Journal.deeds (j : Journal H) : List (Deed H) := j.filterMap Event.deed?

theorem Journal.deeds_append (j k : Journal H) :
    Journal.deeds (j ++ k) = Journal.deeds j ++ Journal.deeds k :=
  List.filterMap_append

namespace Deed

/-- Callbacks of a phase, all of which succeeded. -/
def calls (p : MutationPhase) (es : List (Extension H)) : List (Deed H) :=
  es.map fun e => .called p e none

/-- Fetches that succeeded. -/
def fetches (c : Capability) (found : List (ComponentName × Extension H)) : List (Deed H) :=
  found.map fun q => .fetched q.1 c (.ok q.2)

def fetchedName? : Deed H → Option ComponentName
  | .fetched n _ _ => some n
  | _ => none

/-- The names of the components that are fetched, whether that succeeds or not. -/
def fetchedNames (ds : List (Deed H)) : List ComponentName := ds.filterMap fetchedName?

/-- The phase of a callback. -/
def phase? : Deed H → Option MutationPhase
  | .called p _ _ => some p
  | _ => none

/-- The callbacks among some deeds. -/
def callbacks (ds : List (Deed H)) : List (Deed H) := ds.filter (·.phase?.isSome)

/-- A deed that belongs to a phase. The factory phase begins where it is entered. -/
def Within (p : MutationPhase) : Deed H → Prop
  | .entered q => q = .factoryCallbacks → p = .factory
  | .fetched _ c _ => c = p.capability
  | .called q _ _ => q = p

theorem within_fetches (p : MutationPhase) (found : List (ComponentName × Extension H)) :
    ∀ d ∈ fetches p.capability found, d.Within p := by
  intro d hd
  obtain ⟨q, -, rfl⟩ := List.mem_map.1 hd
  rfl

theorem within_calls (p : MutationPhase) (es : List (Extension H)) :
    ∀ d ∈ calls p es, d.Within p := by
  intro d hd
  obtain ⟨e, -, rfl⟩ := List.mem_map.1 hd
  rfl

theorem calls_append (p : MutationPhase) (es es' : List (Extension H)) :
    calls p (es ++ es') = calls p es ++ calls p es' := List.map_append

@[simp] theorem fetchedNames_nil : fetchedNames ([] : List (Deed H)) = [] := rfl

@[simp] theorem fetchedNames_append (ds ds' : List (Deed H)) :
    fetchedNames (ds ++ ds') = fetchedNames ds ++ fetchedNames ds' :=
  List.filterMap_append

@[simp] theorem fetchedNames_entered (p : Phase) (ds : List (Deed H)) :
    fetchedNames (.entered p :: ds) = fetchedNames ds := rfl

@[simp] theorem fetchedNames_calls (p : MutationPhase) (es : List (Extension H)) :
    fetchedNames (calls p es) = [] := by
  simp [fetchedNames, calls, List.filterMap_map, fetchedName?, Function.comp_def]

@[simp] theorem fetchedNames_fetches (c : Capability)
    (found : List (ComponentName × Extension H)) :
    fetchedNames (fetches c found) = found.map Prod.fst := by
  simp [fetchedNames, fetches, List.filterMap_map, fetchedName?, Function.comp_def]

@[simp] theorem callbacks_append (ds ds' : List (Deed H)) :
    callbacks (ds ++ ds') = callbacks ds ++ callbacks ds' := List.filter_append ..

@[simp] theorem callbacks_entered (p : Phase) (ds : List (Deed H)) :
    callbacks (.entered p :: ds) = callbacks ds := rfl

@[simp] theorem callbacks_calls (p : MutationPhase) (es : List (Extension H)) :
    callbacks (calls p es) = calls p es := by
  apply List.filter_eq_self.2
  intro d hd
  obtain ⟨e, -, rfl⟩ := List.mem_map.1 hd
  rfl

end Deed

/-! ## The deeds of runs -/

/-- What holds of every finished run that begins in a world: its value, the world after it and
the deeds it left. -/
def Run.Leaves {α : Type} (x : Run H σ α) (w : World H σ)
    (post : α → World H σ → List (Deed H) → Prop) : Prop :=
  ∀ a w' j, x w = some (a, w', j) → post a w' (Journal.deeds j)

/-- A postcondition for success, and one for failure. -/
def Ends {ε α : Type} (ok : α → Prop) (error : Prop) : Except ε α → Prop
  | .ok a => ok a
  | .error _ => error

namespace Run

variable {α β : Type} {w : World H σ} {post : α → World H σ → List (Deed H) → Prop}

theorem Leaves.mono {x : Run H σ α} {post' : α → World H σ → List (Deed H) → Prop}
    (h : x.Leaves w post) (hpost : ∀ a w' ds, post a w' ds → post' a w' ds) :
    x.Leaves w post' :=
  fun a w' j hx => hpost _ _ _ (h a w' j hx)

theorem Leaves.pure {a : α} (h : post a w []) : (Pure.pure a : Run H σ α).Leaves w post := by
  intro b w' j hx
  obtain ⟨rfl, rfl, rfl⟩ := Run.pure_eq_some.1 hx
  exact h

theorem Leaves.bind {x : Run H σ β} {f : β → Run H σ α}
    {mid : β → World H σ → List (Deed H) → Prop} (hx : x.Leaves w mid)
    (hf : ∀ b w₁ ds₁, mid b w₁ ds₁ → (f b).Leaves w₁ fun a w' ds => post a w' (ds₁ ++ ds)) :
    (x >>= f).Leaves w post := by
  intro a w' j h
  obtain ⟨b, w₁, j₁, j₂, h₁, h₂, rfl⟩ := Run.bind_eq_some.1 h
  rw [Journal.deeds_append]
  exact hf b w₁ _ (hx b w₁ j₁ h₁) a w' j₂ h₂

theorem Leaves.within {s : α → Scope H} {x : Run H σ α}
    (h : ∀ a w' j, x w = some (a, w', j) → post a w' (Journal.deeds [.scope (s a) j])) :
    (Run.within s x).Leaves w post := by
  intro a w' j hx
  obtain ⟨j', hx', rfl⟩ := Run.within_eq_some.1 hx
  exact h a w' j' hx'

end Run

/-! ## The deeds of attempts -/

namespace Attempt

variable {ε α β : Type} {Q : α → List (Deed H) → Prop} {E : List (Deed H) → Prop}

/-- What holds of every finished attempt: in case of success of its value and its deeds, in case
of failure of its deeds. -/
def Leaves (x : Attempt H σ ε α) (Q : α → List (Deed H) → Prop)
    (E : List (Deed H) → Prop) : Prop :=
  ∀ w, Run.Leaves x.run w fun r _ ds => Ends (fun a => Q a ds) (E ds) r

theorem Leaves.pure {a : α} (h : Q a []) : (Pure.pure a : Attempt H σ ε α).Leaves Q E :=
  fun _ => Run.Leaves.pure h

theorem Leaves.bind {x : Attempt H σ ε β} {f : β → Attempt H σ ε α}
    {M : β → List (Deed H) → Prop} {F : List (Deed H) → Prop} (hx : x.Leaves M F)
    (hf : ∀ b ds₁, M b ds₁ →
      (f b).Leaves (fun a ds => Q a (ds₁ ++ ds)) fun ds => E (ds₁ ++ ds))
    (herror : ∀ ds, F ds → E ds) : (x >>= f).Leaves Q E := by
  intro w
  rw [Attempt.run_bind]
  refine Run.Leaves.bind (hx w) fun r w₁ ds₁ hr => ?_
  cases r with
  | ok b => exact hf b ds₁ hr w₁
  | error e => exact Run.Leaves.pure (by rw [List.append_nil]; exact herror ds₁ hr)

/-- Whatever cannot fail and does nothing on the account of a pipeline. -/
theorem Leaves.silent_bind {x : Run H σ β} {f : β → Attempt H σ ε α}
    (hx : ∀ w, x.Leaves w fun _ _ ds => ds = []) (hf : ∀ b, (f b).Leaves Q E) :
    (always x >>= f).Leaves Q E := by
  intro w
  rw [Attempt.run_bind_always]
  refine Run.Leaves.bind (hx w) fun b w₁ ds₁ hds => ?_
  subst hds
  exact hf b w₁

end Attempt

/-! ## The deeds of stages -/

namespace Stage

variable {α β : Type} {s : Invocation} {w : World H σ}
  {Q : α → Invocation → World H σ → List (Deed H) → Prop} {E : List (Deed H) → Prop}

/-- What holds of every finished run of a stage that begins in a state of its pipeline and in a
world: in case of success of its value, of the state and the world after it and of its deeds, in
case of failure of its deeds. -/
def Leaves (x : Stage H σ α) (s : Invocation) (w : World H σ)
    (Q : α → Invocation → World H σ → List (Deed H) → Prop)
    (E : List (Deed H) → Prop) : Prop :=
  (x.on s).Leaves w fun p w' ds => Ends (fun a => Q a p.2 w' ds) (E ds) p.1

theorem Leaves.mono {x : Stage H σ α}
    {Q' : α → Invocation → World H σ → List (Deed H) → Prop} {F : List (Deed H) → Prop}
    (h : x.Leaves s w Q E) (hok : ∀ a s' w' ds, Q a s' w' ds → Q' a s' w' ds)
    (herror : ∀ ds, E ds → F ds) : x.Leaves s w Q' F := by
  refine Run.Leaves.mono h fun p w' ds hp => ?_
  rcases p with ⟨_ | _, s'⟩
  · exact herror ds hp
  · exact hok _ _ _ _ hp

theorem Leaves.pure {a : α} (h : Q a s w []) :
    (Pure.pure a : Stage H σ α).Leaves s w Q E :=
  Run.Leaves.pure h

theorem Leaves.throw {e : ExtensionError} (h : E []) :
    (throw e : Stage H σ α).Leaves s w Q E :=
  Run.Leaves.pure h

theorem Leaves.bind {x : Stage H σ β} {f : β → Stage H σ α}
    {M : β → Invocation → World H σ → List (Deed H) → Prop} {F : List (Deed H) → Prop}
    (hx : x.Leaves s w M F)
    (hf : ∀ b s₁ w₁ ds₁, M b s₁ w₁ ds₁ →
      (f b).Leaves s₁ w₁ (fun a s' w' ds => Q a s' w' (ds₁ ++ ds)) fun ds => E (ds₁ ++ ds))
    (herror : ∀ ds, F ds → E ds) : (x >>= f).Leaves s w Q E := by
  unfold Leaves
  rw [Stage.on_bind]
  refine Run.Leaves.bind hx fun p w₁ ds₁ hp => ?_
  rcases p with ⟨_ | b, s₁⟩
  · exact Run.Leaves.pure (by rw [List.append_nil]; exact herror ds₁ hp)
  · exact hf b s₁ w₁ ds₁ hp

theorem Leaves.modify_bind {f : Invocation → Invocation} {g : Unit → Stage H σ α}
    (h : (g ()).Leaves (f s) w Q E) : (modify f >>= g).Leaves s w Q E := by
  unfold Leaves
  rw [Stage.on_bind, Stage.on_modify, pure_bind]
  exact h

theorem Leaves.modify {f : Invocation → Invocation}
    {Q : Unit → Invocation → World H σ → List (Deed H) → Prop} (h : Q () (f s) w []) :
    (modify f : Stage H σ Unit).Leaves s w Q E :=
  Run.Leaves.pure h

theorem Leaves.get_bind {g : Invocation → Stage H σ α} (h : (g s).Leaves s w Q E) :
    (get >>= g).Leaves s w Q E := by
  unfold Leaves
  rw [Stage.on_bind, Stage.on_get, pure_bind]
  exact h

theorem Leaves.always {x : Run H σ α} (h : x.Leaves w fun a w' ds => Q a s w' ds) :
    (Stage.always x).Leaves s w Q E := by
  unfold Leaves
  rw [Stage.on_always]
  refine Run.Leaves.bind h fun a w₁ ds₁ hds => Run.Leaves.pure ?_
  rw [List.append_nil]
  exact hds

theorem Leaves.always_bind {x : Run H σ β} {f : β → Stage H σ α}
    {M : β → World H σ → List (Deed H) → Prop} (hx : x.Leaves w M)
    (hf : ∀ b w₁ ds₁, M b w₁ ds₁ →
      (f b).Leaves s w₁ (fun a s' w' ds => Q a s' w' (ds₁ ++ ds)) fun ds => E (ds₁ ++ ds)) :
    (Stage.always x >>= f).Leaves s w Q E := by
  unfold Leaves
  rw [Stage.on_bind, Stage.on_always, bind_assoc]
  refine Run.Leaves.bind hx fun b w₁ ds₁ hds => ?_
  rw [pure_bind]
  exact hf b w₁ ds₁ hds

/-- Whatever cannot fail and does nothing on the account of the pipeline. -/
theorem Leaves.silent_bind {x : Run H σ β} {f : β → Stage H σ α} {M : β → World H σ → Prop}
    (hx : x.Leaves w fun b w' ds => M b w' ∧ ds = [])
    (hf : ∀ b w₁, M b w₁ → (f b).Leaves s w₁ Q E) :
    (Stage.always x >>= f).Leaves s w Q E := by
  apply Leaves.always_bind hx
  intro b w₁ ds₁ hds
  obtain ⟨hmid, rfl⟩ := hds
  exact hf b w₁ hmid

theorem Leaves.attempt {x : Attempt H σ DependencyError α} {post : α → List (Deed H) → Prop}
    (h : x.Leaves post E) :
    (Stage.attempt x).Leaves s w (fun a s' _ ds => s' = s ∧ post a ds) E := by
  unfold Leaves
  rw [Stage.on_attempt]
  refine Run.Leaves.bind (h w) fun r w₁ ds₁ hr => Run.Leaves.pure ?_
  rw [List.append_nil]
  cases r with
  | ok a => exact ⟨rfl, hr⟩
  | error e => exact hr

end Stage

end Startup
