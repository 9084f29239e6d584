import Startup.Proofs.Pipeline.Fetches

/-!
A run of the pipeline seen from its fetches. What a stage promises of each of its fetches may depend
on all that the run has noted before, so a stage is given what holds of that, and tells what holds
when it is over.

Main statements: `Stage.Walks.bind`, by which what holds at each fetch is shown stage by stage, and
one rule for each stage that fetches nothing.
-/

namespace Startup

variable {H : Host} {σ : Type}

namespace Stage

variable {α β : Type}

theorem attempt_pure (a : α) :
    (attempt (pure a) : Stage H σ α) = pure a := rfl

theorem attempt_always (x : Run H σ α) : attempt (Attempt.always x) = Stage.always x := by
  funext i
  show (attempt (Attempt.always x)).on i = (Stage.always x).on i
  rw [on_attempt, on_always, Attempt.always, ExceptT.run_lift, map_eq_pure_bind, bind_assoc]
  simp only [pure_bind]
  rfl

theorem attempt_bind (x : Attempt H σ DependencyError α)
    (f : α → Attempt H σ DependencyError β) :
    attempt (x >>= f) = attempt x >>= fun a => attempt (f a) := by
  funext i
  show (attempt (x >>= f)).on i = (attempt x >>= fun a => attempt (f a)).on i
  rw [on_attempt, on_bind, on_attempt, Attempt.run_bind, bind_assoc, bind_assoc]
  congr 1
  funext a
  cases a with
  | error e => rfl
  | ok a =>
    rw [pure_bind]
    exact (on_attempt (f a) i).symm

/-- What a stage of a run that began with registry `s` does, if `pre` holds of all that the run had
noted before and its fetches are sound: each of them has the property `P`, and in case of success
`post` holds of its value and of all that the run has noted then. -/
structure Walks (v : View) (s : Registry H) (P : Fetching H → Prop) (x : Stage H σ α)
    (pre : Journal H → Prop) (post : α → Journal H → Prop) : Prop where
  tracks (i : Invocation) : Tracks v.registry (x.on i)
  fetches {i i' : Invocation} {w w' : World H σ} {a : Except ExtensionError α}
    {past j : Journal H} (h : x.on i w = some ((a, i'), w', j))
    (hw : w.Stands v.registry s past) (hpre : pre past)
    (hsound : ∀ f ∈ Journal.fetchings past j, f.Sound v.registry s) :
    (∀ f ∈ Journal.fetchings past j, P f) ∧ ∀ b, a = .ok b → post b (past ++ j)

namespace Walks

variable {v : View} {s : Registry H} {P : Fetching H → Prop} {pre : Journal H → Prop}

theorem bind {x : Stage H σ α} {f : α → Stage H σ β} {M : α → Journal H → Prop}
    {post : β → Journal H → Prop} (hx : Walks v s P x pre M)
    (hf : ∀ a, Walks v s P (f a) (M a) post) : Walks v s P (x >>= f) pre post where
  tracks i := by
    rw [on_bind]
    refine (hx.tracks i).bind fun p => ?_
    rcases p with ⟨_ | a, i'⟩
    · exact Tracks.pure _
    · exact (hf a).tracks i'
  fetches {i i' w w' b past j} h hw hpre hsound := by
    rw [on_bind] at h
    obtain ⟨⟨a, i₁⟩, w₁, j₁, j₂, h₁, h₂, rfl⟩ := Run.bind_eq_some.1 h
    obtain ⟨hsound₁, hsound₂⟩ := Journal.forall_fetchings_append.1 hsound
    obtain ⟨hfirst, hmid⟩ := hx.fetches h₁ hw hpre hsound₁
    rw [Journal.forall_fetchings_append, ← List.append_assoc]
    cases a with
    | error e =>
      cases h₂
      exact ⟨⟨hfirst, fun _ hg => absurd hg List.not_mem_nil⟩, nofun⟩
    | ok a =>
      obtain ⟨hsecond, hpost⟩ :=
        (hf a).fetches h₂ ((hx.tracks i).stands h₁ hw) (hmid a rfl) hsound₂
      exact ⟨⟨hfirst, hsecond⟩, hpost⟩

/-- Whatever fetches nothing. -/
theorem of_unfetched {x : Stage H σ α} {post : α → Journal H → Prop}
    (hx : ∀ i, Tracks v.registry (x.on i))
    (h : ∀ i w a i' w' past j, x.on i w = some ((a, i'), w', j) → w.Stands v.registry s past →
      pre past → j.Unfetched ∧ ∀ b, a = .ok b → post b (past ++ j)) : Walks v s P x pre post where
  tracks := hx
  fetches {i i' w w' a past j} hrun hw hpre _ := by
    obtain ⟨hj, hpost⟩ := h i w a i' w' past j hrun hw hpre
    rw [hj.fetchings]
    exact ⟨fun _ hf => absurd hf List.not_mem_nil, hpost⟩

theorem mono {x : Stage H σ α} {A A' : Journal H → Prop} {B B' : α → Journal H → Prop}
    (hx : Walks v s P x A B) (hpre : ∀ past, A' past → A past)
    (hpost : ∀ b past, B b past → B' b past) : Walks v s P x A' B' where
  tracks := hx.tracks
  fetches h hw hp hsound := by
    obtain ⟨hall, hlast⟩ := hx.fetches h hw (hpre _ hp) hsound
    exact ⟨hall, fun b hb => hpost b _ (hlast b hb)⟩

/-- What does not depend on the journal stays. -/
theorem frame (F : Prop) {x : Stage H σ α} {post : α → Journal H → Prop}
    (hx : Walks v s P x pre post) :
    Walks v s P x (fun past => F ∧ pre past) fun b past => F ∧ post b past where
  tracks := hx.tracks
  fetches h hw hp hsound := by
    obtain ⟨hall, hlast⟩ := hx.fetches h hw hp.2 hsound
    exact ⟨hall, fun b hb => ⟨hp.1, hlast b hb⟩⟩

/-- What holds for each of many preconditions holds for one of them. -/
theorem exists_pre {ι : Type} [Inhabited ι] {x : Stage H σ α} {pre : ι → Journal H → Prop}
    {post : α → Journal H → Prop} (hx : ∀ k, Walks v s P x (pre k) post) :
    Walks v s P x (fun past => ∃ k, pre k past) post where
  tracks := (hx default).tracks
  fetches h hw hp hsound := by
    obtain ⟨k, hk⟩ := hp
    exact (hx k).fetches h hw hk hsound

end Walks

/-- What holds of a journal and of all that continue it. -/
def Lasting (pre : Journal H → Prop) : Prop := ∀ past j, pre past → pre (past ++ j)

namespace Walks

variable {v : View} {s : Registry H} {P : Fetching H → Prop} {pre : Journal H → Prop}
  {call : Call H σ}

theorem done (a : α) {post : α → Journal H → Prop} (hpost : ∀ past, pre past → post a past) :
    Walks v s P (Pure.pure a : Stage H σ α) pre post :=
  of_unfetched (fun _ => Tracks.pure _) fun i w b i' w' past j h hw hpre => by
    cases h
    refine ⟨.nil, fun b hb => ?_⟩
    cases hb
    exact (List.append_nil past).symm ▸ hpost past hpre

theorem pure (a : α) : Walks v s P (Pure.pure a : Stage H σ α) pre fun _ => pre :=
  done a fun _ => id

theorem throw (e : ExtensionError) {post : α → Journal H → Prop} :
    Walks v s P (throw e : Stage H σ α) pre post :=
  of_unfetched (fun _ => Tracks.pure _) fun i w b i' w' past j h hw hpre => by
    cases h
    exact ⟨.nil, nofun⟩

theorem get : Walks v s P (MonadState.get : Stage H σ Invocation) pre fun _ => pre :=
  of_unfetched (fun _ => Tracks.pure _) fun i w b i' w' past j h hw hpre => by
    cases h
    exact ⟨.nil, fun _ _ => (List.append_nil past).symm ▸ hpre⟩

theorem edit (f : Invocation → Invocation) :
    Walks v s P (modify f : Stage H σ Unit) pre fun _ => pre :=
  of_unfetched (fun _ => Tracks.pure _) fun i w b i' w' past j h hw hpre => by
    cases h
    exact ⟨.nil, fun _ _ => (List.append_nil past).symm ▸ hpre⟩

/-- A run on the account of a stage that fetches nothing. -/
theorem always (hpre : Lasting pre) {x : Run H σ α} (hx : Tracks v.registry x)
    (hj : ∀ w a w' j, x w = some (a, w', j) → Journal.Unfetched j) :
    Walks v s P (Stage.always x) pre fun _ => pre := by
  refine of_unfetched (fun i => ?_) fun i w b i' w' past j h hw hp => ?_
  · rw [on_always]
    exact hx.bind fun _ => Tracks.pure _
  · rw [on_always] at h
    obtain ⟨a, w₁, j₁, j₂, h₁, h₂, rfl⟩ := Run.bind_eq_some.1 h
    cases h₂
    rw [List.append_nil]
    exact ⟨hj w a _ j₁ h₁, fun _ _ => hpre _ _ hp⟩

theorem record (hpre : Lasting pre) {f : Fact H} (hf : f.IsAside) :
    Walks v s P (Stage.always (Run.record f) : Stage H σ Unit) pre fun _ => pre :=
  always hpre (Tracks.record hf) fun w a w' j h => by
    cases h
    exact .fact f

theorem sort (hpre : Lasting pre)
    (hc : Closed call (fun {α} (x : Run H σ α) => Tracks v.registry x))
    (l : List (Extension H)) :
    Walks v s P (Stage.always (v.sort l) : Stage H σ _) pre fun _ => pre :=
  always hpre (hc.sort v l) fun _ _ _ _ h => (View.sort_eq_some h).2.2.1.unfetched

theorem enter (hpre : Lasting pre) (p : Phase) :
    Walks v s P (Stage.enter p : Stage H σ Unit) pre fun _ => pre := by
  refine bind get fun i => ?_
  split
  · exact bind (record hpre trivial) fun _ => edit _
  · exact pure ()

/-- A callback, put under an entry of its own. -/
theorem mutation (hpre : Lasting pre)
    (hc : Closed call (fun {α} (x : Run H σ α) => Tracks v.registry x)) (cb : Callback H)
    {p : MutationPhase} {e : Extension H} {outcome : cb.Answer → MutationOutcome} :
    Walks v s P (Stage.always (Run.within (fun x => .mutation p e (outcome x)) (cb.perform call)))
      pre fun _ => pre :=
  always hpre (hc.within _ (fun _ => trivial) (hc.perform cb)) fun w a w' j h => by
    obtain ⟨body, -, rfl⟩ := Run.within_eq_some.1 h
    intro e' he' before
    rw [List.mem_singleton.1 he']
    rfl

section Callbacks

variable (hpre : Lasting pre)
  (hc : Closed call (fun {α} (x : Run H σ α) => Tracks v.registry x))
include hpre hc

theorem callDefinition (e : Extension H) :
    Walks v s P (Pipeline.callDefinition call v e) pre fun _ => pre := by
  unfold Pipeline.callDefinition
  split
  · refine bind (mutation hpre hc (.mutateDefinitions e v)) fun r => ?_
    cases r with
    | error f => exact throw _
    | ok _ => exact edit _
  · exact pure ()

theorem callFactory (e : Extension H) :
    Walks v s P (Pipeline.callFactory call v e) pre fun _ => pre := by
  unfold Pipeline.callFactory
  split
  · refine bind (mutation hpre hc (.mutateFactory e v)) fun r => ?_
    cases r with
    | error f => exact throw _
    | ok _ => exact edit _
  · refine always hpre (hc.within _ (fun _ => trivial) (hc.pure ())) fun w a w' j h => ?_
    obtain ⟨body, -, rfl⟩ := Run.within_eq_some.1 h
    intro e' he' before
    rw [List.mem_singleton.1 he']
    rfl

theorem callDefinitions (es : List (Extension H)) :
    Walks v s P (Pipeline.callDefinitions call v es) pre fun _ => pre := by
  induction es with
  | nil => exact pure ()
  | cons e rest ih => exact bind (callDefinition hpre hc e) fun _ => ih

theorem callFactories (es : List (Extension H)) :
    Walks v s P (Pipeline.callFactories call v es) pre fun _ => pre := by
  induction es with
  | nil => exact pure ()
  | cons e rest ih => exact bind (callFactory hpre hc e) fun _ => ih

theorem separate (es : List (Extension H)) :
    Walks v s P (Pipeline.separate call v es) pre fun _ => pre := by
  induction es with
  | nil => exact pure _
  | cons e rest ih =>
    unfold Pipeline.separate
    split
    · exact bind (callDefinition hpre hc e) fun _ => bind ih fun _ => pure _
    · split
      · exact bind ih fun _ => pure _
      · exact bind (record hpre trivial) fun _ => ih

theorem runTier (tier : List (Extension H)) :
    Walks v s P (Pipeline.runTier call v tier) pre fun _ => pre :=
  bind (sort hpre hc tier) fun sorted => bind (callDefinitions hpre hc sorted) fun _ => pure _

end Callbacks

end Walks

end Stage

end Startup
