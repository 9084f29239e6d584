import Startup.Ordering

/-!
Steps of a run of the mutator pipeline. Beside the world, a step has the state of its run: which
names were processed, and the report so far. Both are the run's own; no callback can reach them,
and they survive a failure.
-/

namespace Startup

structure Invocation where
  /-- Components whose extension the run has fetched. -/
  processed : List ComponentName := []
  report : Report := {}
  deriving Inhabited

abbrev Stage (H : Host) (σ α : Type) := ExceptT ExtensionError (StateT Invocation (Run H σ)) α

namespace Stage

variable {H : Host} {σ α β : Type}

/-- A run that cannot fail. -/
def always (x : Run H σ α) : Stage H σ α := ExceptT.lift (StateT.lift x)

/-- A run that ends with a value or an error. -/
def of (x : Run H σ (Except ExtensionError α)) : Stage H σ α := ExceptT.mk (StateT.lift x)

/-- An attempt to get components. -/
def attempt (x : Attempt H σ DependencyError α) : Stage H σ α := of (x.blame .dependency).run

def isProcessed (n : ComponentName) : Stage H σ Bool := do
  return n ∈ (← get).processed

def markProcessed (n : ComponentName) : Stage H σ Unit :=
  modify fun s => { s with processed := s.processed ++ [n] }

def updateReport (f : Report → Report) : Stage H σ Unit :=
  modify fun s => { s with report := f s.report }

def enter (p : Phase) : Stage H σ Unit := do
  let s ← get
  if s.report.phase ≠ p then
    always (Run.record (.phaseChanged s.report.phase p))
    updateReport ({ · with phase := p })

/-! ## Stages as runs -/

/-- The run of a stage that begins in a state of its pipeline. -/
def on (x : Stage H σ α) (s : Invocation) : Run H σ (Except ExtensionError α × Invocation) :=
  x.run.run s

theorem on_pure (a : α) (s : Invocation) :
    (pure a : Stage H σ α).on s = pure (.ok a, s) := rfl

theorem on_throw (e : ExtensionError) (s : Invocation) :
    (throw e : Stage H σ α).on s = pure (.error e, s) := rfl

theorem on_bind (x : Stage H σ α) (f : α → Stage H σ β) (s : Invocation) :
    (x >>= f).on s = x.on s >>= fun
      | (.ok a, s') => (f a).on s'
      | (.error e, s') => pure (.error e, s') := by
  rw [on, ExceptT.run_bind, StateT.run_bind]
  congr 1
  funext p
  rcases p with ⟨_ | _, _⟩ <;> rfl

/-- A sequence that succeeds is two stages that do, and their entries stand one after the other. -/
theorem bind_eq_ok {x : Stage H σ α} {f : α → Stage H σ β} {s s₂ : Invocation}
    {w w₂ : World H σ} {b : β} {j : Journal H} :
    (x >>= f).on s w = some ((.ok b, s₂), w₂, j) ↔
      ∃ a s₁ w₁ j₁ j₂, x.on s w = some ((.ok a, s₁), w₁, j₁) ∧
        (f a).on s₁ w₁ = some ((.ok b, s₂), w₂, j₂) ∧ j = j₁ ++ j₂ := by
  rw [on_bind, Run.bind_eq_some]
  constructor
  · rintro ⟨⟨_ | a, s₁⟩, w₁, j₁, j₂, hx, hf, hj⟩
    · cases (Run.pure_eq_some.1 hf).1
    · exact ⟨a, s₁, w₁, j₁, j₂, hx, hf, hj⟩
  · rintro ⟨a, s₁, w₁, j₁, j₂, hx, hf, hj⟩
    exact ⟨(.ok a, s₁), w₁, j₁, j₂, hx, hf, hj⟩

theorem on_always (x : Run H σ α) (s : Invocation) :
    (always x).on s = x >>= fun a => pure (.ok a, s) := by
  simp [always, on, ExceptT.lift, ExceptT.run_mk, StateT.run_map]

theorem on_of (x : Run H σ (Except ExtensionError α)) (s : Invocation) :
    (of x).on s = x >>= fun r => pure (r, s) := rfl

theorem on_get (s : Invocation) : (get : Stage H σ Invocation).on s = pure (.ok s, s) := rfl

theorem on_modify (f : Invocation → Invocation) (s : Invocation) :
    (modify f : Stage H σ Unit).on s = pure (.ok (), f s) := rfl

theorem on_attempt (x : Attempt H σ DependencyError α) (s : Invocation) :
    (attempt x).on s = x.run >>= fun r => pure (r.mapError .dependency, s) := by
  show (Except.mapError ExtensionError.dependency <$> x.run) >>= (fun r => pure (r, s)) = _
  rw [map_eq_pure_bind, bind_assoc]
  simp only [pure_bind]

theorem on_isProcessed (n : ComponentName) (s : Invocation) :
    (isProcessed n : Stage H σ Bool).on s = pure (.ok (decide (n ∈ s.processed)), s) := by
  simp only [isProcessed, on_bind, on_get, pure_bind]
  rfl

theorem on_enter (p : Phase) (s : Invocation) :
    (enter p : Stage H σ Unit).on s =
      if s.report.phase = p then pure (.ok (), s)
      else do
        Run.record (.phaseChanged s.report.phase p)
        return (.ok (), { s with report := { s.report with phase := p } }) := by
  simp only [enter, on_bind, on_get, pure_bind]
  by_cases h : s.report.phase = p
  · simp only [ne_eq, h, not_true_eq_false, if_false, if_true]
    rfl
  · simp only [ne_eq, h, not_false_eq_true, if_true, if_false, on_bind, on_always, bind_assoc,
      pure_bind]
    rfl

end Stage

end Startup
