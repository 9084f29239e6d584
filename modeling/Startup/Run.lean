import Startup.World

/-!
Runs: computations that change the world and write the journal. A run either ends, with a value,
a world and the entries it wrote, or it exceeds the depth that it was given; the latter is no
result of any kind. Failures of components are values, so what happened before a failure stays.

Main statements: `Run` is a lawful monad; `bind_eq_some` takes a finished run apart.
-/

namespace Startup

def Run (H : Host) (σ α : Type) := World H σ → Option (α × World H σ × Journal H)

namespace Run

variable {H : Host} {σ α β : Type}

protected def pure (a : α) : Run H σ α := fun w => some (a, w, [])

protected def bind (x : Run H σ α) (f : α → Run H σ β) : Run H σ β := fun w =>
  (x w).bind fun p => (f p.1 p.2.1).map fun q => (q.1, q.2.1, p.2.2 ++ q.2.2)

instance : Monad (Run H σ) where
  pure := Run.pure
  bind := Run.bind

theorem bind_def (x : Run H σ α) (f : α → Run H σ β) : x >>= f = x.bind f := rfl

theorem pure_def (a : α) : (pure a : Run H σ α) = Run.pure a := rfl

/-- A finished sequence is two finished runs, and their entries stand one after the other. -/
theorem bind_eq_some {x : Run H σ α} {f : α → Run H σ β} {w w₂ : World H σ} {b : β}
    {j : Journal H} :
    (x >>= f) w = some (b, w₂, j) ↔
      ∃ a w₁ j₁ j₂, x w = some (a, w₁, j₁) ∧ f a w₁ = some (b, w₂, j₂) ∧ j = j₁ ++ j₂ := by
  rw [bind_def, Run.bind, Option.bind_eq_some_iff]
  constructor
  · rintro ⟨⟨a, w₁, j₁⟩, hx, h⟩
    obtain ⟨⟨b', w₂', j₂⟩, hf, h⟩ := Option.map_eq_some_iff.1 h
    simp only [Prod.mk.injEq] at h
    obtain ⟨rfl, rfl, rfl⟩ := h
    exact ⟨a, w₁, j₁, j₂, hx, hf, rfl⟩
  · rintro ⟨a, w₁, j₁, j₂, hx, hf, rfl⟩
    exact ⟨(a, w₁, j₁), hx, Option.map_eq_some_iff.2 ⟨(b, w₂, j₂), hf, rfl⟩⟩

theorem pure_eq_some {a b : α} {w w' : World H σ} {j : Journal H} :
    (pure a : Run H σ α) w = some (b, w', j) ↔ a = b ∧ w = w' ∧ j = [] := by
  simp only [pure_def, Run.pure, Option.some.injEq, Prod.mk.injEq, eq_comm (a := j)]

theorem id_map (x : Run H σ α) : id <$> x = x := by
  funext w
  show Run.bind x Run.pure w = x w
  cases h : x w <;> simp [Run.bind, Run.pure, h]

theorem pure_bind (a : α) (f : α → Run H σ β) : pure a >>= f = f a := by
  funext w
  show Run.bind (Run.pure a) f w = f a w
  cases h : f a w <;> simp [Run.bind, Run.pure, h]

theorem bind_assoc {γ : Type} (x : Run H σ α) (f : α → Run H σ β) (g : β → Run H σ γ) :
    x >>= f >>= g = x >>= fun a => f a >>= g := by
  funext w
  show Run.bind (Run.bind x f) g w = Run.bind x (fun a => Run.bind (f a) g) w
  simp only [Run.bind]
  cases x w with
  | none => rfl
  | some p =>
    cases h : f p.1 p.2.1 with
    | none => simp [h]
    | some q =>
      cases h' : g q.1 q.2.1 with
      | none => simp [h, h']
      | some r => simp [h, h', List.append_assoc]

instance : LawfulMonad (Run H σ) :=
  LawfulMonad.mk' (Run H σ) (fun x => id_map x) (fun a f => pure_bind a f)
    (fun x f g => bind_assoc x f g)

/-! ## Basic runs -/

/-- The depth is exceeded. -/
def exceeded : Run H σ α := fun _ => none

/-- Ask the world. -/
def ask (f : World H σ → α) : Run H σ α := fun w => some (f w, w, [])

/-- Change the world. -/
def change (f : World H σ → World H σ) : Run H σ Unit := fun w => some ((), f w, [])

/-- Write one entry. -/
def record (f : Fact H) : Run H σ Unit := fun w => some ((), w, [.fact f])

/-- Put all that a run writes under one entry, which may depend on its value. -/
def within (s : α → Scope H) (x : Run H σ α) : Run H σ α := fun w =>
  (x w).map fun p => (p.1, p.2.1, [.scope (s p.1) p.2.2])

theorem within_eq_some {α : Type} {s : α → Scope H} {x : Run H σ α} {w w' : World H σ} {a : α}
    {j : Journal H} : within s x w = some (a, w', j) ↔
      ∃ j', x w = some (a, w', j') ∧ j = [.scope (s a) j'] := by
  constructor
  · intro h
    obtain ⟨⟨a, w', j'⟩, h', hp⟩ := Option.map_eq_some_iff.1 h
    simp only [Prod.mk.injEq] at hp
    obtain ⟨rfl, rfl, rfl⟩ := hp
    exact ⟨j', h', rfl⟩
  · rintro ⟨j', h, rfl⟩
    exact Option.map_eq_some_iff.2 ⟨_, h, rfl⟩

theorem ask_bind (f : World H σ → α) (g : α → Run H σ β) (w : World H σ) :
    (ask f >>= g) w = g (f w) w := by
  rw [bind_def, Run.bind, ask, Option.bind_some]
  cases g (f w) w <;> rfl

theorem change_bind (f : World H σ → World H σ) (g : Unit → Run H σ β) (w : World H σ) :
    (change f >>= g) w = g () (f w) := by
  rw [bind_def, Run.bind, change, Option.bind_some]
  cases g () (f w) <;> rfl

/-- A new identity. -/
def fresh : Run H σ ObjectId := fun w => some (w.next, { w with next := w.next + 1 }, [])

/-! ## Parts of the world -/

def registry (r : ObjectId) : Run H σ (Registry H) := ask fun w => w.registries.get r

def setRegistry (r : ObjectId) (s : Registry H) : Run H σ Unit :=
  change fun w => w.setRegistry r s

def context (c : ObjectId) : Run H σ (Context H) := ask fun w => w.contexts.get c

def setContext (c : ObjectId) (s : Context H) : Run H σ Unit :=
  change fun w => { w with contexts := w.contexts.set c s }

def checker (i : ObjectId) : Run H σ Checker := ask fun w => w.checkers.get i

def setChecker (i : ObjectId) (s : Checker) : Run H σ Unit :=
  change fun w => { w with checkers := w.checkers.set i s }

def detector (i : ObjectId) : Run H σ Detector := ask fun w => w.detectors.get i

def setDetector (i : ObjectId) (s : Detector) : Run H σ Unit :=
  change fun w => { w with detectors := w.detectors.set i s }

end Run

/-! ## Runs that may fail -/

/-- A run that may fail with an error; whatever it did before stays. -/
abbrev Attempt (H : Host) (σ ε α : Type) := ExceptT ε (Run H σ) α

namespace Attempt

variable {H : Host} {σ ε ε' α β : Type}

/-- A run that cannot fail. -/
def always (x : Run H σ α) : Attempt H σ ε α := ExceptT.lift x

/-- A run that ends with a value or an error. -/
def of (x : Run H σ (Except ε α)) : Attempt H σ ε α := ExceptT.mk x

/-- The same run, its errors seen as errors of another kind. -/
def blame (f : ε → ε') (x : Attempt H σ ε α) : Attempt H σ ε' α := ExceptT.adapt f x

/-- Put all that an attempt writes under one entry, which may depend on its outcome. -/
def within (s : Except ε α → Scope H) (x : Attempt H σ ε α) : Attempt H σ ε α :=
  of (Run.within s x.run)

@[simp] theorem run_of (x : Run H σ (Except ε α)) : (of x).run = x := rfl

theorem run_bind_always (x : Run H σ α) (f : α → Attempt H σ ε β) :
    (always x >>= f).run = x >>= fun a => (f a).run := by
  simp [always]

theorem run_bind (x : Attempt H σ ε α) (f : α → Attempt H σ ε β) :
    (x >>= f).run = x.run >>= fun
      | .ok a => (f a).run
      | .error e => pure (.error e) := by
  rw [ExceptT.run_bind]
  rfl

end Attempt

end Startup
