import Startup.Calling

/-!
Creation of components. A component is looked up among the singletons; if there is none, its
definition is instantiated: interceptors that care are shown the definition, the factory makes the
raw instance, and every interceptor of the chain may replace it, once before and once after.

The chain is the one that was installed when the creation began. While a component is being
created its name stands in `inCreation`; to ask for it again means that it depends on itself.

Main statements: what a creation and a resolution do in each case (`Creation.create_refused`,
`Creation.create_begun`, `View.resolve_cached`, `View.resolve_unknown`, `View.resolve_defined`), and
`Creation.create_eq_some` and `View.resolve_eq_some`, which take finished ones apart.
-/

namespace Startup

open Attempt (always)

namespace Creation

variable {H : Host} {σ : Type} (call : Call H σ)

def interceptorFailed (n : ComponentName) (e : Extension H) : Failure → DependencyError :=
  .interceptorFailed n.text e.name

/-- Make a callback whose failure is an error of the registry. -/
def ask (blame : Failure → DependencyError) {α : Type} (x : Run H σ (Except Failure α)) :
    Attempt H σ DependencyError α :=
  (Attempt.of x).blame blame

def announce (n : ComponentName) (d : Definition H) :
    List (Extension H) → Attempt H σ DependencyError Unit
  | [] => pure ()
  | e :: rest => do
    if e.views.mergeAware then
      ask (interceptorFailed n e) (Callback.perform call (.merged e d n))
    announce n d rest

def before (v : View) (n : ComponentName) :
    List (Extension H) → Instance H → Attempt H σ DependencyError (Instance H)
  | [], i => pure i
  | e :: rest, i =>
    if e.views.interceptor then do
      let j ← ask (interceptorFailed n e) (Callback.perform call (.before e v i n))
      before v n rest j
    else before v n rest i

def after (v : View) (n : ComponentName) :
    List (Extension H) → Instance H → Attempt H σ DependencyError (Instance H)
  | [], i => pure i
  | e :: rest, i =>
    if e.views.interceptor then do
      let j ← ask (interceptorFailed n e) (Callback.perform call (.after e v i n))
      after v n rest j
    else after v n rest i

/-- Instantiate a definition under the eyes of a chain of interceptors. -/
def build (v : View) (n : ComponentName) (d : Definition H) (chain : List (Extension H)) :
    Attempt H σ DependencyError (Instance H) := do
  announce call n d chain
  let raw ← ask (.creationFailed n.text) (Callback.perform call (.create d v))
  let i ← before call v n chain raw
  after call v n chain i

theorem build_nil (v : View) (n : ComponentName) (d : Definition H) :
    (build call v n d []).run =
      Except.mapError (.creationFailed n.text) <$> Callback.perform call (.create d v) := by
  simp only [build, announce, before, after, pure_bind, bind_pure]
  rfl

/-- The names of a dependency cycle, in the order in which they depend on each other. -/
def cycleText (names : List ComponentName) : String :=
  " -> ".intercalate (names.map (·.text))

def create (r : ObjectId) (n : ComponentName) (d : Definition H) :
    Attempt H σ DependencyError (Instance H) := do
  let s ← always (Run.registry r)
  if n ∈ s.inCreation then
    throw (.circular (cycleText (s.inCreation ++ [n])))
  else
    always (Run.setRegistry r (s.beginCreation n))
    let result ← always <| Run.within (.creation r n d s.inCreation s.interceptors)
      (build call (.direct r) n d s.interceptors).run
    let (answer, s') := (← always (Run.registry r)).conclude n d result
    always (Run.setRegistry r s')
    Attempt.of (pure answer)

theorem create_refused {r : ObjectId} {n : ComponentName} {d : Definition H} {w : World H σ}
    (hin : n ∈ (w.registries.get r).inCreation) :
    (create call r n d).run w =
      some (.error (.circular (cycleText ((w.registries.get r).inCreation ++ [n]))), w, []) := by
  rw [create, Attempt.run_bind_always, Run.registry, Run.ask_bind, if_pos hin]
  rfl

/-- Any other creation builds the instance, with its name on the stack, and concludes with it. -/
theorem create_begun {r : ObjectId} {n : ComponentName} {d : Definition H} {w : World H σ}
    (hin : n ∉ (w.registries.get r).inCreation) :
    (create call r n d).run w =
      (Run.within (.creation r n d (w.registries.get r).inCreation
        (w.registries.get r).interceptors)
          (build call (.direct r) n d (w.registries.get r).interceptors).run
            (w.setRegistry r ((w.registries.get r).beginCreation n))).map fun p =>
        (((p.2.1.registries.get r).conclude n d p.1).1,
          p.2.1.setRegistry r ((p.2.1.registries.get r).conclude n d p.1).2, p.2.2) := by
  rw [create, Attempt.run_bind_always, Run.registry, Run.ask_bind, if_neg hin,
    Attempt.run_bind_always, Run.setRegistry, Run.change_bind, Attempt.run_bind_always,
    Run.bind_def, Run.bind]
  cases Run.within (.creation r n d (w.registries.get r).inCreation
      (w.registries.get r).interceptors)
        (build call (.direct r) n d (w.registries.get r).interceptors).run
          (w.setRegistry r ((w.registries.get r).beginCreation n)) with
  | none => rfl
  | some p =>
    obtain ⟨result, w₁, j⟩ := p
    show some (_, _, j ++ []) = _
    rw [List.append_nil]
    rfl

/-- A finished creation is refused, or it builds the instance and concludes with it. -/
theorem create_eq_some {r : ObjectId} {n : ComponentName} {d : Definition H}
    {a : Except DependencyError (Instance H)} {w w' : World H σ} {j : Journal H}
    (h : (create call r n d).run w = some (a, w', j)) :
    (n ∈ (w.registries.get r).inCreation ∧
      a = .error (.circular (cycleText ((w.registries.get r).inCreation ++ [n]))) ∧
      w' = w ∧ j = []) ∨
    (n ∉ (w.registries.get r).inCreation ∧ ∃ result w₁ j₁,
      (build call (.direct r) n d (w.registries.get r).interceptors).run
        (w.setRegistry r ((w.registries.get r).beginCreation n)) = some (result, w₁, j₁) ∧
      a = ((w₁.registries.get r).conclude n d result).1 ∧
      w' = w₁.setRegistry r ((w₁.registries.get r).conclude n d result).2 ∧
      j = [.scope (.creation r n d (w.registries.get r).inCreation
        (w.registries.get r).interceptors result) j₁]) := by
  by_cases hin : n ∈ (w.registries.get r).inCreation
  · rw [create_refused call hin] at h
    cases h
    exact .inl ⟨hin, rfl, rfl, rfl⟩
  · rw [create_begun call hin] at h
    obtain ⟨⟨result, w₁, j₀⟩, hwithin, hp⟩ := Option.map_eq_some_iff.1 h
    obtain ⟨j₁, hbuild, rfl⟩ := Run.within_eq_some.1 hwithin
    cases hp
    exact .inr ⟨hin, result, w₁, j₁, hbuild, rfl, rfl, rfl⟩

end Creation

namespace View

variable {H : Host} {σ : Type} (call : Call H σ)

def resolve (v : View) (n : ComponentName) : Attempt H σ DependencyError (Instance H) :=
  Attempt.within (.resolution v n) do
    let s ← always (Run.registry v.registry)
    match s.singletons.get? n with
    | some i => return i
    | none =>
      match s.lookup n with
      | (none, _) => throw (.notRegistered n.text)
      | (some d, s') =>
        always (Run.setRegistry v.registry s')
        Creation.create call v.registry n d

theorem resolve_cached {v : View} {n : ComponentName} {i : Instance H} {w : World H σ}
    (hi : (w.registries.get v.registry).singletons.get? n = some i) :
    (v.resolve call n).run w = some (.ok i, w, [.scope (.resolution v n (.ok i)) []]) := by
  rw [resolve, Attempt.within, Attempt.run_of, Run.within, Attempt.run_bind_always, Run.registry,
    Run.ask_bind, hi]
  rfl

theorem resolve_unknown {v : View} {n : ComponentName} {w : World H σ}
    (hi : (w.registries.get v.registry).singletons.get? n = none)
    (hd : ((w.registries.get v.registry).lookup n).1 = none) :
    (v.resolve call n).run w = some (.error (.notRegistered n.text), w,
      [.scope (.resolution v n (.error (.notRegistered n.text))) []]) := by
  rw [resolve, Attempt.within, Attempt.run_of, Run.within, Attempt.run_bind_always, Run.registry,
    Run.ask_bind, hi]
  generalize (w.registries.get v.registry).lookup n = found at hd ⊢
  obtain ⟨d?, s⟩ := found
  cases hd
  rfl

theorem resolve_defined {v : View} {n : ComponentName} {d : Definition H} {w : World H σ}
    (hi : (w.registries.get v.registry).singletons.get? n = none)
    (hd : ((w.registries.get v.registry).lookup n).1 = some d) :
    (v.resolve call n).run w =
      Run.within (.resolution v n) (Creation.create call v.registry n d).run
        (w.setRegistry v.registry ((w.registries.get v.registry).lookup n).2) := by
  rw [resolve, Attempt.within, Attempt.run_of, Run.within, Attempt.run_bind_always, Run.registry,
    Run.ask_bind, hi]
  generalize (w.registries.get v.registry).lookup n = found at hd ⊢
  obtain ⟨d?, s⟩ := found
  cases hd
  simp only [Attempt.run_bind_always]
  rw [Run.setRegistry, Run.change_bind]
  rfl

/-- What a finished resolution found: a singleton, no definition, or a definition to create from. -/
theorem resolve_eq_some {v : View} {n : ComponentName} {a : Except DependencyError (Instance H)}
    {w w' : World H σ} {j : Journal H} (h : (v.resolve call n).run w = some (a, w', j)) :
    (∃ i, (w.registries.get v.registry).singletons.get? n = some i ∧ a = .ok i ∧ w' = w ∧
      j = [.scope (.resolution v n a) []]) ∨
    ((w.registries.get v.registry).singletons.get? n = none ∧
      (((w.registries.get v.registry).lookup n).1 = none ∧ a = .error (.notRegistered n.text) ∧
        w' = w ∧ j = [.scope (.resolution v n a) []] ∨
      ∃ d j', ((w.registries.get v.registry).lookup n).1 = some d ∧
        (Creation.create call v.registry n d).run
          (w.setRegistry v.registry ((w.registries.get v.registry).lookup n).2) =
            some (a, w', j') ∧
        j = [.scope (.resolution v n a) j'])) := by
  cases hi : (w.registries.get v.registry).singletons.get? n with
  | some i =>
    rw [resolve_cached call hi] at h
    cases h
    exact .inl ⟨i, rfl, rfl, rfl, rfl⟩
  | none =>
    refine .inr ⟨rfl, ?_⟩
    cases hd : ((w.registries.get v.registry).lookup n).1 with
    | none =>
      rw [resolve_unknown call hi hd] at h
      cases h
      exact .inl ⟨rfl, rfl, rfl, rfl⟩
    | some d =>
      rw [resolve_defined call hi hd] at h
      obtain ⟨j', hcreate, rfl⟩ := Run.within_eq_some.1 h
      exact .inr ⟨d, j', rfl, hcreate, rfl⟩

/-- Get an extension by the name of its component, and make sure that it has a capability. -/
def fetch (v : View) (n : ComponentName) (c : Capability) :
    Attempt H σ DependencyError (Extension H) :=
  Attempt.within (.fetch v n c) do
    let i ← v.resolve call n
    match i.extension? with
    | some e =>
      if e.supports c then return e
      else throw (.capabilityMismatch n.text c.name i.typeName)
    | none => throw (.capabilityMismatch n.text c.name i.typeName)

def fetchAll (v : View) (c : Capability) :
    List ComponentName → Attempt H σ DependencyError (List (Extension H))
  | [] => pure []
  | n :: rest => do
    let e ← v.fetch call n c
    let es ← v.fetchAll c rest
    return e :: es

/-- Resolve names one after the other, for their creation only. -/
def resolveAll (v : View) : List ComponentName → Attempt H σ DependencyError Unit
  | [] => pure ()
  | n :: rest => do
    let _ ← v.resolve call n
    v.resolveAll rest

def error? {ε α : Type} : Except ε α → Option ε
  | .error e => some e
  | .ok _ => none

/-- Create all singletons that are not lazy, in the order of registration. -/
def preinstantiate (v : View) : Attempt H σ DependencyError Unit := do
  let names := (← always (Run.registry v.registry)).eagerNames
  always (Run.record (.preinstantiating names.length))
  Attempt.within (fun x => .preinstantiation v.registry names (error? x))
    ((direct v.registry).resolveAll call names)

/-- Of the registry only the names are asked, and that before the first creation. -/
theorem preinstantiate_run (v : View) :
    (v.preinstantiate call).run =
      Run.ask (fun w => (w.registries.get v.registry).eagerNames) >>= fun names =>
        Run.record (.preinstantiating names.length) >>= fun _ =>
          (Attempt.within (fun x => .preinstantiation v.registry names (error? x))
            ((direct v.registry).resolveAll call names)).run := by
  funext w
  rw [preinstantiate, Attempt.run_bind_always, Run.registry, Run.ask_bind, Run.ask_bind,
    Attempt.run_bind_always]

end View

end Startup
