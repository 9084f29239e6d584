import Startup.Run

/-!
A registry in use: the operations on it that call nobody. Questions and changes go through a
`View`, which says what its holder may do; every use of it is noted in the journal.

Main statements: the `_run` lemmas, which say at once how each change ends: its answer, the world
after it and what it leaves in the journal.
-/

namespace Startup

namespace View

variable {H : Host} {σ : Type}

/-- The registry itself, with nothing held back and nothing noted. -/
def direct (r : ObjectId) : View := { registry := r }

/-- Names of the components with a capability. With `all` also those that are not singletons.
Nothing is ever created to find out, whatever `eager` allows. -/
def names (v : View) (c : Capability) (all eager : Bool) : Run H σ (List ComponentName) := do
  Run.record (.querying v c all eager)
  let r ← Run.registry v.registry
  return r.namesFor c all

def isMatch (v : View) (n : ComponentName) (c : Capability) : Run H σ Bool := do
  let r ← Run.registry v.registry
  return r.isMatch n c

def role? (v : View) (n : ComponentName) : Run H σ (Option Role) := do
  let r ← Run.registry v.registry
  return r.role? n

def interceptorCount (v : View) : Run H σ Nat := do
  let r ← Run.registry v.registry
  return r.interceptors.length

/-- The comparator that extensions are to be sorted by, if the view passes one on. -/
def comparator? (v : View) : Run H σ (Option (Comparator H)) := do
  let r ← Run.registry v.registry
  return if v.ordering then r.comparator? else none

/-- Put an interceptor at the end of the chain. An extension that is none is left out. -/
def install (v : View) (e : Extension H) : Run H σ Unit := do
  Run.record (.installing v e)
  if e.views.interceptor then
    let r ← Run.registry v.registry
    let r' := r.install e
    Run.setRegistry v.registry r'
    Run.record (.installed v.registry e (r'.interceptors.length - 1))
  else
    Run.record (.notInterceptor e)

/-- Install one after the other. Extensions that are no interceptors are passed over. -/
def installAll (v : View) : List (Extension H) → Run H σ Unit
  | [] => pure ()
  | e :: rest => do
    if e.views.interceptor then v.install e else Run.record (.notInterceptor e)
    v.installAll rest

def clearCache (v : View) : Run H σ Unit := do
  Run.record (.clearing v)
  let r ← Run.registry v.registry
  Run.record (.cacheCleared v.registry r.merged.size)
  Run.setRegistry v.registry r.clearCache

theorem install_run (v : View) (e : Extension H) (w : World H σ) :
    v.install e w =
      if e.views.interceptor then
        some ((), w.setRegistry v.registry ((w.registries.get v.registry).install e),
          [.fact (.installing v e), .fact (.installed v.registry e
            (((w.registries.get v.registry).install e).interceptors.length - 1))])
      else some ((), w, [.fact (.installing v e), .fact (.notInterceptor e)]) := by
  unfold View.install
  split <;> rfl

theorem clearCache_run (v : View) (w : World H σ) :
    v.clearCache w =
      some ((), w.setRegistry v.registry (w.registries.get v.registry).clearCache,
        [.fact (.clearing v),
          .fact (.cacheCleared v.registry (w.registries.get v.registry).merged.size)]) := rfl

end View

namespace Registry

variable {H : Host} {σ : Type}

/-- Register a definition. A blank name is refused. -/
def register (r : ObjectId) (d : Definition H) : Run H σ (Except DependencyError Unit) := do
  if d.name.isBlank then
    return .error (.registration d.name.text "组件名称不能为空")
  else
    let s ← Run.registry r
    Run.setRegistry r (s.define d)
    Run.record (.defined r d (s.definitions.contains d.name))
    return .ok ()

def remove (r : ObjectId) (n : ComponentName) :
    Run H σ (Except DependencyError (Definition H)) := do
  let s ← Run.registry r
  match s.definitions.get? n with
  | none => return .error (.notRegistered n.text)
  | some d =>
    Run.setRegistry r (s.undefine n)
    Run.record (.removed r n)
    return .ok d

/-- Put a finished instance in. It passes no interceptor; a name that has a singleton is
refused. -/
def registerInstance (r : ObjectId) (n : ComponentName) (i : Instance H) :
    Run H σ (Except DependencyError Unit) := do
  let s ← Run.registry r
  if s.singletons.contains n then
    return .error (.registration n.text "已存在同名单例实例")
  else
    Run.record (.instanceKept r n i)
    Run.setRegistry r (s.keep n i)
    return .ok ()

theorem register_run (r : ObjectId) (d : Definition H) (w : World H σ) :
    Registry.register r d w =
      if d.name.isBlank then
        some (.error (.registration d.name.text "组件名称不能为空"), w, [])
      else
        some (.ok (), w.setRegistry r ((w.registries.get r).define d),
          [.fact (.defined r d ((w.registries.get r).definitions.contains d.name))]) := by
  unfold Registry.register
  split <;> rfl

theorem remove_run (r : ObjectId) (n : ComponentName) (w : World H σ) :
    Registry.remove r n w =
      match (w.registries.get r).definitions.get? n with
      | none => some (.error (.notRegistered n.text), w, [])
      | some d =>
        some (.ok d, w.setRegistry r ((w.registries.get r).undefine n),
          [.fact (.removed r n)]) := by
  simp only [Registry.remove, Run.bind_def, Run.bind, Run.registry, Run.ask, Option.bind_some]
  cases (w.registries.get r).definitions.get? n <;> rfl

theorem registerInstance_run (r : ObjectId) (n : ComponentName) (i : Instance H)
    (w : World H σ) :
    Registry.registerInstance r n i w =
      if (w.registries.get r).singletons.contains n then
        some (.error (.registration n.text "已存在同名单例实例"), w, [])
      else
        some (.ok (), w.setRegistry r ((w.registries.get r).keep n i),
          [.fact (.instanceKept r n i)]) := by
  simp only [Registry.registerInstance, Run.bind_def, Run.bind, Run.registry, Run.ask,
    Option.bind_some]
  split <;> rfl

end Registry

end Startup
