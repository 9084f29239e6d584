import Startup.Registry.View

/-!
The library's own interceptors: one that is installed before all others, and one after them.

The eligibility checker is the first. A component that is created before the expected number of
interceptors is in place will not pass all of them; the checker notes its name and lets it
through.

The listener detector is the last. It registers the listeners among the components with a context,
those of singletons only. Whether a component is a singleton it learns from the definition that is
presented to it before the component is created.
-/

namespace Startup

namespace Checker

variable {H : Host} {σ : Type}

def extensionName : String := "eligibility-checker"

def create (target : Nat) : Run H σ (Extension H) := do
  let id ← Run.fresh
  Run.setChecker id { target }
  return { id, name := extensionName, tier := .unordered, views := { interceptor := true },
           body := .checker }

/-- Note a component that comes too early. Interceptors and components internal to the container
do not count. -/
def after (id : ObjectId) (v : View) (i : Instance H) (n : ComponentName) : Run H σ Unit := do
  let role ← v.role? n
  if !i.isInterceptor && !role.any (·.isInfrastructure) then
    let installed ← v.interceptorCount
    let c ← Run.checker id
    if installed < c.target then
      Run.record (.bypassed id n i.typeName installed c.target)
      Run.setChecker id { c with bypassed := c.bypassed ++ [n] }

end Checker

namespace Context

variable {H : Host} {σ : Type}

/-- Register a listener. The first one under a name stays. -/
def addListener (c : ObjectId) (n : ComponentName) (l : Listener H) : Run H σ Unit := do
  let s ← Run.context c
  if s.contains n then
    Run.record (.listenerKnown c n l)
  else
    Run.record (.listenerAdded c n l)
    Run.setContext c (s.insert n l)

end Context

namespace Detector

variable {H : Host} {σ : Type}

def extensionName : String := "inner-component-listener-detector"

def create (context : ObjectId) : Run H σ (Extension H) := do
  let id ← Run.fresh
  Run.setDetector id { context }
  return { id, name := extensionName, tier := .unordered,
           views := { interceptor := true, mergeAware := true }, body := .detector }

/-- Remember whether the component to come is a singleton. -/
def merged (id : ObjectId) (d : Definition H) (n : ComponentName) : Run H σ Unit := do
  let s ← Run.detector id
  Run.setDetector id { s with singletons := s.singletons.insert n d.isSingleton }

/-- Register the component if it is a listener and a singleton. -/
def after (id : ObjectId) (i : Instance H) (n : ComponentName) : Run H σ Unit := do
  match i.listener? with
  | none => return ()
  | some l =>
    let s ← Run.detector id
    match s.singletons.get? n with
    | some true => Context.addListener s.context n l
    | some false =>
      Run.record (.listenerUnreachable n)
      Run.setDetector id { s with singletons := s.singletons.erase n }
    | none => return ()

end Detector

end Startup
