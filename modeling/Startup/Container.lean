import Startup.Calling
import Startup.Config.Basic
import Startup.Interceptor.Registration
import Startup.Pipeline.Basic

/-!
Containers. A container is a registry that was started: its mutators ran, its interceptors are
installed, its singletons exist, and its listeners know. A failure on the way leaves no container;
what was done to the registry by then stays.
-/

namespace Startup

open Attempt (always)

structure Container (H : Host) where
  view : View
  context : ObjectId
  report : Report
  /-- The interceptors that the start-up itself put in. -/
  registration : Registration H

namespace Container

variable {H : Host} {σ : Type} (call : Call H σ)

def componentCount (c : Container H) (w : World H σ) : Nat :=
  if c.view.writable then (w.registries.get c.view.registry).definitions.size else 0

/-- The components that were created before all interceptors were in place. -/
def bypassed (c : Container H) (w : World H σ) : List ComponentName :=
  (w.checkers.get c.registration.checker.id).bypassed

def close (c : Container H) : Run H σ Unit := do
  Run.record .closing
  Context.publish call c.context .closed

/-! ## Starting -/

variable (v : View) (depth : Nat) (settings : StartSettings) (supplied : List (Extension H))

def mutate : Attempt H σ InfrastructureError Report := do
  let (result, report) ← always (Pipeline.invoke call v depth supplied)
  match result with
  | .ok _ => return report
  | .error e => throw (.extension e)

def populate : Attempt H σ InfrastructureError Unit := do
  if settings.preinstantiate then
    (v.preinstantiate call).blame .dependency
  else
    always (Run.record .preinstantiationSkipped)

/-- All steps of a start-up that can fail. -/
def prepare : Attempt H σ InfrastructureError (Container H) := do
  let report ← mutate call v depth supplied
  let context ← always Run.fresh
  let registration ← (v.registerInterceptors call context).blame .extension
  populate call v settings
  return { view := v, context, report, registration }

def announce (c : Container H) : Run H σ Unit := do
  if settings.announce then
    let count ← Run.ask c.componentCount
    Context.publish call c.context (.refreshed count)

def steps : Attempt H σ InfrastructureError (Container H) := do
  let c ← prepare call v depth settings supplied
  always (announce call settings c)
  always (Run.record .bootstrapDone)
  return c

def noteFailure : Except InfrastructureError (Container H) → Run H σ Unit
  | .ok _ => pure ()
  | .error e => Run.record (.bootstrapFailed e)

/-- Start a container on a registry. The supplied extensions run before those of the registry. -/
def start : Attempt H σ InfrastructureError (Container H) :=
  Attempt.within (fun x => .bootstrap v (View.error? x)) <| Attempt.of do
    Run.record .bootstrapStarted
    let result ← (steps call v depth settings supplied).run
    noteFailure result
    return result

end Container

end Startup
