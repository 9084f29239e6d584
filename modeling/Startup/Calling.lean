import Startup.Interceptor.Own

/-!
Calling back. The library's own interceptors answer here; every other callback goes to the host.
All calls are noted in the journal alike, with all that happens inside them.

An event goes to the listeners that are registered when its broadcast begins, in the order of
their registration.
-/

namespace Startup

abbrev Call (H : Host) (σ : Type) := (cb : Callback H) → Run H σ cb.Answer

namespace Callback

variable {H : Host} {σ : Type}

/-- The answer to a callback. The checker and the detector leave instances as they are. -/
def respond (call : Call H σ) : (cb : Callback H) → Run H σ cb.Answer
  | create d v => call (create d v)
  | mutateDefinitions e v => call (mutateDefinitions e v)
  | mutateFactory e v => call (mutateFactory e v)
  | event l x => call (event l x)
  | merged e d n =>
    match e.body with
    | .code _ => call (merged e d n)
    | .checker => pure (.ok ())
    | .detector => do
      Detector.merged e.id d n
      return .ok ()
  | before e v i n =>
    match e.body with
    | .code _ => call (before e v i n)
    | .checker | .detector => pure (.ok i)
  | after e v i n =>
    match e.body with
    | .code _ => call (after e v i n)
    | .checker => do
      Checker.after e.id v i n
      return .ok i
    | .detector => do
      Detector.after e.id i n
      return .ok i

def perform (call : Call H σ) (cb : Callback H) : Run H σ cb.Answer :=
  Run.within (fun a => .call cb a) (cb.respond call)

end Callback

namespace Context

variable {H : Host} {σ : Type} (call : Call H σ)

def tell (x : ContainerEvent) : List (Listener H) → Run H σ Unit
  | [] => pure ()
  | l :: rest => do
    let _ ← Callback.perform call (.event l x)
    tell x rest

def publish (c : ObjectId) (x : ContainerEvent) : Run H σ Unit := do
  let listeners := (← Run.context c).values
  Run.within (fun _ => .publication c x listeners) (tell call x listeners)

end Context

end Startup
