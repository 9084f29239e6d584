import Startup.Component.Definition
import Startup.Component.Instance
import Startup.Failure

/-!
Callbacks: the moments at which the library hands control to code that it does not know. A
callback is given what it may use and has to answer with a value of `Callback.Answer`.
-/

namespace Startup

/-- What a holder of a registry may do with it. -/
structure View where
  registry : ObjectId
  /-- Uses of the registry are noted in the journal. -/
  observed : Bool := false
  /-- Definitions can be changed. -/
  writable : Bool := true
  /-- The comparator of the registry is passed on. -/
  ordering : Bool := true
  deriving DecidableEq, Repr, Inhabited

inductive Callback (H : Host) where
  /-- Make the raw instance of a definition. -/
  | create (d : Definition H) (v : View)
  | mutateDefinitions (e : Extension H) (v : View)
  | mutateFactory (e : Extension H) (v : View)
  /-- A definition is about to be instantiated. -/
  | merged (e : Extension H) (d : Definition H) (n : ComponentName)
  | before (e : Extension H) (v : View) (i : Instance H) (n : ComponentName)
  | after (e : Extension H) (v : View) (i : Instance H) (n : ComponentName)
  | event (l : Listener H) (e : ContainerEvent)

namespace Callback

variable {H : Host}

/-- Factories and interceptors answer with an instance, mutators with success, listeners with
nothing at all. -/
def Answer : Callback H → Type
  | create .. | before .. | after .. => Except Failure (Instance H)
  | mutateDefinitions .. | mutateFactory .. | merged .. => Except Failure Unit
  | event .. => Unit

def failure? : (cb : Callback H) → cb.Answer → Option Failure
  | create .., .error f | before .., .error f | after .., .error f => some f
  | mutateDefinitions .., .error f | mutateFactory .., .error f | merged .., .error f => some f
  | _, _ => none

end Callback

end Startup
