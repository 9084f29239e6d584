import Startup.Callback

/-!
The journal. Everything that the library does leaves an entry: a `Fact`, or a `Scope` with the
entries of all that happened inside. So a journal is a forest, and what an activity did on its own
account stands directly below it, apart from what the callbacks that it made did in turn.

A run of the mutator pipeline also keeps a report: which callbacks it completed, and where it
ended.
-/

namespace Startup

/-- Where a run of the pipeline stands. -/
inductive Phase where
  | init
  | separatingSupplied
  | priorityTier
  | orderedTier
  | fixedPointTier
  | factoryCallbacks
  | done
  | aborted
  deriving DecidableEq, Repr, Inhabited

def Phase.name : Phase → String
  | init => "init"
  | separatingSupplied => "separating-supplied"
  | priorityTier => "priority-tier"
  | orderedTier => "ordered-tier"
  | fixedPointTier => "fixed-point-tier"
  | factoryCallbacks => "factory-callback"
  | done => "done"
  | aborted => "aborted"

structure Report where
  /-- Extensions whose definition callback succeeded, in order. -/
  definitionCalls : List String := []
  /-- Extensions whose factory callback succeeded, in order. -/
  factoryCalls : List String := []
  /-- Rounds of the fixed point, the empty last one included. -/
  rounds : Nat := 0
  phase : Phase := .init
  /-- The definitions could not be changed. -/
  degraded : Bool := false
  deriving DecidableEq, Repr, Inhabited

/-- A tier of extensions, by what their definitions declare. -/
inductive TierClass where
  | priority
  | ordered
  | unordered
  deriving DecidableEq, Repr, Inhabited

/-- How the call of an extension's mutation callback went. -/
inductive MutationOutcome where
  /-- The extension has no such callback. -/
  | unsupported
  | done
  | failed (f : Failure)

inductive Fact (H : Host) where
  -- Registry
  | defined (registry : ObjectId) (d : Definition H) (overrides : Bool)
  | removed (registry : ObjectId) (n : ComponentName)
  | instanceKept (registry : ObjectId) (n : ComponentName) (i : Instance H)
  | installed (registry : ObjectId) (e : Extension H) (position : Nat)
  | notInterceptor (e : Extension H)
  | cacheCleared (registry : ObjectId) (entries : Nat)
  | preinstantiating (count : Nat)
  -- Uses of a view
  | querying (v : View) (c : Capability) (all eager : Bool)
  | installing (v : View) (e : Extension H)
  | clearing (v : View)
  | comparing (v : View)
  -- Mutator pipeline
  | pipelineStarted (supplied : Nat)
  | degraded
  | phaseChanged (old new : Phase)
  | notMutator (e : Extension H)
  | roundFound (round count : Nat)
  | tiersSplit (priority ordered unordered : Nat)
  | pipelineDone (r : Report)
  | pipelineAborted (during : Phase) (e : ExtensionError)
  -- Interceptor registration
  | registrationStarted (found target : Nat)
  | tierInstalled (t : TierClass) (count : Nat)
  | relocating (count : Nat)
  | registrationDone (count : Nat)
  | bypassed (checker : ObjectId) (n : ComponentName) (typeName : String) (installed target : Nat)
  -- Listeners
  | listenerAdded (context : ObjectId) (n : ComponentName) (l : Listener H)
  /-- There was a listener of this name, so nothing changed. -/
  | listenerKnown (context : ObjectId) (n : ComponentName) (l : Listener H)
  | listenerUnreachable (n : ComponentName)
  -- Containers
  | extensionAdded (e : Extension H)
  | configLoading (path : String)
  | configReading (path : String)
  | bootstrapStarted
  | preinstantiationSkipped
  | bootstrapDone
  | bootstrapFailed (e : InfrastructureError)
  | closing
  /-- Written by a callback. -/
  | note (x : H.Note)

/-- An activity with entries of its own. -/
inductive Scope (H : Host) where
  | resolution (v : View) (n : ComponentName) (result : Except DependencyError (Instance H))
  /-- `outer` are the components in whose creation this one happens, `chain` the interceptors. -/
  | creation (registry : ObjectId) (n : ComponentName) (d : Definition H)
      (outer : List ComponentName) (chain : List (Extension H))
      (result : Except DependencyError (Instance H))
  | call (cb : Callback H) (answer : cb.Answer)
  | fetch (v : View) (n : ComponentName) (c : Capability)
      (result : Except DependencyError (Extension H))
  | mutation (p : MutationPhase) (e : Extension H) (outcome : MutationOutcome)
  | pipeline (v : View) (supplied : List (Extension H)) (report : Report)
      (failure : Option ExtensionError)
  | registration (v : View) (context : ObjectId) (failure : Option ExtensionError)
  | preinstantiation (registry : ObjectId) (names : List ComponentName)
      (failure : Option DependencyError)
  | publication (context : ObjectId) (e : ContainerEvent) (listeners : List (Listener H))
  | bootstrap (v : View) (failure : Option InfrastructureError)

inductive Event (H : Host) where
  | fact (f : Fact H)
  | scope (s : Scope H) (body : List (Event H))

abbrev Journal (H : Host) := List (Event H)

end Startup
