import Startup.Pipeline.Stage

/-!
The mutator pipeline: one run of all extensions that change definitions or adjust the container.

1. Of the extensions that the caller supplies, those that mutate definitions do so at once.
2. The registry's definition mutators follow, the priority tier first and then the ordered one.
3. Rounds follow until a query finds no definition mutator that was not run: callbacks may have
   registered new ones.
4. Every extension that mutated definitions gets its factory callback, in the same order; after
   them the supplied extensions that have nothing but a factory callback.
5. The registry's remaining factory mutators follow, tier by tier.

A failure ends the run at once. Where definitions cannot be changed, the supplied extensions get
their factory callbacks only.
-/

namespace Startup.Pipeline

open Stage

variable {H : Host} {σ : Type} (call : Call H σ) (v : View)

/-! ## Callbacks -/

def outcome : Except Failure Unit → MutationOutcome
  | .ok _ => .done
  | .error f => .failed f

/-- Let an extension change definitions, if it does that at all. -/
def callDefinition (e : Extension H) : Stage H σ Unit := do
  if e.views.definitionMutator then
    let result : Except Failure Unit ← always <|
      Run.within (fun x => .mutation .definition e (outcome x))
        (Callback.perform call (.mutateDefinitions e v))
    match result with
    | .error f => throw (.callback e.name .definition f)
    | .ok _ =>
      updateReport fun r => { r with definitionCalls := r.definitionCalls ++ [e.name] }

/-- Let an extension adjust the container, if it does that at all. -/
def callFactory (e : Extension H) : Stage H σ Unit := do
  if e.views.definitionMutator || e.views.factoryMutator then
    let result : Except Failure Unit ← always <|
      Run.within (fun x => .mutation .factory e (outcome x))
        (Callback.perform call (.mutateFactory e v))
    match result with
    | .error f => throw (.callback e.name .factory f)
    | .ok _ => updateReport fun r => { r with factoryCalls := r.factoryCalls ++ [e.name] }
  else
    always <| Run.within (fun _ => .mutation .factory e .unsupported) (pure ())

def callDefinitions : List (Extension H) → Stage H σ Unit
  | [] => pure ()
  | e :: rest => do
    callDefinition call v e
    callDefinitions rest

def callFactories : List (Extension H) → Stage H σ Unit
  | [] => pure ()
  | e :: rest => do
    callFactory call v e
    callFactories rest

/-! ## Definition mutators -/

/-- Run the supplied definition mutators. The answer holds them, and the supplied extensions that
have a factory callback only. -/
def separate : List (Extension H) → Stage H σ (List (Extension H) × List (Extension H))
  | [] => pure ([], [])
  | e :: rest => do
    if e.views.definitionMutator then
      callDefinition call v e
      let (mutators, regular) ← separate rest
      return (e :: mutators, regular)
    else if e.views.factoryMutator then
      let (mutators, regular) ← separate rest
      return (mutators, e :: regular)
    else
      always (Run.record (.notMutator e))
      separate rest

/-- Fetch the definition mutators that are wanted, and mark them as processed. -/
def collect (wanted : ComponentName → Stage H σ Bool) :
    List ComponentName → Stage H σ (List (Extension H))
  | [] => pure []
  | n :: rest => do
    if ← wanted n then
      let e ← attempt (v.fetch call n .definitionMutator)
      markProcessed n
      let es ← collect wanted rest
      return e :: es
    else
      collect wanted rest

/-- Collect the wanted ones among the definition mutators that are registered now. -/
def collectNow (wanted : ComponentName → Stage H σ Bool) : Stage H σ (List (Extension H)) := do
  let names ← always (v.names .definitionMutator true false)
  collect call v wanted names

/-- Sort a tier and run its definition callbacks. The answer is the sorted tier. -/
def runTier (tier : List (Extension H)) : Stage H σ (List (Extension H)) := do
  let sorted ← always (v.sort tier)
  callDefinitions call v sorted
  return sorted

def isPriority (n : ComponentName) : Stage H σ Bool := always (v.isMatch n .priorityOrdered)

def isOrdered (n : ComponentName) : Stage H σ Bool := do
  if ← isProcessed n then return false else always (v.isMatch n .ordered)

def isNew (n : ComponentName) : Stage H σ Bool := do
  return !(← isProcessed n)

/-- One round: run the definition mutators that are registered now and were not processed. The
answer is the sorted tier, or nothing if there are none. -/
def round : Stage H σ (Option (List (Extension H))) := do
  updateReport fun r => { r with rounds := r.rounds + 1 }
  let found ← collectNow call v isNew
  if found.isEmpty then
    return none
  else
    let round := (← get).report.rounds
    always (Run.record (.roundFound round found.length))
    let tier ← runTier call v found
    return some tier

/-- Rounds until nothing new is found, at most `depth` of them. -/
def fixedPoint : Nat → Stage H σ (List (Extension H))
  | 0 => always Run.exceeded
  | depth + 1 => do
    match ← round call v with
    | none => return []
    | some tier =>
      let later ← fixedPoint depth
      return tier ++ later

/-- All that comes before the rounds: the supplied definition mutators, the priority tier and the
ordered one. The answer holds these mutators in the order of their callbacks, and the supplied
extensions that have a factory callback only. -/
def openingTiers (supplied : List (Extension H)) :
    Stage H σ (List (Extension H) × List (Extension H)) := do
  enter .separatingSupplied
  let (first, regular) ← separate call v supplied
  enter .priorityTier
  let priority ← runTier call v (← collectNow call v (isPriority v))
  enter .orderedTier
  let ordered ← runTier call v (← collectNow call v (isOrdered v))
  enter .fixedPointTier
  return (first ++ priority ++ ordered, regular)

/-- Run all definition mutators. The answer holds them in the order of their callbacks, and the
supplied extensions that have a factory callback only. -/
def mutateDefinitions (depth : Nat) (supplied : List (Extension H)) :
    Stage H σ (List (Extension H) × List (Extension H)) := do
  let (opening, regular) ← openingTiers call v supplied
  let rest ← fixedPoint call v depth
  return (opening ++ rest, regular)

/-! ## Factory mutators -/

def runFactoryTier (names : List ComponentName) : Stage H σ Unit := do
  let tier ← attempt (v.fetchAll call .factoryMutator names)
  callFactories call v (← always (v.sort tier))

def mutateFactory : Stage H σ Unit := do
  enter .factoryCallbacks
  let names ← always (v.names .factoryMutator true false)
  let processed := (← get).processed
  let tiers ← attempt (v.divide call .factoryMutator (· ∈ processed) names)
  always (Run.record
    (.tiersSplit tiers.priority.length tiers.ordered.length tiers.unordered.length))
  callFactories call v (← always (v.sort tiers.priority))
  runFactoryTier call v tiers.ordered
  runFactoryTier call v tiers.unordered

/-! ## A run -/

def steps (depth : Nat) (supplied : List (Extension H)) : Stage H σ Unit := do
  if v.writable then
    let (mutators, regular) ← mutateDefinitions call v depth supplied
    enter .factoryCallbacks
    callFactories call v mutators
    callFactories call v regular
  else
    updateReport ({ · with degraded := true })
    always (Run.record .degraded)
    enter .factoryCallbacks
    callFactories call v supplied
  mutateFactory call v
  always v.clearCache

def finish (result : Except ExtensionError Unit) : Stage H σ Unit := do
  match result with
  | .ok _ =>
    enter .done
    let s ← get
    always (Run.record (.pipelineDone s.report))
  | .error e =>
    let s ← get
    enter .aborted
    always (Run.record (.pipelineAborted s.report.phase e))

def error? : Except ExtensionError Unit → Option ExtensionError
  | .ok _ => none
  | .error e => some e

/-- One run of the pipeline: its result, and the report of what it did, failed or not. -/
def invoke (depth : Nat) (supplied : List (Extension H)) :
    Run H σ (Except ExtensionError Unit × Report) :=
  Run.within (fun x => .pipeline v supplied x.2 (error? x.1)) do
    Run.record (.pipelineStarted supplied.length)
    let (result, s) ← (steps call v depth supplied).run.run {}
    let (_, s') ← (finish result : Stage H σ Unit).run.run s
    return (result, s'.report)

end Startup.Pipeline
