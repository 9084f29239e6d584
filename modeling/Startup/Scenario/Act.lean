import Startup.Scenario.Show

/-!
What the operations of a scenario do: a program for each, on the registry at hand.

An operation may be one that makes no sense where it is made, such as the use of a handle that
stands for nothing; that is a misuse, and the only failure that does not come from the library or
from a script.
-/

namespace Startup.Scenario

abbrev Act (α : Type) := ExceptT Failure (Program Scripted Memory) α

namespace Act

variable {α ε : Type}

def ask (r : Request Scripted Memory) : Act r.Answer := ExceptT.lift (Program.request r)

/-- A program whose errors are failures of a kind. -/
def attempt (kind : ε → Failure) (x : Program Scripted Memory (Except ε α)) : Act α :=
  ExceptT.mk (Except.mapError kind <$> x)

def dependency (x : Program Scripted Memory (Except DependencyError α)) : Act α :=
  attempt Failure.dependency x

def misuse (text : String) : Act α := throw (.misuse text)

def found (text : String) : Option α → Act α
  | some a => pure a
  | none => misuse text

def look (f : World Scripted Memory → α) : Act α := ExceptT.lift (Program.request (.look f))

def memory : Act Memory := look (·.memory)

def remember (f : Memory → Memory) : Act Unit := ask (.remember f)

def note (x : Note) : Act Unit := ask (.note x)

def registry (v : View) : Act (Registry Scripted) := look (·.registries.get v.registry)

def interceptorCount (v : View) : Act Answer := do
  return .count (← registry v).interceptors.length

def demandWritable (v : View) : Act Unit :=
  if v.writable then pure () else misuse "read-only registry"

/-! ## Instances -/

def nextSerial : Act Nat := do
  remember fun m => { m with serial := m.serial + 1 }
  return (← memory).serial

def object (typeName : String) (value : Content) : Act (Instance Scripted) := do
  let id ← ask .fresh
  return { id, typeName, value, extension? := none, listener? := none }

def plain (label : String) : Act (Instance Scripted) := do
  object "driver::scripted::Plain" (.plain label (← nextSerial))

def extension (typeName name : String) (tier : OrderTier) (views : Views) (code : Code) :
    Act (Instance Scripted) := do
  let i ← object typeName (.extension name (← nextSerial))
  return { i with extension? := some { id := i.id, name, tier, views, body := .code code } }

def listening (name : String) (onEvent : List Step) (i : Instance Scripted) : Instance Scripted :=
  { i with listener? := some { id := i.id, code := .listener name onEvent } }

def handle (i : Nat) : Act (Instance Scripted) := do
  found "no such handle" (← memory).handles[i]?

def keep (i : Instance Scripted) : Act Answer := do
  remember fun m => { m with handles := m.handles ++ [i] }
  return .instance (.of i)

def make (v : View) : InstanceSpec → Act (Instance Scripted)
  | .plain label => plain label
  | .number n => object "u32" (.number n)
  | .text s => object "alloc::string::String" (.text s)
  | .unit => object "()" .unit
  | .listener label onEvent => do
    let i ← object "driver::scripted::Listener" (.listener label (← nextSerial))
    return listening label onEvent i
  | .extension name tier views listens definition factory before after merge onEvent => do
    let i ← extension "driver::scripted::Ext" name tier views
      (.extension definition factory before after merge)
    return if listens then listening name onEvent i else i
  | .minimal name views => extension "driver::scripted::Min" name .unordered views .minimal
  | .bare name => extension "driver::scripted::Bare" name .unordered {} .minimal
  | .handle i => handle i
  | .component name => dependency (Program.request (.resolve v ⟨name⟩))

def pick (v : View) : Pick → Act (Instance Scripted)
  | .handle i => handle i
  | .made s => make v s

def pickExtension (v : View) (p : Pick) : Act (Extension Scripted) := do
  found "not an extension" (← pick v p).extension?

def pickExtensions (v : View) : List Pick → Act (List (Extension Scripted))
  | [] => pure []
  | p :: rest => do
    let e ← pickExtension v p
    return e :: (← pickExtensions v rest)

def downcast (value : Content) (typeName : String) : Cast → Answer
  | .number => match value with
    | .number n => .count n.toNat
    | _ => .nothing
  | .text => match value with
    | .text s => .text s
    | _ => .nothing
  | .plain => match value with
    | .plain label _ => .text label
    | _ => .nothing
  | .listener => .flag (typeName == "driver::scripted::Listener")
  | .extension => .flag (typeName == "driver::scripted::Ext")

/-! ## Callbacks made directly -/

/-- Call an extension to adjust the container, if it does that at all. -/
def factoryCallback (v : View) (e : Extension Scripted) : Act Answer := do
  if e.views.definitionMutator || e.views.factoryMutator then
    attempt id (Program.request (.perform (.mutateFactory e v)))
    return .text "done"
  else
    return .text "none"

/-- The extension that is meant: a checker, a detector or any other. -/
def target (v : View) (checker? detector? : Option Nat) (p : Pick) : Act (Extension Scripted) := do
  let m ← memory
  match checker?.bind (m.checkers[·]?), detector?.bind (m.detectors[·]?) with
  | some e, _ | none, some e => return e
  | none, none => pickExtension v p

def demandView (b : Bool) : Act Unit := if b then pure () else misuse "no such view"

def direct (v : View) (e : Extension Scripted) (call : DirectCall) (name : String) (p : Pick)
    (d : DefinitionSpec) : Act Answer := do
  match call with
  | .before =>
    demandView e.views.interceptor
    let i ← pick v p
    return .instance (.of (← attempt id (Program.request (.perform (.before e v i ⟨name⟩)))))
  | .after =>
    demandView e.views.interceptor
    let i ← pick v p
    return .instance (.of (← attempt id (Program.request (.perform (.after e v i ⟨name⟩)))))
  | .merge =>
    demandView e.views.mergeAware
    attempt id (Program.request (.perform (.merged e d.toDefinition ⟨name⟩)))
    return .nothing

/-! ## Contexts and containers -/

def container : Act (Container Scripted) := do
  found "no container" (← memory).container?

def contextOf : ContextOwner → Act ObjectId
  | .scenario => do return (← memory).context
  | .container => do return (← container).context

def names (l : List ComponentName) : Answer := .names (l.map (·.text))

def listenerNames (context : ObjectId) : Act (List ComponentName) :=
  look fun w => (w.contexts.get context).keys

def containerInfo (c : Container Scripted) : Act Answer := do
  let listeners ← listenerNames c.context
  let r ← registry c.view
  return .container {
    components := ← look c.componentCount
    report := c.report
    target := c.registration.target
    bypassed := (← look c.bypassed).map (·.text)
    listeners := listeners.map (·.text)
    interceptors := r.interceptors.length }

/-- Make a container the one of the scenario. -/
def enter (c : Container Scripted) : Act Answer := do
  remember fun m => { m with container? := some c }
  containerInfo c

def BuildSpec.toStep : BuildSpec → BuildStep Scripted
  | .document text => .document text
  | .level text => .config { logging? := some { level := text } }
  | .file f => .configFile f
  | .preinstantiate b => .preinstantiate b
  | .announce b => .announce b
  | .logging c => .logging c

/-! ## Operations -/

def invoke (v : View) (supplied : List (Extension Scripted)) :
    Act (Except ExtensionError Unit × Report) := ask (.invoke v supplied)

/-- Keep a name in mind, for the state that is shown after each operation. -/
def useName (name : String) : Act Unit :=
  remember fun m => { m with names := if name ∈ m.names then m.names else m.names ++ [name] }

mutual

def perform (v : View) : Operation → Act Answer
  | .register d => do
    let d := d.toDefinition
    useName d.name.text
    demandWritable v
    dependency (Program.request (.register v.registry d))
    return .nothing
  | .remove name => do
    demandWritable v
    let d ← dependency (Program.request (.remove v.registry ⟨name⟩))
    return .definition (.of d)
  | .get name => do
    demandWritable v
    match (← registry v).definitions.get? ⟨name⟩ with
    | some d => return .definition (.of d)
    | none => return .nothing
  | .names => do
    demandWritable v
    return names (← registry v).definitions.keys
  | .count => do
    demandWritable v
    return .count (← registry v).definitions.size
  | .create name => do
    demandWritable v
    let d ← found "no definition" ((← registry v).definitions.get? ⟨name⟩)
    return .instance (.of (← attempt id (Program.request (.perform (.create d v)))))
  | .query c all eager => do
    return names (← ask (.names v c all eager))
  | .isMatch name c => do
    return .flag ((← registry v).isMatch ⟨name⟩ c)
  | .resolve name => do
    keep (← dependency (Program.request (.resolve v ⟨name⟩)))
  | .fetch name c => do
    let e ← dependency (Program.request (.fetch v ⟨name⟩ c))
    return .extension e.name e.tier
  | .install p => do
    let e ← pickExtension v p
    ask (.install v e)
    interceptorCount v
  | .installAll items => do
    let es ← pickExtensions v items
    ask (.installAll v es)
    interceptorCount v
  | .interceptorCount => interceptorCount v
  | .clearCache => do
    ask (.clearCache v)
    return .nothing
  | .contains name => do
    return .flag ((← registry v).definitions.contains ⟨name⟩)
  | .role name => do
    match (← registry v).role? ⟨name⟩ with
    | some r => return .role r
    | none => return .nothing
  | .hasComparator => do
    return .flag (v.ordering && (← registry v).comparator?.isSome)
  | .writable => return .flag v.writable
  | .preinstantiate => do
    dependency (Program.request (.preinstantiate v))
    return .nothing
  | .registerInstance name p => do
    let i ← pick v p
    useName name
    dependency (Program.request (.registerInstance (← memory).base.registry ⟨name⟩ i))
    return .nothing
  | .hasSingleton name => do
    return .flag ((← registry (← memory).base).singletons.contains ⟨name⟩)
  | .make s => do keep (← make v s)
  | .inspect i => do return .instance (.of (← handle i))
  | .same a b => do
    let i ← handle a
    let j ← handle b
    return .flag (i.same j)
  | .downcast i c => do
    let i ← handle i
    return downcast i.value i.typeName c
  | .supports p => do
    let e ← pickExtension v p
    return .support (Capability.all.filter e.supports) e.tier e.views
  | .factoryCallback p => do factoryCallback v (← pickExtension v p)
  | .invoke supplied => do
    let (result, report) ← invoke v (← pickExtensions v supplied)
    match result with
    | .ok _ => return .report report
    | .error e => throw (.extension e)
  | .session steps => do return .session (← session v {} steps)
  | .registerInterceptors => do
    let r ← attempt Failure.extension
      (Program.request (.registerInterceptors v (← memory).context))
    remember fun m => { m with
      checkers := m.checkers ++ [r.checker]
      detectors := m.detectors ++ [r.detector] }
    let expected ← look fun w => (w.checkers.get r.checker.id).target
    return .registration r.target expected (← registry v).interceptors.length
  | .installChecker n => do
    let e : Extension Scripted ← ask (.newChecker n)
    ask (.install v e)
    remember fun m => { m with checkers := m.checkers ++ [e] }
    interceptorCount v
  | .installDetector => do
    let e : Extension Scripted ← ask (.newDetector (← memory).context)
    ask (.install v e)
    remember fun m => { m with detectors := m.detectors ++ [e] }
    interceptorCount v
  | .bypassed i => do
    let e ← found "no such checker" (← memory).checkers[i]?
    let c ← look (·.checkers.get e.id)
    return .bypassed c.target (c.bypassed.map (·.text))
  | .direct checker? detector? p call name i d => do
    direct v (← target v checker? detector? p) call name i d
  | .listeners c => do return names (← listenerNames (← contextOf c))
  | .addListener c name p => do
    let l ← found "not a listener" (← pick v p).listener?
    ask (.addListener (← contextOf c) ⟨name⟩ l)
    return .nothing
  | .publish c e => do
    ask (.publish (← contextOf c) e)
    return .nothing
  | .start supplied => do
    let es ← pickExtensions v supplied
    let c ← attempt Failure.infrastructure (Program.request (.start (← memory).view es))
    enter c
  | .build supplied ownRegistry specs => do
    let es ← pickExtensions v supplied
    let steps := es.map BuildStep.extension ++ specs.map BuildSpec.toStep
    let m ← memory
    let v? := if ownRegistry then none else some m.view
    let c ← attempt Failure.infrastructure (Program.request (.build v? steps))
    enter c
  | .containerInfo => do containerInfo (← container)
  | .containerResolve name => do
    let c ← container
    keep (← dependency (Program.request (.resolve c.view ⟨name⟩)))
  | .containerClose => do
    ask (.close (← container))
    return .nothing
  | .onContainer op => do
    let c ← container
    perform c.view op
  | .showRegistry => do return .text (Show.registry (← registry (← memory).base))
  | .showContext => do
    let context := (← memory).context
    return .text (Show.context (← look (·.contexts.get context)))
  | .showContainer => do
    let c ← container
    return .text (Show.container c (← look (·.contexts.get c.context)))
  | .showDefinition d => return .text (Show.definition d.toDefinition)
  | .showDetector i => do
    let e ← found "no such detector" (← memory).detectors[i]?
    return .text (Show.detector (← look (·.detectors.get e.id)))
  | .showInstance p => do return .text (Show.instanceOf (← pick v p))
  | .onBase op => do
    let m ← memory
    perform m.base op
  | .unknown => misuse "unknown op"

/-- Do the steps of a session, whose pipeline last left a report. -/
def session (v : View) (last : Report) : List SessionStep → Act (List SessionAnswer)
  | [] => return []
  | .invoke supplied :: rest => do
    let (result, report) ← invoke v (← pickExtensions v supplied)
    let result := (result.map fun _ => report).mapError Failure.extension
    return .invoked result report :: (← session v report rest)
  | .report :: rest => do return .report last :: (← session v last rest)
  | .perform op :: rest => do
    let result ← ExceptT.lift (perform v op).run
    return .performed result :: (← session v last rest)

end

end Act

end Startup.Scenario
