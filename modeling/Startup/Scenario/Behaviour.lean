import Startup.Scenario.Act

/-!
How the components of a scenario behave: each callback notes that it was made and then goes
through its script. The first step that fails ends the script, and its failure is that of the
callback.
-/

namespace Startup.Scenario

namespace Act

/-- Where a script runs: on which registry, and for which component. -/
structure Place where
  view : View
  component? : Option ComponentName := none

def allowed (p : Place) (g : Guard) : Act Bool := do
  let r ← registry p.view
  let meant := g.only?.all fun names => p.component?.any fun n => n.text ∈ names
  let defined := g.ifDefined?.all fun n => r.definitions.contains ⟨n⟩
  let undefined := g.unlessDefined?.all fun n => !r.definitions.contains ⟨n⟩
  return meant && defined && undefined

def performAs (v : View) (op : Operation) : Mode → Act Unit
  | .quiet => do
    let _ ← perform v op
  | .shown => do note (.shown (← perform v op))
  | .tried => do note (.tried (← ExceptT.lift (perform v op).run))

/-- Do a step. The instance at hand, if there is one, may be replaced. -/
def act (p : Place) (i? : Option (Instance Scripted)) : Action → Act (Option (Instance Scripted))
  | .fail text => throw (.plain text)
  | .note text => do
    note (.text text)
    return i?
  | .wrap tag =>
    match i? with
    | none => return none
    | some i => do return some (← plain (tag ++ "(" ++ Content.label i.value ++ ")"))
  | .swap s =>
    match i? with
    | none => return none
    | some _ => do return some (← make p.view s)
  | .perform mode op => do
    performAs p.view op mode
    return i?

def runScript (p : Place) :
    Option (Instance Scripted) → List Step → Act (Option (Instance Scripted))
  | i?, [] => return i?
  | i?, .mk guard action :: rest => do
    if ← allowed p guard then
      let j? ← act p i? action
      runScript p j? rest
    else
      runScript p i? rest

def runOn (p : Place) (script : List Step) : Act Unit := do
  let _ ← runScript p none script

/-- Go through a script that may replace an instance. -/
def transform (p : Place) (i : Instance Scripted) (script : List Step) :
    Act (Instance Scripted) := do
  return (← runScript p (some i) script).getD i

/-! ## Callbacks -/

def create (d : Definition Scripted) (v : View) (script : List Step) (product : InstanceSpec) :
    Act (Instance Scripted) := do
  runOn { view := v, component? := some d.name } script
  note (.created d.name.text)
  make v product

/-- Tell a listener. Its failure goes no further. -/
def tell (name : String) (onEvent : List Step) (x : ContainerEvent) : Act Unit := do
  note (.told name x)
  let result ← ExceptT.lift (runOn { view := (← memory).view } onEvent).run
  match result with
  | .ok _ => return ()
  | .error f => note (.listenerFailed f)

structure Scripts where
  definition : List Step := []
  factory : List Step := []
  before : List Step := []
  after : List Step := []
  merge : List Step := []

/-- The scripts of an extension, if it is one of those that note and act. -/
def scripts? (e : Extension Scripted) : Option Scripts :=
  match e.body with
  | .code (.extension definition factory before after merge) =>
    some { definition, factory, before, after, merge }
  | _ => none

/-- Whether an extension notes only that it was called to mutate definitions. -/
def isMinimal (e : Extension Scripted) : Bool := e.body matches .code .minimal

def mutateDefinitions (e : Extension Scripted) (v : View) : Act Unit := do
  match scripts? e with
  | some s =>
    note (.mutatedDefinitions e.name)
    runOn { view := v } s.definition
  | none => if isMinimal e then note (.mutatedDefinitions e.name)

def mutateFactory (e : Extension Scripted) (v : View) : Act Unit := do
  match scripts? e with
  | some s =>
    note (.mutatedFactory e.name)
    runOn { view := v } s.factory
  | none => return ()

def merged (e : Extension Scripted) (d : Definition Scripted) (n : ComponentName) :
    Act Unit := do
  match scripts? e with
  | some s =>
    note (.merged n.text e.name (.of d))
    runOn { view := (← memory).view, component? := some n } s.merge
  | none => return ()

def before (e : Extension Scripted) (v : View) (i : Instance Scripted) (n : ComponentName) :
    Act (Instance Scripted) := do
  match scripts? e with
  | some s =>
    note (.before n.text e.name (Content.description i.value))
    transform { view := v, component? := some n } i s.before
  | none => return i

def after (e : Extension Scripted) (v : View) (i : Instance Scripted) (n : ComponentName) :
    Act (Instance Scripted) := do
  match scripts? e with
  | some s =>
    note (.after n.text e.name (Content.description i.value))
    transform { view := v, component? := some n } i s.after
  | none => return i

end Act

/-- The components of a scenario do what their scripts say. -/
def behaviour : Behaviour Scripted Memory
  | .create d v =>
    match d.factory with
    | .factory script product => (Act.create d v script product).run
    | _ => (Act.misuse "not a factory").run
  | .mutateDefinitions e v => (Act.mutateDefinitions e v).run
  | .mutateFactory e v => (Act.mutateFactory e v).run
  | .merged e d n => (Act.merged e d n).run
  | .before e v i n => (Act.before e v i n).run
  | .after e v i n => (Act.after e v i n).run
  | .event l x =>
    match l.code with
    | .listener name onEvent => do
      let _ ← (Act.tell name onEvent x).run
    | _ => pure ()

end Startup.Scenario
