import Startup.Component.Definition
import Startup.Component.Instance
import Startup.Failure
import Startup.Journal.Event

/-!
What operations of a scenario answer, and what its callbacks note. Objects are described as they
were at the moment of the answer.
-/

namespace Startup.Scenario

structure InstanceInfo where
  description : String
  typeName : String
  extension? : Option String
  isListener : Bool
  isInterceptor : Bool
  deriving DecidableEq, Repr, Inhabited

structure DefinitionInfo where
  name : String
  type : TypeInfo
  role : Role
  isSingleton : Bool
  isLazy : Bool
  declared : List Capability
  has : List Capability
  properties : List (String × String)
  deriving DecidableEq, Repr, Inhabited

structure ContainerInfo where
  components : Nat
  report : Report
  target : Nat
  bypassed : List String
  listeners : List String
  interceptors : Nat
  deriving DecidableEq, Repr, Inhabited

mutual

inductive Answer where
  | nothing
  | flag (b : Bool)
  | count (n : Nat)
  | text (s : String)
  | names (l : List String)
  | role (r : Role)
  | instance (i : InstanceInfo)
  | definition (d : DefinitionInfo)
  | extension (name : String) (tier : OrderTier)
  | support (capabilities : List Capability) (tier : OrderTier) (views : Views)
  | report (r : Report)
  | session (l : List SessionAnswer)
  | registration (target checkerTarget count : Nat)
  | bypassed (target : Nat) (names : List String)
  | container (c : ContainerInfo)

inductive SessionAnswer where
  /-- The result of a run, and the report that it left. -/
  | invoked (result : Except Failure Report) (report : Report)
  | report (r : Report)
  | performed (result : Except Failure Answer)

end

instance : Inhabited Answer := ⟨.nothing⟩

inductive Note where
  /-- A factory is about to make its instance. -/
  | created (component : String)
  | mutatedDefinitions (extension : String)
  | mutatedFactory (extension : String)
  | before (component extension description : String)
  | after (component extension description : String)
  | merged (component extension : String) (d : DefinitionInfo)
  | told (listener : String) (e : ContainerEvent)
  | listenerFailed (f : Failure)
  | text (s : String)
  | tried (result : Except Failure Answer)
  | shown (a : Answer)

end Startup.Scenario
