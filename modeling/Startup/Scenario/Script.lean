import Startup.Config.Basic
import Startup.Component.Definition
import Startup.Component.Instance

/-!
Scripts. A script describes what a component does when it is called, as a list of steps; a
scenario is a list of the same operations, made from outside. Definitions and instances are
described by what they are made from, scripts included.
-/

namespace Startup.Scenario

/-! ## Descriptions without scripts -/

inductive SampleType where
  | plain
  | extension
  | number
  | text
  | listOfOptions
  | pair
  | array
  | optional
  | boxed
  | unit
  deriving DecidableEq, Repr, Inhabited

namespace SampleType

def path : SampleType → String
  | plain => "driver::scripted::Plain"
  | extension => "driver::scripted::Ext"
  | number => "u32"
  | text => "alloc::string::String"
  | listOfOptions => "alloc::vec::Vec<core::option::Option<u8>>"
  | pair => "(u32, alloc::string::String)"
  | array => "[alloc::string::String; 2]"
  | optional => "core::option::Option<driver::scripted::Plain>"
  | boxed => "alloc::boxed::Box<alloc::vec::Vec<alloc::string::String>>"
  | unit => "()"

def info (t : SampleType) : TypeInfo := { path := t.path }

end SampleType

/-- What stands between a step and its execution. -/
structure Guard where
  /-- The components for which the step is meant. -/
  only? : Option (List String) := none
  /-- There has to be a definition of this name. -/
  ifDefined? : Option String := none
  /-- There must be no definition of this name. -/
  unlessDefined? : Option String := none
  deriving Inhabited

/-- What becomes of the result of an operation in a script. -/
inductive Mode where
  /-- A failure fails the script. -/
  | quiet
  /-- A failure fails the script, a value is noted. -/
  | shown
  /-- The result is noted, whatever it is. -/
  | tried
  deriving DecidableEq, Repr, Inhabited

inductive Cast where
  | number
  | text
  | plain
  | listener
  | extension
  deriving DecidableEq, Repr, Inhabited

inductive DirectCall where
  | before
  | after
  | merge
  deriving DecidableEq, Repr, Inhabited

inductive ContextOwner where
  | scenario
  | container
  deriving DecidableEq, Repr, Inhabited

inductive BuildSpec where
  | document (text : String)
  /-- Nothing but a level of logging. -/
  | level (text : String)
  | file (f : ConfigFile)
  | preinstantiate (b : Bool)
  | announce (b : Bool)
  | logging (c : LogConfig)

/-! ## Scripts -/

mutual

inductive InstanceSpec where
  | plain (label : String)
  | number (n : UInt32)
  | text (s : String)
  | unit
  | listener (label : String) (onEvent : List Step)
  | extension (name : String) (tier : OrderTier) (views : Views) (listens : Bool)
      (definition factory before after merge onEvent : List Step)
  /-- An extension that does nothing in its callbacks. -/
  | minimal (name : String) (views : Views)
  /-- Not even one of these: an extension without extension points. -/
  | bare (name : String)
  /-- What a handle stands for. -/
  | handle (i : Nat)
  /-- A component of the registry. -/
  | component (name : String)

inductive DefinitionSpec where
  | mk (name : String) (type : SampleType) (capabilities : List Capability) (tier : OrderTier)
      (role : Role) (lifetime : Lifetime) (isLazy : Bool) (properties : List (String × String))
      (create : List Step) (product : InstanceSpec)

/-- An instance, by a handle or newly made. -/
inductive Pick where
  | handle (i : Nat)
  | made (s : InstanceSpec)

inductive Step where
  | mk (guard : Guard) (action : Action)

inductive Action where
  | fail (text : String)
  | note (text : String)
  /-- Put another plain object around the instance at hand. -/
  | wrap (tag : String)
  /-- Put another object in the place of the instance at hand. -/
  | swap (s : InstanceSpec)
  | perform (mode : Mode) (op : Operation)

inductive Operation where
  -- Definitions
  | register (d : DefinitionSpec)
  | remove (name : String)
  | get (name : String)
  | names
  | count
  | create (name : String)
  -- Components
  | query (c : Capability) (all eager : Bool)
  | isMatch (name : String) (c : Capability)
  | resolve (name : String)
  | fetch (name : String) (c : Capability)
  | install (p : Pick)
  | installAll (items : List Pick)
  | interceptorCount
  | clearCache
  | contains (name : String)
  | role (name : String)
  | hasComparator
  | writable
  | preinstantiate
  | registerInstance (name : String) (p : Pick)
  | hasSingleton (name : String)
  -- Instances
  | make (s : InstanceSpec)
  | inspect (handle : Nat)
  | same (a b : Nat)
  | downcast (handle : Nat) (c : Cast)
  | supports (p : Pick)
  | factoryCallback (p : Pick)
  -- Pipelines
  | invoke (supplied : List Pick)
  | session (steps : List SessionStep)
  | registerInterceptors
  | installChecker (target : Nat)
  | installDetector
  | bypassed (checker : Nat)
  | direct (checker? detector? : Option Nat) (target : Pick) (call : DirectCall) (name : String)
      (p : Pick) (d : DefinitionSpec)
  -- Contexts
  | listeners (c : ContextOwner)
  | addListener (c : ContextOwner) (name : String) (p : Pick)
  | publish (c : ContextOwner) (e : ContainerEvent)
  -- Containers
  | start (supplied : List Pick)
  | build (supplied : List Pick) (ownRegistry : Bool) (steps : List BuildSpec)
  | containerInfo
  | containerResolve (name : String)
  | containerClose
  | onContainer (op : Operation)
  -- Texts for programmers
  | showRegistry
  | showContext
  | showContainer
  | showDefinition (d : DefinitionSpec)
  | showDetector (i : Nat)
  | showInstance (p : Pick)
  /-- On the registry of the scenario itself, whatever stands in front of it. -/
  | onBase (op : Operation)
  | unknown

/-- A step of a session with one pipeline. -/
inductive SessionStep where
  | invoke (supplied : List Pick)
  | report
  | perform (op : Operation)

end

instance : Inhabited InstanceSpec := ⟨.plain ""⟩

instance : Inhabited Pick := ⟨.made default⟩

instance : Inhabited Operation := ⟨.unknown⟩

instance : Inhabited Step := ⟨.mk {} (.perform .quiet .unknown)⟩

instance : Inhabited DefinitionSpec :=
  ⟨.mk "" .plain [] .unordered .application .singleton false [] [] default⟩

instance : Inhabited SessionStep := ⟨.report⟩

/-! ## Surroundings -/

/-- What is found at a path where there are no files, only the directories that lead nowhere
else. -/
def contentAt (path : String) : FileContent :=
  if path.isEmpty then .missing
  else if (path.splitOn "/").all fun part => part == "" || part == "." || part == ".." then
    .directory
  else .missing

end Startup.Scenario
