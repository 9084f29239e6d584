import Startup.Program
import Startup.Scenario.Answer
import Startup.Scenario.Script

/-!
The host of scenarios. Its components carry labels, numbers or texts, its code is scripts, and it
remembers the objects that a scenario names.
-/

namespace Startup.Scenario

/-- What an object of a scenario carries. Objects that look alike are told apart by a serial
number. -/
inductive Content where
  | plain (label : String) (serial : Nat)
  | listener (label : String) (serial : Nat)
  | extension (name : String) (serial : Nat)
  | number (n : UInt32)
  | text (s : String)
  | unit
  deriving DecidableEq, Repr, Inhabited

inductive Code where
  | factory (script : List Step) (product : InstanceSpec)
  | extension (definition factory before after merge : List Step)
  | listener (name : String) (onEvent : List Step)
  /-- Notes that it was called to mutate definitions, and does nothing else. -/
  | minimal

abbrev Scripted : Host where
  Code := Code
  Value := Content
  Note := Note

structure Memory where
  /-- The registry of the scenario, as it presents itself. -/
  view : View
  context : ObjectId
  /-- The serial number that was given last. -/
  serial : Nat := 0
  handles : List (Instance Scripted) := []
  /-- Names that were registered or meant to be, in the order of their first use. -/
  names : List String := []
  checkers : List (Extension Scripted) := []
  detectors : List (Extension Scripted) := []
  container? : Option (Container Scripted) := none

/-- The registry of the scenario itself. -/
def Memory.base (m : Memory) : View := .direct m.view.registry

/-! ## Descriptions -/

namespace Content

/-- The label, or what stands for one. -/
def label : Content → String
  | plain label _ | listener label _ => label
  | extension name _ => "ext:" ++ name
  | number n => "u32:" ++ toString n.toNat
  | text s => "string:" ++ s
  | unit => "unit"

def description (c : Content) : String :=
  match c with
  | plain _ n | listener _ n | extension _ n => c.label ++ "#" ++ toString n
  | number _ | text _ | unit => c.label

end Content

def InstanceInfo.of (i : Instance Scripted) : InstanceInfo where
  description := Content.description i.value
  typeName := i.typeName
  extension? := i.extension?.map (·.name)
  isListener := i.listener?.isSome
  isInterceptor := i.isInterceptor

def DefinitionInfo.of (d : Definition Scripted) : DefinitionInfo where
  name := d.name.text
  type := d.type
  role := d.role
  isSingleton := d.isSingleton
  isLazy := d.isLazy
  declared := Capability.all.filter (· ∈ d.capabilities)
  has := Capability.all.filter d.hasCapability
  properties := d.properties.entries

namespace DefinitionSpec

def toDefinition : DefinitionSpec → Definition Scripted
  | mk name type capabilities tier role lifetime isLazy properties create product =>
    let d : Definition Scripted :=
      { name := ⟨name⟩, type := type.info, factory := .factory create product }
    let d := (capabilities.foldl Definition.withCapability d).withTier tier
    let d := { d with role, lifetime, isLazy }
    properties.foldl (fun d p => d.withProperty p.1 p.2) d

end DefinitionSpec

/-! ## Comparators -/

inductive Preference where
  | standard
  | reversed
  | byName
  | byNameReversed
  /-- By order value, whatever the tier. -/
  | byOrder
  /-- All extensions are equal. -/
  | none
  deriving DecidableEq, Repr, Inhabited

namespace Preference

def byNameOf : Comparator Scripted := fun a b => compare a.name b.name

def comparator : Preference → Comparator Scripted
  | standard => Comparator.standard
  | reversed => fun a b => Comparator.standard b a
  | byName => byNameOf
  | byNameReversed => fun a b => byNameOf b a
  | byOrder => fun a b => compare a.tier.effectiveOrder.toInt b.tier.effectiveOrder.toInt
  | none => fun _ _ => .eq

end Preference

end Startup.Scenario
