import Startup.Component.Basic
import Startup.Component.Tier
import Startup.OrderedMap

/-!
Definitions of components. A definition says what a registry may know about a component without
creating it: its type, its role, how long its instances live, which capabilities it declares.

The full name of a type is a path, its segments joined by `::`, perhaps followed by generic
arguments in angle brackets. The short name drops the module path and keeps the arguments.
-/

namespace Startup

namespace TypeName

/-- What follows the last `::`, if there is one. -/
def afterSeparator : List Char → Option (List Char)
  | [] => none
  | ':' :: ':' :: r => some ((afterSeparator (':' :: r)).getD r)
  | _ :: r => afterSeparator r

/-- The module path of the part before the first `<` is dropped, all else is kept. -/
def shortChars (cs : List Char) : List Char :=
  match afterSeparator (cs.takeWhile (· ≠ '<')) with
  | some last => last ++ cs.dropWhile (· ≠ '<')
  | none => cs

def short (fullName : String) : String := String.ofList (shortChars fullName.toList)

theorem afterSeparator_none_of_not_mem {cs : List Char} (h : ':' ∉ cs) :
    afterSeparator cs = none := by
  fun_induction afterSeparator cs with
  | case1 => rfl
  | case2 r _ => simp at h
  | case3 c r hc ih => exact ih (fun m => h (List.mem_cons_of_mem c m))

end TypeName

/-- What is known about the type of a component: two types are the same if their full names are. -/
structure TypeInfo where
  path : String
  deriving DecidableEq, Repr, Inhabited

def TypeInfo.name (t : TypeInfo) : String := TypeName.short t.path

inductive Role where
  | application
  /-- Part of a larger configuration. -/
  | support
  /-- Internal to the container. -/
  | infrastructure
  deriving DecidableEq, Repr, Inhabited

def Role.isInfrastructure (r : Role) : Bool := r = .infrastructure

inductive Lifetime where
  /-- One instance, kept by the registry. -/
  | singleton
  /-- A new instance for every request. -/
  | transient
  deriving DecidableEq, Repr, Inhabited

structure Definition (H : Host) where
  name : ComponentName
  type : TypeInfo
  factory : H.Code
  role : Role := .application
  lifetime : Lifetime := .singleton
  /-- Left out when singletons are created ahead of use. -/
  isLazy : Bool := false
  capabilities : List Capability := []
  properties : OrderedMap String String := ∅

namespace Definition

variable {H : Host}

def isSingleton (d : Definition H) : Bool := d.lifetime = .singleton

def withCapability (d : Definition H) (c : Capability) : Definition H :=
  { d with capabilities := if c ∈ d.capabilities then d.capabilities else d.capabilities ++ [c] }

/-- Declare a tier; the order value itself belongs to the instance. -/
def withTier (d : Definition H) (t : OrderTier) : Definition H :=
  match t.capability? with
  | some c => d.withCapability c
  | none => d

def withProperty (d : Definition H) (key value : String) : Definition H :=
  { d with properties := d.properties.insert key value }

/-- Declared, or implied by a declared one. -/
def hasCapability (d : Definition H) (c : Capability) : Bool :=
  d.capabilities.any (·.implies c)

end Definition

end Startup
