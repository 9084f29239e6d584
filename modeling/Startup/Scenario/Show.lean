import Startup.Scenario.Scripted
import Startup.Text.Quoted

/-!
Objects of a scenario as texts, for the eyes of a programmer.
-/

namespace Startup.Scenario

open Text

namespace Show

def componentName (n : ComponentName) : String := "ComponentName(" ++ quoted n.text ++ ")"

def names (l : List ComponentName) : String := bracketed (l.map componentName)

def registry (r : Registry Scripted) : String :=
  fields "DefaultComponentRegistry"
    [("definitions", names r.definitions.keys),
     ("singletons", toString r.singletons.size),
     ("interceptors", bracketed (r.interceptors.map fun e => quoted e.name)),
     ("comparator", presence (r.comparator?.map fun _ => quoted "<comparator>"))] true

def context (c : Context Scripted) : String :=
  fields "DefaultContainerContext" [("listeners", names c.keys)] true

def phase : Phase → String
  | .init => "Init"
  | .separatingSupplied => "SeparatingSupplied"
  | .priorityTier => "PriorityTier"
  | .orderedTier => "OrderedTier"
  | .fixedPointTier => "FixedPointTier"
  | .factoryCallbacks => "FactoryCallbackPhase"
  | .done => "Done"
  | .aborted => "Aborted"

def report (r : Report) : String :=
  fields "PipelineReport"
    [("definition_invocations", bracketed (r.definitionCalls.map quoted)),
     ("factory_invocations", bracketed (r.factoryCalls.map quoted)),
     ("fixed_point_rounds", toString r.rounds),
     ("final_phase", phase r.phase),
     ("degraded", toString r.degraded)] true

def container (c : Container Scripted) (listeners : Context Scripted) : String :=
  fields "ComponentContainer"
    [("context", context listeners),
     ("report", report c.report),
     ("target_count", toString c.registration.target)] false

def role : Role → String
  | .application => "Application"
  | .support => "Support"
  | .infrastructure => "Infrastructure"

def lifetime : Lifetime → String
  | .singleton => "Singleton"
  | .transient => "Transient"

def definition (d : Definition Scripted) : String :=
  fields "ComponentDefinition"
    [("name", componentName d.name),
     ("type_info", quoted d.type.name),
     ("role", role d.role),
     ("lifetime", lifetime d.lifetime),
     ("lazy_init", toString d.isLazy),
     ("capabilities",
      "\x7b" ++ ", ".intercalate ((Capability.all.filter (· ∈ d.capabilities)).map
        Capability.name) ++ "\x7d"),
     ("properties", braced (d.properties.entries.map fun p => (quoted p.1, quoted p.2))),
     ("factory", quoted "<function>")] true

def detector (d : Detector) : String :=
  fields "InnerComponentListenerDetector"
    [("singleton_flags",
      braced (d.singletons.entries.map fun p => (componentName p.1, toString p.2)))] false

def instanceOf (i : Instance Scripted) : String :=
  fields "ComponentInstance"
    [("type_name", quoted i.typeName),
     ("extension", presence (i.extension?.map fun e => quoted e.name)),
     ("listener", toString i.listener?.isSome)] true

end Show

end Startup.Scenario
