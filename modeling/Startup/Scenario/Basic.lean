import Startup.Journal.Line
import Startup.Scenario.Behaviour

/-!
Scenarios: a fresh registry, and operations on it one after the other. Each operation has a
result, the log lines that it caused, and the state in which it left the registry. After a failure
the next operation goes on with what there is.
-/

namespace Startup.Scenario

/-- How the registry of a scenario presents itself. -/
inductive Presentation where
  | direct
  /-- Every use is noted. -/
  | observed
  /-- Every use is noted, definitions are closed to change, and no comparator is passed on. -/
  | readOnly
  deriving DecidableEq, Repr, Inhabited

structure Setup where
  presentation : Presentation := .direct
  preference? : Option Preference := none
  /-- The messages that are shown; without a threshold there are none. -/
  threshold? : Option LogLevel := some .warn
  deriving Inhabited

/-- What is shown of a registry after each operation. -/
structure RegistryState where
  definitions : List String
  /-- The names in use that have a singleton. -/
  live : List String
  singletons : Nat
  cached : Nat
  chain : List String
  deriving DecidableEq, Repr, Inhabited

structure Outcome where
  result : Except Failure Answer
  log : List (Line Scripted)
  state : RegistryState

namespace Setup

def base : ObjectId := 0

def context : ObjectId := 1

def view (s : Setup) : View :=
  match s.presentation with
  | .direct => { registry := base }
  | .observed => { registry := base, observed := true }
  | .readOnly => { registry := base, observed := true, writable := false, ordering := false }

def world (s : Setup) : World Scripted Memory where
  next := 2
  registries := Table.set {} base { comparator? := s.preference?.map Preference.comparator }
  memory := { view := s.view, context }

end Setup

namespace RegistryState

def of (r : Registry Scripted) (names : List String) : RegistryState where
  definitions := r.definitions.keys.map (·.text)
  live := names.filter fun n => r.singletons.contains ⟨n⟩
  singletons := r.singletons.size
  cached := r.merged.size
  chain := r.interceptors.map (·.name)

end RegistryState

/-- Do one operation. Callbacks may nest `depth` deep. -/
def step (s : Setup) (depth : Nat) (op : Operation) (w : World Scripted Memory) :
    Option (Outcome × World Scripted Memory) :=
  (behaviour.run depth (Act.perform w.memory.view op).run w).map fun p =>
    ({ result := p.1
       log := Line.ofJournal s.threshold? p.2.2
       state := .of (p.2.1.registries.get Setup.base) p.2.1.memory.names }, p.2.1)

def steps (s : Setup) (depth : Nat) :
    List Operation → World Scripted Memory → Option (List Outcome)
  | [], _ => some []
  | op :: rest, w =>
    (step s depth op w).bind fun p => (steps s depth rest p.2).map (p.1 :: ·)

/-- Run a scenario. There is no outcome if callbacks nest more than `depth` deep. -/
def run (s : Setup) (depth : Nat) (ops : List Operation) : Option (List Outcome) :=
  steps s depth ops s.world

end Startup.Scenario
