import Startup.Component.Definition
import Startup.Component.Instance
import Startup.Failure

/-!
The state of a component registry and its pure operations: questions about it, and the changes
that involve no callback.

Definitions are kept in the order of their first registration. Singletons live beside them: those
created from a definition, and those put there by hand, whose names are listed in `manual`. The
interceptors form a chain; installing one that is already there moves it to the end.
-/

namespace Startup

abbrev Comparator (H : Host) := Extension H → Extension H → Ordering

structure Registry (H : Host) where
  definitions : OrderedMap ComponentName (Definition H) := ∅
  singletons : OrderedMap ComponentName (Instance H) := ∅
  /-- The names under which singletons were put in by hand, oldest first. -/
  manual : List ComponentName := []
  /-- Components that are being created, outermost first. -/
  inCreation : List ComponentName := []
  interceptors : List (Extension H) := []
  /-- Definitions looked up for creation, kept until the cache is cleared. -/
  merged : OrderedMap ComponentName (Definition H) := ∅
  comparator? : Option (Comparator H) := none

namespace Registry

variable {H : Host}

instance : Inhabited (Registry H) := ⟨{}⟩

/-! ## Questions -/

def singletonSupports (r : Registry H) (n : ComponentName) (c : Capability) : Bool :=
  ((r.singletons.get? n).bind (·.extension?)).any (·.supports c)

def definedNamesFor (r : Registry H) (c : Capability) (all : Bool) : List ComponentName :=
  (r.definitions.entries.filter fun p => p.2.hasCapability c && (all || p.2.isSingleton)).map
    Prod.fst

/-- Put the names that qualify at the end, each unless it is already there. -/
def appendNew (keep : ComponentName → Bool) : List ComponentName → List ComponentName →
    List ComponentName
  | acc, [] => acc
  | acc, n :: r =>
      appendNew keep (if keep n && !decide (n ∈ acc) then acc ++ [n] else acc) r

/-- Names of the components with a capability: first the defined ones, then those put in by
hand. -/
def namesFor (r : Registry H) (c : Capability) (all : Bool) : List ComponentName :=
  appendNew (r.singletonSupports · c) (r.definedNamesFor c all) r.manual

/-- Whether a component has a capability. A definition decides; without one, the singleton. -/
def isMatch (r : Registry H) (n : ComponentName) (c : Capability) : Bool :=
  match r.definitions.get? n with
  | some d => d.hasCapability c
  | none => r.singletonSupports n c

def role? (r : Registry H) (n : ComponentName) : Option Role :=
  (r.definitions.get? n).map (·.role)

def eagerNames (r : Registry H) : List ComponentName :=
  (r.definitions.entries.filter fun p => p.2.isSingleton && !p.2.isLazy).map Prod.fst

/-! ## Changes -/

/-- Put a definition in. An old one under the name is replaced in place, and its singleton is
dropped with it. -/
def define (r : Registry H) (d : Definition H) : Registry H :=
  { r with
    definitions := r.definitions.insert d.name d
    merged := r.merged.erase d.name
    singletons := if r.definitions.contains d.name then r.singletons.erase d.name
      else r.singletons }

def undefine (r : Registry H) (n : ComponentName) : Registry H :=
  { r with
    definitions := r.definitions.erase n
    merged := r.merged.erase n
    singletons := r.singletons.erase n }

def keep (r : Registry H) (n : ComponentName) (i : Instance H) : Registry H :=
  { r with singletons := r.singletons.insert n i, manual := r.manual ++ [n] }

/-- Put an interceptor at the end of the chain, wherever it was before. -/
def install (r : Registry H) (e : Extension H) : Registry H :=
  { r with interceptors := r.interceptors.filter (fun x => !decide (x.id = e.id)) ++ [e] }

def clearCache (r : Registry H) : Registry H := { r with merged := ∅ }

/-- The definition to create a component from, remembered for the next time. -/
def lookup (r : Registry H) (n : ComponentName) : Option (Definition H) × Registry H :=
  match r.merged.get? n with
  | some d => (some d, r)
  | none =>
    match r.definitions.get? n with
    | some d => (some d, { r with merged := r.merged.insert n d })
    | none => (none, r)

def beginCreation (r : Registry H) (n : ComponentName) : Registry H :=
  { r with inCreation := r.inCreation ++ [n] }

def endCreation (r : Registry H) (n : ComponentName) : Registry H :=
  { r with inCreation := r.inCreation.filter (fun m => !decide (m = n)) }

/-- The instance that counts for a name once one has been created: the first one stays. -/
def settle (r : Registry H) (n : ComponentName) (i : Instance H) : Instance H × Registry H :=
  match r.singletons.get? n with
  | some j => (j, r)
  | none => (i, { r with singletons := r.singletons.insert n i })

/-- The creation of `n` from a definition is over: the answer to whoever asked for it, and the
registry with what was created. -/
def conclude (r : Registry H) (n : ComponentName) (d : Definition H) :
    Except DependencyError (Instance H) → Except DependencyError (Instance H) × Registry H
  | .error e => (.error e, r.endCreation n)
  | .ok i =>
    if d.isSingleton then
      let (j, r') := (r.endCreation n).settle n i
      (.ok j, r')
    else (.ok i, r.endCreation n)

end Registry

end Startup
