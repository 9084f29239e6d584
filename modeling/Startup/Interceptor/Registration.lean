import Startup.Ordering

/-!
Registration of the interceptors that are components themselves.

The chain is put together from front to end: a checker, the priority tier, the ordered tier, the
rest, and a detector. Before the detector is installed, the interceptors that are shown
definitions are moved behind all others. Each tier is created only after the tiers before it were
installed, so its members are subject to those.

A failure ends the registration; the tiers that were complete by then stay installed.
-/

namespace Startup

open Attempt (always)

structure Registration (H : Host) where
  checker : Extension H
  detector : Extension H
  /-- The number of interceptors that was expected in the end. -/
  target : Nat

namespace Registration

variable {H : Host} {σ : Type} (call : Call H σ) (v : View)

/-- Sort a tier and install it. The answer is the sorted tier. -/
def installTier (t : TierClass) (tier : List (Extension H)) : Run H σ (List (Extension H)) := do
  let sorted ← v.sort tier
  Run.record (.tierInstalled t sorted.length)
  v.installAll sorted
  return sorted

def fetchTier (names : List ComponentName) : Attempt H σ ExtensionError (List (Extension H)) :=
  (v.fetchAll call .lifecycleInterceptor names).blame .dependency

/-- Create and install the interceptors among the named components, tier by tier. The answer holds
them in the order of their installation. -/
def installNamed (names : List ComponentName) :
    Attempt H σ ExtensionError (List (Extension H)) := do
  let tiers ← (v.divide call .lifecycleInterceptor (fun _ => false) names).blame .dependency
  let priority ← always (installTier v .priority tiers.priority)
  let ordered ← always (installTier v .ordered (← fetchTier call v tiers.ordered))
  let rest ← always (installTier v .unordered (← fetchTier call v tiers.unordered))
  return priority ++ ordered ++ rest

/-- Move interceptors to the end of the chain, sorted. -/
def relocate (es : List (Extension H)) : Run H σ Unit := do
  let sorted ← v.sort es
  Run.record (.relocating sorted.length)
  v.installAll sorted

def steps (context : ObjectId) : Attempt H σ ExtensionError (Registration H) := do
  let names ← always (v.names .lifecycleInterceptor true false)
  let count ← always v.interceptorCount
  let target := count + 1 + names.length
  always (Run.record (.registrationStarted names.length target))
  let checker ← always (Checker.create target)
  always (v.install checker)
  let installed ← installNamed call v names
  always (relocate v (installed.filter (·.views.mergeAware)))
  let detector ← always (Detector.create context)
  always (v.install detector)
  let total ← always v.interceptorCount
  always (Run.record (.registrationDone total))
  return { checker, detector, target }

end Registration

/-- Find the interceptors of a registry and install them, together with a checker in front and a
detector at the end that registers listeners with a context. -/
def View.registerInterceptors {H : Host} {σ : Type} (v : View) (call : Call H σ)
    (context : ObjectId) : Attempt H σ ExtensionError (Registration H) :=
  Attempt.within (fun x => .registration v context (View.error? x))
    (Registration.steps call v context)

end Startup
