import Startup.Component.Basic
import Startup.Component.Tier

/-!
Instances of components. An instance is an object with an identity; it may present itself as an
extension and as a listener, and both views share its identity.

An extension says through its `Views` which of the extension points it implements. Its body is
code of the host, or one of the two interceptors that the library itself installs.
-/

namespace Startup

/-- The extension points that an extension implements. -/
structure Views where
  definitionMutator : Bool := false
  factoryMutator : Bool := false
  interceptor : Bool := false
  mergeAware : Bool := false
  deriving DecidableEq, Repr, Inhabited

/-- What answers when an extension is called. -/
inductive ExtensionBody (H : Host) where
  | code (c : H.Code)
  /-- Notices components that are created before all interceptors are installed. -/
  | checker
  /-- Registers listeners that are created as components. -/
  | detector

structure Extension (H : Host) where
  id : ObjectId
  name : String
  tier : OrderTier
  views : Views
  body : ExtensionBody H

def Extension.supports {H : Host} (e : Extension H) : Capability → Bool
  | .definitionMutator => e.views.definitionMutator
  | .factoryMutator => e.views.factoryMutator || e.views.definitionMutator
  | .lifecycleInterceptor => e.views.interceptor
  | .mergeAwareInterceptor => e.views.mergeAware
  | .priorityOrdered => e.tier.isPriority
  | .ordered => e.tier.order?.isSome

/-- What happens to a container as a whole. -/
inductive ContainerEvent where
  /-- Start-up is complete; `count` definitions are registered. -/
  | refreshed (count : Nat)
  | closed
  deriving DecidableEq, Repr, Inhabited

structure Listener (H : Host) where
  id : ObjectId
  code : H.Code

structure Instance (H : Host) where
  id : ObjectId
  typeName : String
  value : H.Value
  extension? : Option (Extension H)
  listener? : Option (Listener H)

namespace Instance

variable {H : Host}

def isInterceptor (i : Instance H) : Bool := i.extension?.any (·.views.interceptor)

def same (i j : Instance H) : Bool := i.id = j.id

end Instance

end Startup
