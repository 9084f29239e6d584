import Startup.Scenario.Basic
import Startup.Proofs.Closed
import Startup.Proofs.Registry.Ledger
import Startup.Proofs.Registry.Singletons
import Startup.Proofs.Pipeline.Callbacks
import Startup.Proofs.Pipeline.DefinitionTiers
import Startup.Proofs.Pipeline.FactoryTiers
import Startup.Proofs.Pipeline.Conduct
import Startup.Proofs.Pipeline.Order
import Startup.Proofs.Pipeline.Once
import Startup.Proofs.Pipeline.Rounds
import Startup.Proofs.Pipeline.FixedPoint
import Startup.Proofs.Registry.Resolution
import Startup.Proofs.Registry.Identity
import Startup.Proofs.Registry.Stack
import Startup.Proofs.Registry.Chain
import Startup.Proofs.Registry.Wiring
import Startup.Proofs.Registry.Search
import Startup.Proofs.Registry.Installed
import Startup.Proofs.Registry.History
import Startup.Proofs.Pipeline.FailFast
import Startup.Proofs.Pipeline.Fetches
import Startup.Proofs.Pipeline.Walks
import Startup.Proofs.Pipeline.Removal
import Startup.Proofs.Pipeline.Stillness
import Startup.Proofs.Pipeline.QuietTiers
import Startup.Proofs.Pipeline.QuietOrder
import Startup.Proofs.Interceptor.Delegation
import Startup.Proofs.Interceptor.Course
import Startup.Proofs.Interceptor.FinalChain
import Startup.Proofs.Interceptor.Watch
import Startup.Proofs.Interceptor.Target
import Startup.Proofs.Interceptor.Early
import Startup.Proofs.Interceptor.Listening
import Startup.Proofs.Interceptor.Detection
import Startup.Proofs.Interceptor.Deciding
import Startup.Proofs.Interceptor.LiveListeners
import Startup.Proofs.Interceptor.StartEvent
import Startup.Proofs.Registry.Definitions
import Startup.Proofs.Registry.Capabilities
import Startup.Proofs.Registry.Coherent
import Startup.Proofs.Registry.Current
import Startup.Proofs.Registry.Cache
import Startup.Proofs.Interceptor.EagerStart
import Startup.Proofs.Interceptor.PartialChain
import Startup.Proofs.Registry.Restoring
import Startup.Proofs.Pipeline.Latecomers
import Startup.Proofs.Lockstep.Views
import Startup.Proofs.Pipeline.ReadOnly
import Startup.Proofs.Registry.Preinstantiation
import Startup.Proofs.Registry.Relaying
import Startup.Proofs.Origin
import Startup.Proofs.Registry.Listing
import Startup.Proofs.Sorting
import Startup.Proofs.TypeNames
import Startup.Proofs.Interceptor.Broadcasts
