import Shadowstep.Rust.Text
import Shadowstep.Rust.Utf8
import Shadowstep.Rust.Time
import Shadowstep.Http.Fields
import Shadowstep.Http.Lists
import Shadowstep.Lib.Runs
import Shadowstep.Lib.Multimap
import Shadowstep.Lib.Claims
import Shadowstep.Lib.Canonical
import Shadowstep.Lib.Generations
import Shadowstep.Lib.FileTree
import Shadowstep.Lib.Leases
import Shadowstep.Lib.Budget
import Shadowstep.Rust.Path
import Shadowstep.Cache.Directives
import Shadowstep.Cache.Policy
import Shadowstep.Cache.Lines
import Shadowstep.Cache.Rendering
import Shadowstep.Cache.Store
import Shadowstep.Cache.Expiry
import Shadowstep.Cache.Sequence
import Shadowstep.Cache.Lifetimes
import Shadowstep.Cache.VaryValues
import Shadowstep.Cache.Refinement
import Shadowstep.Cache.Freshen
import Shadowstep.Cache.Concurrent
import Shadowstep.Cache.Variants
import Shadowstep.Cache.Invalidation
import Shadowstep.Cache.VaryNames
import Shadowstep.Coalesce.Flights
import Shadowstep.Coalesce.Registry
import Shadowstep.Proxy.Fields
import Shadowstep.Proxy.Client
import Shadowstep.Proxy.Upstream
import Shadowstep.Proxy.Spoofing
import Shadowstep.Proxy.HopByHop
import Shadowstep.Coalesce.Misses
import Shadowstep.Coalesce.Guards
import Shadowstep.Coalesce.Ends
import Shadowstep.Coalesce.Once
import Shadowstep.Proxy.Response
import Shadowstep.Proxy.Forward
import Shadowstep.Proxy.Bodies
import Shadowstep.Proxy.Audience
import Shadowstep.Proxy.Validators
import Shadowstep.Proxy.World
import Shadowstep.Proxy.Events
import Shadowstep.Proxy.Kept
import Shadowstep.Proxy.Allowed
import Shadowstep.Proxy.Assets
import Shadowstep.Proxy.AssetFile
import Shadowstep.Proxy.AssetPath
import Shadowstep.Proxy.AssetSite
import Shadowstep.Proxy.Idle
import Shadowstep.Proxy.RequestBody
import Shadowstep.Proxy.Refreshing
import Shadowstep.Proxy.Health
import Shadowstep.Proxy.Overflow
import Shadowstep.Proxy.Release
import Shadowstep.Proxy.Leftovers
import Shadowstep.Proxy.Provenance
import Shadowstep.Proxy.NotModified
import Shadowstep.Proxy.Calls
import Shadowstep.Proxy.Renewal
import Shadowstep.Proxy.Matching
import Shadowstep.Proxy.Load
import Shadowstep.Proxy.Progress
import Shadowstep.Proxy.Relay
import Shadowstep.Proxy.Series
import Shadowstep.Proxy.Exchanges
