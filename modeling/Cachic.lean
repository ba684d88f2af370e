import Cachic.Lib.Program
import Cachic.Lib.Interleaving
import Cachic.Lib.Team
import Cachic.Lib.Semaphore
import Cachic.Lib.Gates
import Cachic.Lib.Buffered
import Cachic.Lib.Custody
import Cachic.Lib.Text
import Cachic.Lib.Json
import Cachic.Lib.Codec
import Cachic.Lib.Url
import Cachic.Lib.Path
import Cachic.Lib.AddressBlock
import Cachic.Lib.Calendar
import Cachic.Lib.Tiling
import Cachic.Lib.BoundedTable
import Cachic.Range
import Cachic.Validators
import Cachic.Headers
import Cachic.Upstream
import Cachic.Upstream.AddressGuard
import Cachic.Upstream.Resolver
import Cachic.Upstream.Permits
import Cachic.Services.Domains
import Cachic.Services.Matcher
import Cachic.Services.Refresh
import Cachic.Services.Fetch
import Cachic.Services.RefreshTask
import Cachic.Store.Slice
import Cachic.Store.SliceCodec
import Cachic.Store.Index
import Cachic.Store.IndexCodec
import Cachic.Config.Guard
import Cachic.Config.Units
import Cachic.Config.Settings
import Cachic.Sni.ClientHello
import Cachic.Sni.HelloLoop
import Cachic.Sni.Splice
import Cachic.Orchestrator.Actions
import Cachic.Orchestrator.Programs
import Cachic.Orchestrator.Provenance
import Cachic.Orchestrator.Specs
import Cachic.Orchestrator.Process
import Cachic.Orchestrator.Solo
import Cachic.Orchestrator.Cold
import Cachic.Orchestrator.Retaining
import Cachic.Orchestrator.Cutting
import Cachic.Orchestrator.Filler
import Cachic.Orchestrator.FillSafety
import Cachic.Orchestrator.FillRefinement
import Cachic.Orchestrator.MetadataCell
import Cachic.Orchestrator.Readahead
import Cachic.Proxy.Server
import Cachic.Orchestrator.Confinement
import Cachic.Proxy.Shutdown
import Cachic.Proxy.Handle
import Cachic.Proxy.Limits
import Cachic.Proxy.Stream
import Cachic.Proxy.Dispatch
import Cachic.Telemetry.Clock
import Cachic.Telemetry.Logs
import Cachic.Admin.Api
import Cachic.Lifecycle
import Cachic.Properties.RangedPath
import Cachic.Properties.FillPath
import Cachic.Properties.Visits
import Cachic.Properties.Recovery
import Cachic.Properties.ColdWarm
import Cachic.Properties.IfRange
import Cachic.Properties.XCache
import Cachic.Properties.Unchanged
import Cachic.Properties.Allowlist
import Cachic.Properties.Versions
import Cachic.Properties.FillVersions
import Cachic.Properties.HeaderAgreement
import Cachic.Properties.HeaderGrammar
import Cachic.Properties.Paths
import Cachic.Properties.CacheKeys
import Cachic.Properties.StreamCutting
import Cachic.Properties.Generations
import Cachic.Properties.SliceSize
import Cachic.Properties.Wholeness
import Cachic.Properties.LostUpdates
import Cachic.Properties.Indexed
import Cachic.Properties.Purge
import Cachic.Properties.Conditionals
import Cachic.Properties.FillProtocol
import Cachic.Properties.FillEndings
import Cachic.Properties.HostMatching
import Cachic.Properties.PublicSuffixes
import Cachic.Properties.AcceptedPatterns
import Cachic.Properties.Arithmetic
import Cachic.Properties.SingleFlight
import Cachic.Properties.Prefetching
import Cachic.Properties.IndexCorruption
import Cachic.Properties.SliceCorruption
import Cachic.Properties.ConfigGuard
import Cachic.Properties.AcceptedSettings
import Cachic.Properties.UpstreamPermits
import Cachic.Properties.StreamedBodies
import Cachic.Properties.Draining
import Cachic.Properties.Splicing
import Cachic.Properties.Refreshing
import Cachic.Properties.Lifetime
import Cachic.Properties.Origins
