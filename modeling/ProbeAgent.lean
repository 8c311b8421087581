import ProbeAgent.Effects
import ProbeAgent.Runs
import ProbeAgent.PyText
import ProbeAgent.PyValue
import ProbeAgent.CaPins
import ProbeAgent.Platform
import ProbeAgent.Bootstrap
import ProbeAgent.SslContext
import ProbeAgent.Main
import ProbeAgent.Renewal
import ProbeAgent.KeyPair
import ProbeAgent.TrustAnchor
import ProbeAgent.PinFile
import ProbeAgent.LiveKey
import ProbeAgent.RunProgress
import ProbeAgent.StalledRun
import ProbeAgent.Executor
import ProbeAgent.RunBudget
import ProbeAgent.Attribution
import ProbeAgent.StructLayout
import ProbeAgent.KernelReport
import ProbeAgent.SurvivedExpiry
import ProbeAgent.Reach
import ProbeAgent.Substitution
import ProbeAgent.Redaction
import ProbeAgent.RunVerdict
import ProbeAgent.TornReads
import ProbeAgent.Snapshot
import ProbeAgent.IpAddress
import ProbeAgent.EgressGuard
import ProbeAgent.WorkerThreads
import ProbeAgent.Isolation
import ProbeAgent.Base64
import ProbeAgent.NumberText
import ProbeAgent.JsonText
import ProbeAgent.JsonBytes
import ProbeAgent.Envelope
import ProbeAgent.ProbeRoute
import ProbeAgent.JobPayload
import ProbeAgent.SealedRoute
import ProbeAgent.Announcement
import ProbeAgent.Fingerprints
import ProbeAgent.UrlSplit
import ProbeAgent.ComposedUrls
import ProbeAgent.VisitedWalk
import ProbeAgent.GatewayTrust
import ProbeAgent.RenewalPost
import ProbeAgent.EgressLedger
import ProbeAgent.Occurrences
import ProbeAgent.Tracking
import ProbeAgent.Fragments
import ProbeAgent.ServerQueue
import ProbeAgent.BodyStorage
import ProbeAgent.Cadence
import ProbeAgent.EgressPolicy
import ProbeAgent.LiveTrust
import ProbeAgent.PoolProgress
import ProbeAgent.RenewalLoop
import ProbeAgent.StallTimings
import ProbeAgent.TokenTransport
import ProbeAgent.AgentLife
import ProbeAgent.GuardedReach
import ProbeAgent.Instrument
import ProbeAgent.HookedCalls
import ProbeAgent.RunConfig
import ProbeAgent.RunSync
