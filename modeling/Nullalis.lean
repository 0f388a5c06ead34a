import Nullalis.Inbound.KeyIsolation
import Nullalis.Inbound.CacheCoherence
import Nullalis.Agent.ToolPairs
import Nullalis.Cron.TickMerge
import Nullalis.ExtensionWs.RegistrySafety
import Nullalis.ExtensionWs.CommandSafety
import Nullalis.Session.LifetimeSafety
import Nullalis.Session.QueueSafety
import Nullalis.Memory.OutboxConvergence
import Nullalis.Bus.BoundedQueue
import Nullalis.Subagent.Barrier
import Nullalis.Subagent.LedgerMirror
import Nullalis.Subagent.ThreadSafety
import Nullalis.Subagent.ResultIsolation
import Nullalis.HttpNative.ChunkedAgreement
import Nullalis.Memory.Ranking
import Nullalis.Providers.StreamOnce
import Nullalis.Tenant.LockSafety
import Nullalis.Subagent.LedgerRecovery
import Nullalis.Tools.Hashlines
import Nullalis.Cron.RunHistory
import Nullalis.Security.RateTracker
import Nullalis.Cron.NextRun
import Nullalis.Agent.InvokeSegments
import Nullalis.Agent.InvokeArguments
import Nullalis.NetSecurity.Ipv6Parser
import Nullalis.Security.Chaining
import Nullalis.Channels.ImapFraming
import Nullalis.Channels.ReplySafety
import Nullalis.Usage.CostAgreement
import Nullalis.Memory.Fusion
import Nullalis.Memory.Diversity
import Nullalis.Memory.Rerank
import Nullalis.Memory.CircuitBreaker
import Nullalis.Agent.RepairJson
import Nullalis.Agent.ToolResults
import Nullalis.ExtensionWs.MessageDelivery
import Nullalis.Channels.SignalStream
import Nullalis.Heartbeat.WakeQueue
import Nullalis.Websocket.Header
import Nullalis.Websocket.TextMessage
import Nullalis.RunTrace.Store
import Nullalis.Subagent.FailedSpawn
import Nullalis.Providers.TokenCounts
import Nullalis.Artifacts.Diff
import Nullalis.Session.Identity
import Nullalis.Memory.Lru
import Nullalis.HttpNative.Pool
import Nullalis.Agent.PlanStatus
import Nullalis.Agent.Transcript
import Nullalis.Security.Secrets
import Nullalis.Security.Pairing
import Nullalis.Extraction.Chunker
import Nullalis.Agent.GraphExpand
import Nullalis.Agent.Communities
import Nullalis.Extraction.Merger
import Nullalis.Extraction.Recovery
import Nullalis.Tools.ResultCache
import Nullalis.Providers.Scrub
import Nullalis.Providers.Reliable
import Nullalis.Agent.WorkingMemory
import Nullalis.Extraction.FactKeys
import Nullalis.Extraction.IsoDates
import Nullalis.Memory.Markdown
import Nullalis.OpsGuard
import Nullalis.AgentRouting.Routes
import Nullalis.Channels.EmailBookkeeping
import Nullalis.Channels.Splitting
import Nullalis.Telegram.Markers
import Nullalis.Channels.SlackPolling
import Nullalis.Channels.DiscordTyping
import Nullalis.Telegram.Markdown
import Nullalis.Channels.EncodedWords
import Nullalis.Memory.TextNorm
import Nullalis.Telegram.MediaGroupAccounts
