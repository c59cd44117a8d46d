import RustyHand.Session.Repair
import RustyHand.Session.RepairPasses
import RustyHand.Session.Pairing
import RustyHand.Session.RepairReorder
import RustyHand.Session.RepairOrder
import RustyHand.Session.RepairAnswers
import RustyHand.Session.RepairOutcome
import RustyHand.Session.RepairSpec
import RustyHand.Session.RepairFixed
import RustyHand.Lib.Float64
import RustyHand.Session.Overflow
import RustyHand.Session.ContextGuard
import RustyHand.Lib.Glob
import RustyHand.Types.Capability
import RustyHand.Types.Agent
import RustyHand.Kernel.Registry
import RustyHand.Kernel.TaggedRegistry
import RustyHand.Memory.Store
import RustyHand.Kernel.Kernel
import RustyHand.Kernel.Invariant
import RustyHand.Kernel.Reboot
import RustyHand.Kernel.Restored
import RustyHand.Kernel.SpawnTree
import RustyHand.Lib.FileTree
import RustyHand.Lib.UnixPath
import RustyHand.Runtime.WorkspaceSandbox
import RustyHand.Lib.ShellLexer
import RustyHand.Runtime.SubprocessSandbox
import RustyHand.Lib.DescendingEdits
import RustyHand.Session.AgentLoop
import RustyHand.Kernel.Turn
import RustyHand.Lib.SharedRecord
import RustyHand.Memory.Canonical
import RustyHand.Kernel.SharedSession
import RustyHand.Runtime.Mcp
import RustyHand.Runtime.HostFunctions
import RustyHand.Lib.WhatwgUrl
import RustyHand.Runtime.Ssrf
import RustyHand.Runtime.SsrfAddresses
import RustyHand.Channels.Router
import RustyHand.Kernel.Auth
import RustyHand.Channels.Adapters
import RustyHand.Channels.Bridge
import RustyHand.Channels.Mediation
import RustyHand.Kernel.Subsystems
import RustyHand.Kernel.SystemInvariant
import RustyHand.Kernel.SpawnAndKill
import RustyHand.Kernel.RestartKeeps
import RustyHand.Runtime.Routing
import RustyHand.Session.Compaction
import RustyHand.Kernel.SendMessage
import RustyHand.Types.Message
import RustyHand.Lib.Effects
import RustyHand.Runtime.Driver
import RustyHand.Runtime.LlmErrors
import RustyHand.Runtime.LoopGuard
import RustyHand.Runtime.LoopText
import RustyHand.Runtime.LoopWorld
import RustyHand.Runtime.Loop
import RustyHand.Runtime.LoopStreaming
import RustyHand.Runtime.RoundSays
import RustyHand.Runtime.SavedPairing
import RustyHand.Session.RepairRoles
import RustyHand.Runtime.RequestForm
import RustyHand.Drivers.Http
import RustyHand.Drivers.OpenAIRequest
import RustyHand.Drivers.OpenAI
import RustyHand.Drivers.Anthropic
import RustyHand.Drivers.ResponseContract
import RustyHand.Drivers.Fallback
import RustyHand.Drivers.OpenAIStream
import RustyHand.Drivers.AnthropicStream
import RustyHand.Drivers.StreamedText
import RustyHand.Lib.Runs
import RustyHand.Runtime.A2a
import RustyHand.Lib.WorkItem
import RustyHand.Memory.TaskQueue
import RustyHand.Kernel.Cron
import RustyHand.Types.Scheduler
import RustyHand.Runtime.SchedulePhrase
import RustyHand.Runtime.ProcessManager
import RustyHand.Runtime.CronTools
import RustyHand.Runtime.Ownership
import RustyHand.Lib.Table
import RustyHand.Kernel.CallDepth
import RustyHand.Lib.Framing
import RustyHand.Lib.HashChain
import RustyHand.Runtime.AuditLog
import RustyHand.Lib.Base64
import RustyHand.Lib.InvertedIndex
import RustyHand.Lib.Windows
import RustyHand.Lib.Awaits
import RustyHand.Lib.JsonText
import RustyHand.Extensions.Vault
import RustyHand.Extensions.VaultRestart
import RustyHand.Wire.Frames
import RustyHand.Wire.Peer
import RustyHand.Wire.Network
import RustyHand.Wire.Authentication
import RustyHand.Lib.Matching
import RustyHand.Lib.BufferedWriter
import RustyHand.Lib.Lines
import RustyHand.Runtime.AuditFile
import RustyHand.Runtime.AuditDurable
import RustyHand.Lib.Calendar
import RustyHand.Lib.Crontab
import RustyHand.Kernel.CronStandard
import RustyHand.Runtime.PhraseMeaning
import RustyHand.Runtime.PhraseRuns
import RustyHand.Lib.SeenCache
import RustyHand.Wire.Replay
import RustyHand.Wire.Registry
import RustyHand.Wire.Connections
import RustyHand.Wire.Broadcast
import RustyHand.Kernel.CronRuns
import RustyHand.Kernel.CronClaims
import RustyHand.Kernel.CronUpdate
import RustyHand.Kernel.Approval
import RustyHand.Runtime.LoopGuardRuns
import RustyHand.Kernel.Workflow
import RustyHand.Kernel.WorkflowErrors
import RustyHand.Kernel.WorkflowCollect
import RustyHand.Kernel.WorkflowAwaits
import RustyHand.Kernel.WorkflowPhases
import RustyHand.Kernel.WorkflowDrop
import RustyHand.Kernel.TriggerRuns
import RustyHand.Kernel.TriggerDelivery
import RustyHand.Kernel.ProactiveTriggers
import RustyHand.Kernel.ConfigReload
import RustyHand.Kernel.CompactionTriggers
import RustyHand.Kernel.TokenQuota
import RustyHand.Runtime.AuthCooldown
import RustyHand.Kernel.WorkflowParts
import RustyHand.Kernel.WorkflowSkip
import RustyHand.Kernel.WorkflowLifecycle
import RustyHand.Kernel.StreamingTurns
import RustyHand.Memory.CanonicalWindow
import RustyHand.Lib.FirstBest
import RustyHand.Channels.Targets
import RustyHand.Channels.CommandRouting
import RustyHand.Channels.BindingRouting
import RustyHand.Channels.BridgeStart
import RustyHand.Channels.StaleRoutes
import RustyHand.Channels.Push
import RustyHand.Channels.OneTurn
import RustyHand.Channels.SplitMessage
import RustyHand.Kernel.PromptTemplate
import RustyHand.Runtime.LoopKeeps
import RustyHand.Runtime.Continuations
import RustyHand.Runtime.CallsSettled
import RustyHand.Lib.Utf8
import RustyHand.Drivers.SseBytes
import RustyHand.Api.OpenAiCompat
import RustyHand.Lib.IpText
import RustyHand.Api.Middleware
import RustyHand.Kernel.DeepMerge
import RustyHand.Kernel.ConfigIncludes
import RustyHand.Api.StreamChunker
import RustyHand.Lib.Rewriting
import RustyHand.Channels.TelegramHtml
import RustyHand.Channels.Formatter
import RustyHand.Types.RedactToken
import RustyHand.Runtime.Ingest
import RustyHand.Runtime.ChunkText
import RustyHand.Kernel.RetryLastTurn
import RustyHand.Lib.GroupMerge
import RustyHand.Memory.Consolidation
import RustyHand.Lib.Splicing
import RustyHand.Runtime.ApplyPatch
import RustyHand.Runtime.PatchLines
import RustyHand.Runtime.PatchWindows
import RustyHand.Lib.HopSearch
import RustyHand.Memory.KnowledgeGraph
import RustyHand.Types.ToolSchema
import RustyHand.Types.SchemaMeaning
import RustyHand.Lib.ChunkedReader
import RustyHand.Runtime.GlobMatch
import RustyHand.Session.GuardTotals
import RustyHand.Session.HeartbeatPruning
import RustyHand.Runtime.TextCalls
import RustyHand.Lib.Scrubbing
import RustyHand.Session.StripDetails
import RustyHand.Runtime.DirectiveStream
import RustyHand.Runtime.PatchParse
import RustyHand.Runtime.PatchBodies
import RustyHand.Session.RepairIdempotent
import RustyHand.Api.Gate
import RustyHand.Runtime.McpExchange
import RustyHand.Cli.McpServer
