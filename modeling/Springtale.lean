import Springtale.Core.Json
import Springtale.Core.Rule
import Springtale.Core.Engine
import Springtale.Scheduler.Events
import Springtale.Connector.Capability
import Springtale.Lib.Frame
import Springtale.Lib.TextCodec
import Springtale.Crypto.Region
import Springtale.Crypto.VaultText
import Springtale.Lib.Transition
import Springtale.Sentinel.Impact
import Springtale.Formation.Live
import Springtale.Formation.GuardRace
import Springtale.Formation.Store
import Springtale.Formation.Synthesis
import Springtale.Formation.Operations
import Springtale.Formation.Veto
import Springtale.Formation.GuardedRules
import Springtale.Cooperation.Execution
import Springtale.Runtime.Triggers
import Springtale.Runtime.Daemon
import Springtale.Runtime.AutonomyRead
import Springtale.Sentinel.Evaluate
import Springtale.Runtime.Dispatch
import Springtale.Runtime.ApprovalGate
import Springtale.Beat.Blackboard
import Springtale.Beat.Formation
import Springtale.Lib.Lease
import Springtale.Beat.Executor
import Springtale.Beat.Machine
import Springtale.Beat.Carriers
import Springtale.Beat.Advance
import Springtale.Beat.Steps
import Springtale.Beat.Claim
import Springtale.Beat.Exclusive
import Springtale.Sentinel.HalfOpen
import Springtale.Lib.Window
import Springtale.Sentinel.Limits
import Springtale.Runtime.Budget
import Springtale.Connector.WasmTier
import Springtale.Scheduler.Registrations
import Springtale.Beat.Reports
import Springtale.Beat.Consensus
import Springtale.Beat.Votes
import Springtale.Beat.Voting
import Springtale.Lib.Permit
import Springtale.Beat.Permits
import Springtale.Beat.OpenVotes
import Springtale.Beat.Offers
import Springtale.Beat.Losses
import Springtale.Beat.NoLoss
import Springtale.Formation.Views
import Springtale.Formation.Calls
import Springtale.Formation.Upheld
import Springtale.Formation.Effects
import Springtale.Formation.Mirror
import Springtale.Formation.Membership
import Springtale.Formation.LiveMirror
import Springtale.Approval.ChatGate
import Springtale.Approval.Agreement
import Springtale.Approval.WriteOnce
import Springtale.Bot.Resume
import Springtale.Core.Template
import Springtale.Lib.Envelope
import Springtale.Runtime.AiPrompt
import Springtale.Runtime.FailureReports
import Springtale.Runtime.RuleToggles
import Springtale.Runtime.TriggerDelivery
import Springtale.Api.Webhooks
import Springtale.Connector.Registry
import Springtale.Runtime.ShellApproval
import Springtale.Runtime.SingleShot
import Springtale.Lib.Since
import Springtale.Api.AuthHistory
import Springtale.Api.Bearers
import Springtale.Lib.HashChain
import Springtale.Sentinel.AuditChain
import Springtale.Sentinel.Retention
import Springtale.Sentinel.TamperEvidence
import Springtale.Cooperation.Commit
import Springtale.Cooperation.CommitSafety
import Springtale.Cooperation.Cas
import Springtale.Cooperation.Deposits
import Springtale.Cooperation.SharedEnv
import Springtale.Cooperation.SharedEnvAgrees
import Springtale.Cooperation.Momentum
import Springtale.Cooperation.MomentumRuns
import Springtale.Cooperation.Cbba
import Springtale.Lib.Gossip
import Springtale.Cooperation.CbbaConverges
import Springtale.Connector.GrantRuns
import Springtale.Crypto.Backup
import Springtale.Runtime.TokenQuota
import Springtale.Core.RuleBounds
import Springtale.Runtime.RuleCreation
import Springtale.Connector.InstallWasm
import Springtale.Cooperation.MentalModel
import Springtale.Cooperation.MentalModelStore
import Springtale.Cooperation.MentalModelPersists
import Springtale.Crypto.VaultStore
import Springtale.Crypto.VaultSessions
import Springtale.Connector.Bundled
import Springtale.Runtime.DryRun
import Springtale.Bus.EventLoop
import Springtale.Bus.Delivery
import Springtale.Formation.Faults
import Springtale.Formation.FaultyRuns
import Springtale.Cooperation.ExternalWorkspaces
import Springtale.Cooperation.CommitCollect
import Springtale.Orchestrator.Fuel
import Springtale.Cooperation.Attention
import Springtale.Cooperation.AttentionZeroSum
import Springtale.Beat.Cap
import Springtale.Beat.Settled
import Springtale.Cooperation.Assignments
import Springtale.Beat.Ballots
import Springtale.Lib.Dependencies
import Springtale.Orchestrator.Subtasks
import Springtale.Orchestrator.SubtaskGraphs
import Springtale.Cooperation.ContractNet
import Springtale.Cooperation.Takeover
import Springtale.Formation.IntentFaults
import Springtale.Formation.TeamFaults
import Springtale.Cooperation.Pacing
import Springtale.Cooperation.FormationGossip
import Springtale.Cooperation.Composition
import Springtale.Cooperation.Interference
import Springtale.Cooperation.Routing
import Springtale.Cooperation.Rally
import Springtale.Cooperation.FlexChain
import Springtale.Runtime.ChainDepth
import Springtale.Runtime.ExecutionLog
import Springtale.Api.LockedAway
import Springtale.Core.TemplateText
import Springtale.Core.ChainTemplate
import Springtale.Core.EngineRuns
import Springtale.Bot.MemoryRows
import Springtale.Scheduler.JobQueues
import Springtale.Connector.DedupeOrder
import Springtale.Lib.TomlText
import Springtale.Recipes.Substitution
import Springtale.Recipes.RuleToml
import Springtale.Recipes.Apply
import Springtale.Scheduler.CronExecutor
import Springtale.Recipes.ScheduleGuard
import Springtale.Recipes.Deployment
import Springtale.Lib.KeepNewest
import Springtale.Runtime.Drift
import Springtale.Bot.ToolLoop
import Springtale.Connector.WorkspaceKey
import Springtale.Connector.WasmMemory
import Springtale.Core.JsonText
import Springtale.Connector.ManifestSigning
import Springtale.Lib.PathWalk
import Springtale.Connector.PathAllowlist
import Springtale.Connector.HttpHosts
import Springtale.Lib.Regex
import Springtale.Lib.Loops
import Springtale.Runtime.DataPurge
import Springtale.Runtime.RuleDryRun
import Springtale.Scheduler.CronGaps
import Springtale.Scheduler.JobConsumer
import Springtale.Ai.GuardrailQuota
import Springtale.Ai.Sanitizer
import Springtale.Runtime.AiResolution
import Springtale.Ai.SensitivePatterns
import Springtale.Bot.SetupFrames
import Springtale.Bot.SetupDialogue
import Springtale.Bus.Recovery
import Springtale.Connector.TelegramPolling
import Springtale.Runtime.TravelMode
import Springtale.Bot.ConversationContext
