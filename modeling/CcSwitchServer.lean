import CcSwitchServer.ValuePricing.Candidates
import CcSwitchServer.ValuePricing.UpperBound
import CcSwitchServer.Usage.StreamMerge
import CcSwitchServer.Usage.Versions
import CcSwitchServer.ValueQuota.Trial
import CcSwitchServer.ValueQuota.Replay
import CcSwitchServer.ValueQuota.Compaction
import CcSwitchServer.ValueQuota.Reconcile
import CcSwitchServer.ValueQuota.Sweeper
import CcSwitchServer.ResetCredit.Receipts
import CcSwitchServer.QuotaUsage.Upserts
import CcSwitchServer.EventStream.Chunks
import CcSwitchServer.Sharing.DescriptorSync
import CcSwitchServer.MarketTermination.Drain
import CcSwitchServer.RequestMemory.Returns
import CcSwitchServer.Sharing.MarketRebuild
import CcSwitchServer.AgentProto.Chunks
import CcSwitchServer.AgentProto.RoundTrip
import CcSwitchServer.Sharing.RebaseRuns
import CcSwitchServer.ResponsesTransport.Forwarding
import CcSwitchServer.ReasoningReplay.Fenced
import CcSwitchServer.CursorSessions.Exclusion
import CcSwitchServer.Tunnel.Runs
import CcSwitchServer.PromptCache.WriteBehind
import CcSwitchServer.PromptCache.Hits
import CcSwitchServer.CursorEmitter.Emitted
import CcSwitchServer.GeminiStream.Sources
import CcSwitchServer.GeminiStream.Deltas
import CcSwitchServer.GeminiStream.ToolBlocks
import CcSwitchServer.RouterControl.OutboxRuns
import CcSwitchServer.ClaudeThread.Continuation
import CcSwitchServer.ServerSqlite.WalStart
import CcSwitchServer.ServerSqlite.RollForward
import CcSwitchServer.Repository.CommittedRuns
import CcSwitchServer.QuotaCycle.Reports
import CcSwitchServer.OverflowCompact.Compaction
import CcSwitchServer.ToolSchema.AntigravityNormal
import CcSwitchServer.ReasoningReplay.GrokStreams
import CcSwitchServer.Sharing.ShownLimits
