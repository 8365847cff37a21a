import SpineCodex.Agents.ExecutionLimiter
import SpineCodex.Agents.Registry
import SpineCodex.Context.CallOutputs
import SpineCodex.Context.Diff
import SpineCodex.Context.ParserEvents
import SpineCodex.Context.PlanLookup
import SpineCodex.Context.UsagePruning
import SpineCodex.Exec.Amendments
import SpineCodex.Exec.HeadTailBuffer
import SpineCodex.Kernel.LedgerIdentities
import SpineCodex.Network.BlockedLog
import SpineCodex.Network.DeniedAddresses
import SpineCodex.Network.PatternLanguage
import SpineCodex.Network.UpperBound
import SpineCodex.Patch.Progress
import SpineCodex.Patch.Replacements
import SpineCodex.Patch.Search
import SpineCodex.Paths.Join
import SpineCodex.Permissions.Additional
import SpineCodex.Permissions.Denials
import SpineCodex.Permissions.FullDisk
import SpineCodex.Permissions.Metadata
import SpineCodex.Permissions.RequiredDenials
import SpineCodex.Permissions.WritableRoots
import SpineCodex.Replay.Chunks
import SpineCodex.Replay.CommitChain
import SpineCodex.Rollout.DebugReport
import SpineCodex.Rollout.NativeCut
import SpineCodex.Rollout.ReverseScanner
import SpineCodex.Runtime.Resumption
import SpineCodex.Sink.Transaction
import SpineCodex.Spawn.Admission
import SpineCodex.Spawn.Lifecycle
import SpineCodex.Spawn.Preserved
import SpineCodex.Stream.AssistantText
import SpineCodex.Stream.Utf8
import SpineCodex.Tree.Finished
import SpineCodex.Tree.OwnMemory
import SpineCodex.Tree.Stability
