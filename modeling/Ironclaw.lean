import Ironclaw.Processes.Fencing
import Ironclaw.Processes.Recovery
import Ironclaw.Processes.Exclusive
import Ironclaw.Processes.SpawnTree
import Ironclaw.Processes.Window
import Ironclaw.Processes.Cursors
import Ironclaw.Processes.Dependency
import Ironclaw.Processes.Erasure
import Ironclaw.Processes.Delivery
import Ironclaw.Resources.Fence
import Ironclaw.Composition.MountViews
import Ironclaw.Filesystem.CasSerial
import Ironclaw.Filesystem.OrderedPages
import Ironclaw.Filesystem.IndexNames
import Ironclaw.Trust.Announce
import Ironclaw.Authorization.Leases
import Ironclaw.Hooks.Indexes
import Ironclaw.Hooks.Poison
import Ironclaw.Hooks.Tenants
import Ironclaw.Hooks.Sums
import Ironclaw.Network.Confined
import Ironclaw.Events.Partition
import Ironclaw.Outbound.Resume
import Ironclaw.Outbound.Deliveries
import Ironclaw.Coding.Edits
import Ironclaw.LoopHost.Delivered
import Ironclaw.LoopHost.Agreement
import Ironclaw.Secrets.PathPrefix
import Ironclaw.Secrets.Leases
import Ironclaw.Triggers.Cleanup
import Ironclaw.Resources.Reapply
import Ironclaw.Resources.Calendar
import Ironclaw.Resources.Closing
import Ironclaw.Resources.Compaction
import Ironclaw.Resources.FastPath
import Ironclaw.HostApi.Reparse
import Ironclaw.Filesystem.Directory
import Ironclaw.Filesystem.Rollback
import Ironclaw.Processes.ReplayLog
import Ironclaw.Processes.DependencyQuery
import Ironclaw.Conversations.Routes
import Ironclaw.Conversations.Once
import Ironclaw.Threads.Redaction
import Ironclaw.AgentLoop.ParallelBatch
import Ironclaw.AgentLoop.ModelAttempts
import Ironclaw.AgentLoop.ActiveTaskCompaction
import Ironclaw.Coding.ReadPages
import Ironclaw.HostRuntime.PathPlaceholder
import Ironclaw.Processes.InvocationState
