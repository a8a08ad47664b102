import BluekingDbm.Dispatch.TaskCounts
import BluekingDbm.Dispatch.Ledger
import BluekingDbm.Dispatch.Controller
import BluekingDbm.Dispatch.PumpLock
import BluekingDbm.Dispatch.Hydration
import BluekingDbm.Dispatch.Completion
import BluekingDbm.Library.Binary
import BluekingDbm.Library.QueueMap
import BluekingDbm.Library.Text
import BluekingDbm.Resource.Picker
import BluekingDbm.Resource.Instance
import BluekingDbm.Resource.Moves
import BluekingDbm.Resource.WithinZone
import BluekingDbm.Resource.AcrossZones
import BluekingDbm.Library.Capacity
import BluekingDbm.Resource.Pool
import BluekingDbm.Resource.RoundRobin
import BluekingDbm.Resource.Request
import BluekingDbm.Resource.Termination
import BluekingDbm.Resource.Spread
import BluekingDbm.Resource.SameSubZone
import BluekingDbm.Failover.LockRefinement
import BluekingDbm.Library.Table
import BluekingDbm.Failover.Instance
import BluekingDbm.Failover.Window
import BluekingDbm.Failover.Conservation
import BluekingDbm.Failover.Request
import BluekingDbm.Failover.Pass
import BluekingDbm.Library.Lists
import BluekingDbm.Failover.Inflight
import BluekingDbm.Failover.Switching
import BluekingDbm.Library.Panicking
import BluekingDbm.Library.Pieces
import BluekingDbm.Library.Transversal
import BluekingDbm.Library.Program
import BluekingDbm.Resource.Apply
import BluekingDbm.Resource.Service
import BluekingDbm.Resource.Delivery
import BluekingDbm.Resource.Holding
import BluekingDbm.Resource.Cleanup
import BluekingDbm.Resource.DryRun
import BluekingDbm.Resource.SameLocation
import BluekingDbm.Resource.Guests
import BluekingDbm.Resource.Confirm
import BluekingDbm.Resource.Attending
import BluekingDbm.Resource.Exclusions
import BluekingDbm.Resource.Disks
import BluekingDbm.Resource.GivingUp
import BluekingDbm.Resource.Completeness
import BluekingDbm.Failover.Sharding
import BluekingDbm.Failover.Ownership
import BluekingDbm.Config.Crypt
import BluekingDbm.Config.Encryption
import BluekingDbm.Config.Merge
import BluekingDbm.Library.FloatText
import BluekingDbm.Library.Foremost
import BluekingDbm.Config.Duration
import BluekingDbm.Config.Effective
import BluekingDbm.Library.Grouping
import BluekingDbm.Library.Pairing
import BluekingDbm.Migration.ByCount
import BluekingDbm.Migration.CountPlan
import BluekingDbm.Myredis.Slots
import BluekingDbm.Myredis.SlotGrammar
import BluekingDbm.Myredis.Nodes
import BluekingDbm.Myredis.NodesText
import BluekingDbm.Migration.Cluster
import BluekingDbm.Migration.Plan
import BluekingDbm.Migration.Assignment
import BluekingDbm.Migration.Rebalance
import BluekingDbm.Library.Retry
import BluekingDbm.Migration.SetSlot
import BluekingDbm.Migration.Waiting
import BluekingDbm.Migration.Forget
import BluekingDbm.Migration.Parallel
import BluekingDbm.Migration.Outcome
import BluekingDbm.Library.Crew
import BluekingDbm.Ticket.Database
import BluekingDbm.Ticket.Status
import BluekingDbm.Ticket.Manager
import BluekingDbm.Ticket.Conduct
import BluekingDbm.Ticket.Reading
import BluekingDbm.Ticket.Execution
import BluekingDbm.Ticket.Gate
import BluekingDbm.Ticket.Order
import BluekingDbm.Ticket.Termination
import BluekingDbm.Ticket.Aggregate
import BluekingDbm.Ticket.FlowsConfig
import BluekingDbm.Exclusion.Gap
import BluekingDbm.Exclusion.Unlocking
import BluekingDbm.Library.Numeral
import BluekingDbm.Rollback.Window
import BluekingDbm.Rollback.MemWindow
import BluekingDbm.Rollback.Shards
import BluekingDbm.Rollback.Routing
import BluekingDbm.Rollback.FormCluster
import BluekingDbm.Rollback.Manifest
import BluekingDbm.Library.Balance
import BluekingDbm.Rollback.Packing
import BluekingDbm.Rollback.DestHosts
import BluekingDbm.Rollback.Binlogs
import BluekingDbm.Rollback.LocalBinlogs
import BluekingDbm.Rollback.SsdRecord
import BluekingDbm.Rollback.SsdWrite
import BluekingDbm.Rollback.SsdBinlog
import BluekingDbm.Rollback.SsdReplay
import BluekingDbm.Rollback.PlusReplay
import BluekingDbm.Rollback.Attempts
import BluekingDbm.Pitr.Recover
import BluekingDbm.Pitr.Replay
import BluekingDbm.Pitr.LocalFiles
import BluekingDbm.Pitr.FileNames
import BluekingDbm.Rotate.Listing
import BluekingDbm.Rotate.HardLimit
import BluekingDbm.Rotate.SizePlan
import BluekingDbm.Rotate.Removal
import BluekingDbm.Rotate.Registration
import BluekingDbm.Partition.Rule
import BluekingDbm.Partition.Statement
import BluekingDbm.Partition.Slots
import BluekingDbm.Partition.Adding
import BluekingDbm.Partition.Storing
import BluekingDbm.Partition.Retention
import BluekingDbm.Partition.Configs
import BluekingDbm.Partition.Shards
import BluekingDbm.Partition.Owning
import BluekingDbm.Library.Timestamp
import BluekingDbm.Restore.Filter
import BluekingDbm.Restore.Binlogs
import BluekingDbm.Restore.PreCheck
import BluekingDbm.Filter.DbTable
import BluekingDbm.Filter.Namespace
import BluekingDbm.Machine.Snowflake
import BluekingDbm.Restore.Selection
import BluekingDbm.Restore.Completeness
import BluekingDbm.Filecontext.Counter
import BluekingDbm.Filecontext.Exactness
import BluekingDbm.Dispatch.Pump
import BluekingDbm.Dispatch.PublishFailure
import BluekingDbm.Dispatch.PumpOrder
import BluekingDbm.Cutover.Status
import BluekingDbm.Cutover.Run
import BluekingDbm.Cutover.Coverage
import BluekingDbm.Dispatch.Batching
import BluekingDbm.Dispatch.Attribution
import BluekingDbm.Dispatch.Rebuild
import BluekingDbm.Dispatch.Rotation
import BluekingDbm.Config.Enums
import BluekingDbm.Config.Response
import BluekingDbm.Config.RowOrder
import BluekingDbm.Config.Rules
import BluekingDbm.Config.Validation
import BluekingDbm.Config.ValidationPanic
import BluekingDbm.Config.RangeText
import BluekingDbm.Config.RangeExact
import BluekingDbm.Config.Upsert
import BluekingDbm.Config.Users
import BluekingDbm.Config.InForce
import BluekingDbm.Config.History
import BluekingDbm.Failover.Binding
import BluekingDbm.Library.Locks
import BluekingDbm.Library.Family
import BluekingDbm.Ticket.Todos
