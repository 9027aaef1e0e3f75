import ObjectStorage.Journal.Framing
import ObjectStorage.Journal.ReadHandler
import ObjectStorage.Journal.WriteHandler
import ObjectStorage.Library.OrderedMap
import ObjectStorage.Library.Transition
import ObjectStorage.Library.Splitting
import ObjectStorage.Transaction.LockManager
import ObjectStorage.Transaction.LockViews
import ObjectStorage.Transaction.LockDrops
import ObjectStorage.Transaction.LockGrants
import ObjectStorage.Transaction.IndexAgreement
import ObjectStorage.Transaction.IndexInvariant
import ObjectStorage.Transaction.Journal
import ObjectStorage.Transaction.MutualExclusion
import ObjectStorage.Library.SharedExclusive
import ObjectStorage.Library.SnapshotReplay
import ObjectStorage.Transaction.LockTable
import ObjectStorage.Transaction.JournalReplay
import ObjectStorage.Transaction.SnapshotRecovery
import ObjectStorage.Transaction.QueueOrder
import ObjectStorage.Transaction.RecordCodec
import ObjectStorage.Transaction.JournalFile
import ObjectStorage.Transaction.BulkAcquisition
import ObjectStorage.Transaction.TransferUndo
import ObjectStorage.Transaction.OpenOrder
import ObjectStorage.Transaction.CheckpointRecovery
import ObjectStorage.Library.Overlay
import ObjectStorage.Osm.ComponentMap
import ObjectStorage.Osm.PlannedTransfers
import ObjectStorage.Library.Directory
import ObjectStorage.Osm.StatusFile
import ObjectStorage.Osm.ElectionLock
import ObjectStorage.Osm.LeaderInfoFile
import ObjectStorage.Osm.InfoFile
import ObjectStorage.Osm.TransferJournal
import ObjectStorage.Container.RecordMemory
import ObjectStorage.Container.Recreation
import ObjectStorage.Container.Isolation
import ObjectStorage.Library.Allocation
import ObjectStorage.Library.Reservation
import ObjectStorage.Osm.Balancing
import ObjectStorage.Osm.StateChange
import ObjectStorage.Osm.InternalMap
import ObjectStorage.Osm.BalancingShares
import ObjectStorage.Osm.ComponentTransfers
import ObjectStorage.Osm.ShareOrder
import ObjectStorage.Osm.Rebalancing
import ObjectStorage.Osm.PlanExecution
import ObjectStorage.Osm.RecoverySlots
import ObjectStorage.Osm.RecoveryDestinations
import ObjectStorage.Journal.ReadFraming
import ObjectStorage.Journal.CheckpointAlignment
import ObjectStorage.Container.PendingStatistics
import ObjectStorage.Container.MemoryManager
import ObjectStorage.Container.MemoryEntries
import ObjectStorage.Container.RecoveredCommit
import ObjectStorage.Library.Codec
import ObjectStorage.Records.RecordStructure
import ObjectStorage.Records.RecordRoundTrip
import ObjectStorage.Transaction.JournalReading
import ObjectStorage.Transaction.IdCounter
import ObjectStorage.Transaction.CoherentReplay
import ObjectStorage.Transaction.IssuedIds
import ObjectStorage.Transaction.NodeRanges
import ObjectStorage.Transaction.CrashRecovery
import ObjectStorage.Transaction.RotationCrashes
import ObjectStorage.InfoFile.LayoutVersion
import ObjectStorage.InfoFile.Regions
import ObjectStorage.InfoFile.Takeover
import ObjectStorage.InfoFile.ReportedStatistics
import ObjectStorage.AccountInfo.AccountRegions
import ObjectStorage.InfoFile.DeletedContainers
import ObjectStorage.InfoFile.PathLocks
import ObjectStorage.Routing.ComponentNumber
import ObjectStorage.Library.ThreadTable
import ObjectStorage.Service.ComponentBlocking
import ObjectStorage.Service.BlockLists
import ObjectStorage.Service.RequestExclusion
import ObjectStorage.Service.ContainerDeletion
import ObjectStorage.Service.NodeRecovery
import ObjectStorage.Service.ObjectVersions
import ObjectStorage.Service.TextChannel
import ObjectStorage.Updater.StatFileUpdate
import ObjectStorage.Updater.StatFiles
import ObjectStorage.Updater.NamesKept
import ObjectStorage.Osm.CompletionReports
import ObjectStorage.Osm.NodeStatus
import ObjectStorage.Osm.TableChanges
import ObjectStorage.Osm.NodeEntries
import ObjectStorage.Osm.Retirement
import ObjectStorage.Objects.Uploads
import ObjectStorage.Library.Exits
import ObjectStorage.Objects.LockManager
import ObjectStorage.Objects.RequestHandlers
import ObjectStorage.Objects.RequestLocks
import ObjectStorage.Objects.StaleLocks
import ObjectStorage.Objects.ObjectChanges
import ObjectStorage.Objects.ChangeMarks
import ObjectStorage.Objects.ChangeSteps
import ObjectStorage.Objects.SettledObjects
import ObjectStorage.Objects.ObjectRecovery
import ObjectStorage.Container.ExtractionUndo
import ObjectStorage.Container.MemoryCounters
import ObjectStorage.Journal.CheckpointSearch
import ObjectStorage.InfoFile.MetadataBlock
import ObjectStorage.Container.FlushThreads
import ObjectStorage.InfoFile.StartPosition
import ObjectStorage.AccountInfo.ContainerUpdate
import ObjectStorage.AccountInfo.Listing
import ObjectStorage.AccountInfo.AccountTotals
import ObjectStorage.Osm.AbortedTransfers
import ObjectStorage.Library.PrefixOrder
import ObjectStorage.InfoFile.SorterStart
import ObjectStorage.Library.CheckedVector
import ObjectStorage.Osm.PlanRemoval
import ObjectStorage.Osm.ReportedTransfers
import ObjectStorage.Osm.EntryResults
import ObjectStorage.Library.Enumeration
import ObjectStorage.InfoFile.IndexIteration
import ObjectStorage.Library.WeightedMap
import ObjectStorage.Updater.ReaderMap
import ObjectStorage.Updater.ContainerCount
import ObjectStorage.Osm.FailureDetector
import ObjectStorage.Osm.RecoveryFlag
import ObjectStorage.Updater.GiveAway
import ObjectStorage.Updater.GiveAwayOutcome
import ObjectStorage.Library.SlotFile
import ObjectStorage.Osm.ElectionSlots
import ObjectStorage.Osm.ElectedLeader
import ObjectStorage.Library.EffectOrder
import ObjectStorage.Jobs.JobQueue
import ObjectStorage.Jobs.JobExecutor
import ObjectStorage.Jobs.JournalDurability
import ObjectStorage.Jobs.SyncOffsets
import ObjectStorage.Communication.Connection
import ObjectStorage.Communication.MessageFormat
import ObjectStorage.Communication.MessageStream
import ObjectStorage.Communication.ReaderAgreement
import ObjectStorage.InfoFile.ObjectMap
import ObjectStorage.InfoFile.LiveObjects
import ObjectStorage.InfoFile.CountedFile
import ObjectStorage.InfoFile.FlushedJournal
import ObjectStorage.Library.GroupFirsts
import ObjectStorage.InfoFile.RangeListing
import ObjectStorage.InfoFile.ObjectListing
import ObjectStorage.InfoFile.ListedJournal
