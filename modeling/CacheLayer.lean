import CacheLayer.List.Indexed
import CacheLayer.Samples
import CacheLayer.Config.Load
import CacheLayer.Recency.Linked
import CacheLayer.Registry
import CacheLayer.Proofs.FileArea
import CacheLayer.Proofs.Recency
import CacheLayer.Proofs.Lru
import CacheLayer.Proofs.Overflow.Disk
import CacheLayer.Proofs.Overflow.Sound
import CacheLayer.Proofs.Overflow.Sink
import CacheLayer.Proofs.Overflow.Operations
import CacheLayer.Proofs.Overflow.Run
import CacheLayer.Proofs.Overflow.Copy
import CacheLayer.Proofs.Overflow.Freshness
import CacheLayer.Proofs.Overflow.View
import CacheLayer.Proofs.Overflow.SingleList
import CacheLayer.Proofs.Overflow.OneMap
import CacheLayer.Proofs.Overflow.Removal
import CacheLayer.Proofs.Overflow.LastUse
import CacheLayer.Proofs.Overflow.Purging
import CacheLayer.Proofs.Overflow.Intact
import CacheLayer.Proofs.Overflow.Traffic
import CacheLayer.Proofs.Overflow.Account
import CacheLayer.Proofs.Overflow.Ledger
import CacheLayer.Proofs.Overflow.Reported
import CacheLayer.Proofs.Overflow.Presence
import CacheLayer.Proofs.Overflow.OwnFiles
import CacheLayer.Proofs.Expiring
import CacheLayer.Proofs.Volatile
import CacheLayer.Proofs.Volatile.Run
import CacheLayer.Proofs.Volatile.OneMap
import CacheLayer.Proofs.Soft
import CacheLayer.Proofs.Soft.Callers
import CacheLayer.Proofs.Removal
import CacheLayer.Proofs.Observers
import CacheLayer.Proofs.ProviderCalls
import CacheLayer.Proofs.Populating
import CacheLayer.Proofs.List.Reading
import CacheLayer.Proofs.List.Origin
import CacheLayer.Proofs.List.Window
import CacheLayer.Proofs.Presence
import CacheLayer.Proofs.List.ReadWrite
import CacheLayer.Proofs.Events
import CacheLayer.Proofs.Overflow.Events
import CacheLayer.Proofs.Overflow.Shown
import CacheLayer.Proofs.Volatile.Events
import CacheLayer.Proofs.Soft.Events
import CacheLayer.Proofs.SameStory
import CacheLayer.Proofs.SideBySide
import CacheLayer.Proofs.Overflow.Directory
import CacheLayer.Proofs.Overflow.Mirror
import CacheLayer.Proofs.Registry.Session
import CacheLayer.Proofs.Registry.Forgetting
import CacheLayer.Proofs.Registry.Calls
import CacheLayer.Proofs.Registry.Contract
import CacheLayer.Proofs.Registry.Builders
import CacheLayer.Proofs.Registry.History
import CacheLayer.Proofs.Registry.Directories
import CacheLayer.Proofs.Registry.HandedOut
import CacheLayer.Proofs.Counting
import CacheLayer.Proofs.Soft.Reclaiming
import CacheLayer.Proofs.Soft.OneMap
import CacheLayer.Proofs.FetchMode
import CacheLayer.Proofs.Keeping
import CacheLayer.Proofs.Sparse
import CacheLayer.Proofs.List.OneMap
import CacheLayer.Proofs.Overflow.Closed
import CacheLayer.Proofs.List.Consistent
import CacheLayer.Proofs.Trimming
import CacheLayer.Proofs.Overflow.Admission
import CacheLayer.Proofs.Overflow.ReadBack
import CacheLayer.Proofs.Timestamps
import CacheLayer.Proofs.List.InUse
import CacheLayer.Proofs.SoftHeap.Logged
import CacheLayer.Proofs.Purging
import CacheLayer.Proofs.Volatile.Sweeping
import CacheLayer.Proofs.Recency.OneList
