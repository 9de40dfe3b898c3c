import CrewSync.Footprint.Calls
import CrewSync.Theorems.Completion
import CrewSync.Theorems.LockExclusion
import CrewSync.Theorems.Attempts
import CrewSync.Theorems.Outbox
import CrewSync.Theorems.RateLimit
import CrewSync.Theorems.Throttle
import CrewSync.Theorems.Recovery
import CrewSync.Theorems.Deadlock
import CrewSync.Theorems.Blocked
import CrewSync.Theorems.History
import CrewSync.Theorems.Batches
import CrewSync.Theorems.Asker
import CrewSync.Theorems.Failure
import CrewSync.Theorems.LockPurpose
import CrewSync.Theorems.LockDeliveries
import CrewSync.Theorems.Held
import CrewSync.Theorems.TaskKeys
import CrewSync.Theorems.ChannelNames
import CrewSync.Theorems.Sessions
import CrewSync.Theorems.Addresses
import CrewSync.Theorems.CursorKeys
import CrewSync.Lib.Grouped
import CrewSync.Theorems.Mine
import CrewSync.Theorems.Refusals
import CrewSync.Theorems.Roster
import CrewSync.Theorems.Online
import CrewSync.Theorems.Digest
import CrewSync.Theorems.Prune
import CrewSync.Theorems.Posting
import CrewSync.Theorems.ChannelFilter
import CrewSync.Theorems.NoteTrail
import CrewSync.Theorems.Uploading
import CrewSync.Theorems.Feed
import CrewSync.Theorems.FileLimits
import CrewSync.Theorems.Escaping
import CrewSync.Theorems.Grants
import CrewSync.Theorems.Operators
import CrewSync.Theorems.Downloads
import CrewSync.Lib.Recall
import CrewSync.Theorems.DrainFeed
import CrewSync.Theorems.Batching
import CrewSync.Theorems.Payloads
import CrewSync.Theorems.Renewal
import CrewSync.Theorems.Isolation
import CrewSync.Theorems.Attribution
import CrewSync.Theorems.Confined
import CrewSync.Theorems.Counters
import CrewSync.Theorems.Confidential
import CrewSync.Theorems.Unread
import CrewSync.Front
import CrewSync.Lib.Outputs
import CrewSync.Theorems.Access
import CrewSync.Theorems.Visitors
import CrewSync.Theorems.Requests
import CrewSync.Theorems.Transfer
import CrewSync.Theorems.Interleaved
import CrewSync.Theorems.Raised
