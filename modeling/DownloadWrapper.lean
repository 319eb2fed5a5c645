import DownloadWrapper.Lib.Transition
import DownloadWrapper.Lib.Tiling
import DownloadWrapper.Lib.ByteFile
import DownloadWrapper.Basic
import DownloadWrapper.Utils.Text
import DownloadWrapper.Utils.FileSystem
import DownloadWrapper.Utils.UniqueName
import DownloadWrapper.Http.Types
import DownloadWrapper.Http.Header
import DownloadWrapper.Http.FileName
import DownloadWrapper.Http.Probe
import DownloadWrapper.Http.Write
import DownloadWrapper.Http.Result
import DownloadWrapper.Http.Resume
import DownloadWrapper.Http.Worker
import DownloadWrapper.Http.Frame
import DownloadWrapper.Http.Layout
import DownloadWrapper.Http.PartInvariant
import DownloadWrapper.Http.Completion
import DownloadWrapper.Lib.Pin
import DownloadWrapper.Http.Blocks
import DownloadWrapper.Http.FinalResponse
import DownloadWrapper.Lib.KeyedList
import DownloadWrapper.Lib.Selection
import DownloadWrapper.Lib.Evolution
import DownloadWrapper.Core.Task
import DownloadWrapper.Core.Scheduler
import DownloadWrapper.Core.Admission
import DownloadWrapper.Store.TaskStore
import DownloadWrapper.Store.Rows
import DownloadWrapper.Core.Registry
import DownloadWrapper.Torrent.Session
import DownloadWrapper.Core.World
import DownloadWrapper.Http.Engine
import DownloadWrapper.Torrent.Files
import DownloadWrapper.Torrent.Alerts
import DownloadWrapper.Torrent.Updates
import DownloadWrapper.Torrent.Engine
import DownloadWrapper.Core.Hub
import DownloadWrapper.Core.Changes
import DownloadWrapper.Core.Steps
import DownloadWrapper.Core.Rooted
import DownloadWrapper.Core.Deletion
import DownloadWrapper.Core.Persistence
import DownloadWrapper.Core.Agreement
import DownloadWrapper.Core.StickyPause
import DownloadWrapper.Core.Threads
import DownloadWrapper.Core.Limit
import DownloadWrapper.Core.LimitRuns
import DownloadWrapper.Utils.FileTree
import DownloadWrapper.Http.Naming
import DownloadWrapper.Http.DistinctFiles
import DownloadWrapper.Lib.PathForm
import DownloadWrapper.Utils.LexicalPath
import DownloadWrapper.Http.Containment
import DownloadWrapper.Core.FreshStart
import DownloadWrapper.Http.Sections
import DownloadWrapper.Core.Resolving
import DownloadWrapper.Core.Tracking
import DownloadWrapper.Core.Identity
import DownloadWrapper.Core.Reporting
import DownloadWrapper.Lib.Intervals
import DownloadWrapper.Torrent.Segments
import DownloadWrapper.Torrent.FileList
import DownloadWrapper.Torrent.FileRuns
import DownloadWrapper.Core.Config
import DownloadWrapper.Core.Lifecycle
import DownloadWrapper.Core.Coherence
import DownloadWrapper.Lib.Copies
import DownloadWrapper.Http.Beside
import DownloadWrapper.Http.Transfer
import DownloadWrapper.Http.Replica
import DownloadWrapper.Http.Sourced
import DownloadWrapper.Http.Promise
import DownloadWrapper.Http.Connections
import DownloadWrapper.Http.Integrity
import DownloadWrapper.Lib.Checked
import DownloadWrapper.Http.Split
import DownloadWrapper.Http.Retained
import DownloadWrapper.Http.Loop
import DownloadWrapper.Http.RoundTrip
import DownloadWrapper.Http.Terminal
import DownloadWrapper.Http.Retries
import DownloadWrapper.Http.Rounds
import DownloadWrapper.Core.Preemption
import DownloadWrapper.Lib.SortedMap
import DownloadWrapper.Core.Requests
import DownloadWrapper.Lib.Tombstones
import DownloadWrapper.Store.TaskFileStore
import DownloadWrapper.Store.FileMap
import DownloadWrapper.Store.FileRuns
import DownloadWrapper.Playback.Request
import DownloadWrapper.Playback.Session
import DownloadWrapper.Lib.LaidOut
import DownloadWrapper.Playback.Copy
import DownloadWrapper.Playback.Negotiation
import DownloadWrapper.Playback.Polling
import DownloadWrapper.Utils.IntList
import DownloadWrapper.Utils.IntScan
import DownloadWrapper.Lib.Savepoints
import DownloadWrapper.Store.TaskRow
import DownloadWrapper.Store.Replacement
import DownloadWrapper.Store.SoftDeletion
import DownloadWrapper.Core.Readding
import DownloadWrapper.Core.FailedAdd
import DownloadWrapper.Core.Priorities
import DownloadWrapper.Core.RetryableFailures
import DownloadWrapper.Core.RequestText
import DownloadWrapper.Utils.Acquisition
import DownloadWrapper.Utils.Base64
import DownloadWrapper.Http.Fallback
import DownloadWrapper.Http.Place
import DownloadWrapper.Http.Lineage
import DownloadWrapper.Http.Progress
import DownloadWrapper.Http.Resumption
import DownloadWrapper.Http.RateLimit
import DownloadWrapper.Http.Aggregate
import DownloadWrapper.Utils.Scanning
import DownloadWrapper.Http.Disposition
import DownloadWrapper.Utils.StdPath
import DownloadWrapper.Core.DataDirectory
import DownloadWrapper.Lib.UrlQuery
import DownloadWrapper.Playback.Url
import DownloadWrapper.Playback.RangeGrammar
import DownloadWrapper.P2p.Signal
import DownloadWrapper.Lib.LockOrder
import DownloadWrapper.Core.Locks
import DownloadWrapper.Core.Wiring
import DownloadWrapper.P2p.Adapter
import DownloadWrapper.P2p.Handshake
import DownloadWrapper.P2p.Reports
import DownloadWrapper.P2p.Locks
import DownloadWrapper.Torrent.Preview
import DownloadWrapper.Core.Offline
import DownloadWrapper.Playback.Server
import DownloadWrapper.Torrent.RateSync
import DownloadWrapper.Core.ConfigText
import DownloadWrapper.Http.Flushed
import DownloadWrapper.Core.Durability
import DownloadWrapper.Lib.Schema
import DownloadWrapper.Store.Schema
