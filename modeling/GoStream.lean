import GoStream.Ai.Replies
import GoStream.AutoRemove.Ownership
import GoStream.Bridge.Loop
import GoStream.Demand.Tracker
import GoStream.Engines.Blacklisting
import GoStream.Engines.Completeness
import GoStream.Engines.Marks
import GoStream.Engines.SharedDirectory
import GoStream.Engines.Shows
import GoStream.Engines.Superseded
import GoStream.Engines.Torrents
import GoStream.Engines.Upgrades
import GoStream.Engines.WatchlistIndex
import GoStream.Foundations.Expand
import GoStream.Foundations.FirstByKey
import GoStream.Foundations.JsonText
import GoStream.Foundations.Labels
import GoStream.Foundations.Lexicographic
import GoStream.Foundations.Query
import GoStream.Foundations.Run
import GoStream.Fuse.Unlink
import GoStream.Handles.Accounting
import GoStream.Handles.RefCounts
import GoStream.Handles.Slots
import GoStream.Health.Classification
import GoStream.Health.Cycles
import GoStream.Health.Magnets
import GoStream.Inodes.Integrity
import GoStream.Inodes.Reports
import GoStream.Inodes.RoundTrip
import GoStream.Inodes.Saving
import GoStream.Locks.Manager
import GoStream.MetaCache.Capacity
import GoStream.Metadb.Registry
import GoStream.Prowlarr.Client
import GoStream.Quality.Ranking
import GoStream.ReadAhead.Presence
import GoStream.Scheduler.Daily
import GoStream.Settings.Equality
import GoStream.Settings.JsonDB
import GoStream.Settings.OldTorrents
import GoStream.Settings.ReadCache
import GoStream.Settings.Router
import GoStream.Settings.Survival
import GoStream.Startup.Scan
import GoStream.SyncCache.Restart
import GoStream.Torr.FileIds
import GoStream.Torr.NameOrder
import GoStream.Torrshash.Base62
import GoStream.Torrshash.Tokens
import GoStream.Torrstor.ActiveReaders
import GoStream.Torrstor.CleanPieces
import GoStream.Torrstor.Coverage
import GoStream.Torrstor.Eviction
import GoStream.Torrstor.MemPiece
import GoStream.Torrstor.Priorities
import GoStream.Torrstor.Shield
import GoStream.Torrstor.Suspension
import GoStream.Warmup.Head
import GoStream.Warmup.NegativeCache
import GoStream.Warmup.SizeAccounting
import GoStream.Warmup.Tail
import GoStream.Webhook.Order
import GoStream.Webhook.Sanitize
