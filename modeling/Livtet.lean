import Livtet.Lib.Runs
import Livtet.Paging
import Livtet.Replay
import Livtet.Cursor
import Livtet.Tokens
import Livtet.HeldBack
import Livtet.Decisions
import Livtet.Mirror
import Livtet.BootCursor
import Livtet.Convergence
import Livtet.SavedSearch
import Livtet.Reindex
import Livtet.PullCursor
import Livtet.Finality
import Livtet.Binding
import Livtet.Dialling
import Livtet.Waiters
import Livtet.Privacy
import Livtet.Framing
import Livtet.Rpc
import Livtet.Push
import Livtet.OwnRow
import Livtet.Echoes
import Livtet.Composition
import Livtet.Rendered
import Livtet.References
import Livtet.Substitution
import Livtet.DslGuard
import Livtet.RateLimit
import Livtet.Locks
import Livtet.LinkRoundTrip
import Livtet.Stored
import Livtet.InStep
import Livtet.Identifiers
import Livtet.Filters
import Livtet.PlaceholderNames
import Livtet.RelativeDates
import Livtet.FreeText
import Livtet.WorkPages
import Livtet.WorkCounts
import Livtet.Reordered
import Livtet.Bodies
import Livtet.OfferScan
import Livtet.PullLoop
import Livtet.Versions
import Livtet.Naming
import Livtet.Payloads
import Livtet.Audit
import Livtet.BrokenRebuild
import Livtet.Migration
import Livtet.Upserted
import Livtet.DateOrder
import Livtet.Facets
import Livtet.LabelCache
import Livtet.LastEdition
import Livtet.Shelves
import Livtet.ReadingLists
import Livtet.HalfDone
import Livtet.RangedFiles
import Livtet.HostBridge
import Livtet.ReadingTime
import Livtet.Sessions
import Livtet.RecentlyRead
import Livtet.Attachments
import Livtet.LinkSets
import Livtet.WorkList
import Livtet.WorkSearch
import Livtet.Covers
import Livtet.IsbnCodes
import Livtet.PublishedDates
import Livtet.IdentifierText
import Livtet.FormatSchemas
import Livtet.AuthorNames
import Livtet.BibTexBatches
import Livtet.Ris
import Livtet.ProgressUnits
import Livtet.StrictTypes
import Livtet.CreateTables
import Livtet.ConflictList
import Livtet.Endpoint
import Livtet.Lib.Rings
import Livtet.Lib.Unwinding
import Livtet.Dispatch
import Livtet.Strangers
import Livtet.Records
import Livtet.Revocation
import Livtet.Handshake
import Livtet.Calls
import Livtet.RemotePull
import Livtet.Control
import Livtet.Lifecycle
import Livtet.Announcements
import Livtet.Downloads
import Livtet.FilteredWorks
import Livtet.Nearby
import Livtet.RemotePairing
import Livtet.Advertising
