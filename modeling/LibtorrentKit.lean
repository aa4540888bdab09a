import LibtorrentKit.Containment
import LibtorrentKit.Engine
import LibtorrentKit.Lib.Acks
import LibtorrentKit.Lib.Bitset
import LibtorrentKit.Lib.Blocks
import LibtorrentKit.Lib.Checked
import LibtorrentKit.Lib.Descent
import LibtorrentKit.Lib.Entries
import LibtorrentKit.Lib.History
import LibtorrentKit.Lib.Json
import LibtorrentKit.Lib.JsonTexts
import LibtorrentKit.Lib.KeyedFifo
import LibtorrentKit.Lib.Lexical
import LibtorrentKit.Lib.Overlay
import LibtorrentKit.Lib.Raise
import LibtorrentKit.Lib.Run
import LibtorrentKit.Lib.Search
import LibtorrentKit.Lib.SerialQueue
import LibtorrentKit.Lib.Throw
import LibtorrentKit.Lib.Utf8
import LibtorrentKit.Mailbox.Capacity
import LibtorrentKit.Mailbox.Delivery
import LibtorrentKit.Mailbox.Draining
import LibtorrentKit.Mailbox.EventMailbox
import LibtorrentKit.Mailbox.Freshness
import LibtorrentKit.Mailbox.Refinement
import LibtorrentKit.Mailbox.Statuses
import LibtorrentKit.Mailbox.WellFormed
import LibtorrentKit.Payload
import LibtorrentKit.Session.Adding
import LibtorrentKit.Session.Admission
import LibtorrentKit.Session.Alive
import LibtorrentKit.Session.Api
import LibtorrentKit.Session.Baseline
import LibtorrentKit.Session.Callers
import LibtorrentKit.Session.Checkpoint
import LibtorrentKit.Session.CompletionSafety
import LibtorrentKit.Session.Completions
import LibtorrentKit.Session.Draining
import LibtorrentKit.Session.Edges
import LibtorrentKit.Session.Errors
import LibtorrentKit.Session.EventTexts
import LibtorrentKit.Session.Fences
import LibtorrentKit.Session.Fidelity
import LibtorrentKit.Session.Frames
import LibtorrentKit.Session.Geometry
import LibtorrentKit.Session.Hush
import LibtorrentKit.Session.Identifiers
import LibtorrentKit.Session.Identity
import LibtorrentKit.Session.JobSteps
import LibtorrentKit.Session.Jobs
import LibtorrentKit.Session.Lifecycle
import LibtorrentKit.Session.Mail
import LibtorrentKit.Session.Messages
import LibtorrentKit.Session.Moves
import LibtorrentKit.Session.Notifications
import LibtorrentKit.Session.Owners
import LibtorrentKit.Session.Paused
import LibtorrentKit.Session.Pieces
import LibtorrentKit.Session.Rejection
import LibtorrentKit.Session.Removal
import LibtorrentKit.Session.Replies
import LibtorrentKit.Session.Requests
import LibtorrentKit.Session.Reselection
import LibtorrentKit.Session.Restore
import LibtorrentKit.Session.Results
import LibtorrentKit.Session.RoundSteps
import LibtorrentKit.Session.Rounds
import LibtorrentKit.Session.Routing
import LibtorrentKit.Session.Selection
import LibtorrentKit.Session.Slots
import LibtorrentKit.Session.Snapshot
import LibtorrentKit.Session.State
import LibtorrentKit.Session.Tenures
import LibtorrentKit.Session.Unwinding
import LibtorrentKit.Session.Verdicts
import LibtorrentKit.Session.Verified
import LibtorrentKit.Session.Wanted
import LibtorrentKit.Session.Watch
import LibtorrentKit.Session.Windows
import LibtorrentKit.Swift.Arguments
import LibtorrentKit.Swift.Bookkeeping
import LibtorrentKit.Swift.Calls
import LibtorrentKit.Swift.Decoding
import LibtorrentKit.Swift.Destruction
import LibtorrentKit.Swift.Diagnostics
import LibtorrentKit.Swift.Effects
import LibtorrentKit.Swift.ErrorTexts
import LibtorrentKit.Swift.EventStream
import LibtorrentKit.Swift.Executor
import LibtorrentKit.Swift.Isolation
import LibtorrentKit.Swift.Lanes
import LibtorrentKit.Swift.Lifetime
import LibtorrentKit.Swift.MetadataText
import LibtorrentKit.Swift.Operations
import LibtorrentKit.Swift.Outcomes
import LibtorrentKit.Swift.PieceCompletion
import LibtorrentKit.Swift.Progress
import LibtorrentKit.Swift.Replies
import LibtorrentKit.Swift.TorrentEvent
import LibtorrentKit.Swift.TorrentSession
import LibtorrentKit.Swift.Waits
import LibtorrentKit.Swift.WindowPlan
