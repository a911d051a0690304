import OpenFix.Lib.SortedMap
import OpenFix.Lib.AssocList
import OpenFix.Lib.Effect
import OpenFix.Lib.Joined
import OpenFix.Lib.Table
import OpenFix.Lib.Ledger
import OpenFix.Lib.Loop
import OpenFix.Lib.Mutex
import OpenFix.Lib.Run
import OpenFix.Lib.Search
import OpenFix.Lib.Stream
import OpenFix.Lib.Tiling
import OpenFix.Lib.Toposort
import OpenFix.Lib.Watchdog
import OpenFix.Lib.Calendar
import OpenFix.Bytes
import OpenFix.Timestamp
import OpenFix.Clock
import OpenFix.Checksum
import OpenFix.Simd
import OpenFix.Fields
import OpenFix.FieldMap
import OpenFix.Message
import OpenFix.Config
import OpenFix.Dictionary
import OpenFix.Loading
import OpenFix.References
import OpenFix.Flat
import OpenFix.Expansion
import OpenFix.Resolution
import OpenFix.FieldOrder
import OpenFix.Cache
import OpenFix.Network
import OpenFix.Framing
import OpenFix.Wire
import OpenFix.Rendering
import OpenFix.Reader
import OpenFix.Outbound
import OpenFix.Writer
import OpenFix.Store
import OpenFix.Records
import OpenFix.Session
import OpenFix.Quiet
import OpenFix.Inbound
import OpenFix.Step
import OpenFix.Delivery
import OpenFix.Connection
import OpenFix.Sending
import OpenFix.Batch
import OpenFix.Replay
import OpenFix.ResetLogon
import OpenFix.Concurrent
import OpenFix.Numbering
import OpenFix.Agreement
import OpenFix.Queueing
import OpenFix.Draining
import OpenFix.Failing
import OpenFix.Duplicates
import OpenFix.Descriptors
import OpenFix.Routing
import OpenFix.Isolation
import OpenFix.Shutdown
import OpenFix.Locking
import OpenFix.Parsing
import OpenFix.Scanning
import OpenFix.Specified
import OpenFix.Relaxed
import OpenFix.EndOfStream
import OpenFix.Accepting
import OpenFix.Flushing
import OpenFix.Errors
import OpenFix.Nesting
import OpenFix.Nodes
import OpenFix.Pairs
import OpenFix.ReadBack
import OpenFix.Ordered
import OpenFix.Storage
import OpenFix.Stored
import OpenFix.Recovery
import OpenFix.Retrying
import OpenFix.Edits
import OpenFix.Tokens
import OpenFix.Numerals
import OpenFix.Unique
import OpenFix.Kept
import OpenFix.Counts
import OpenFix.Truthful
import OpenFix.Views
import OpenFix.Overflow
import OpenFix.Offsets
import OpenFix.Envelope
import OpenFix.Content
import OpenFix.Reading
import OpenFix.Rounds
import OpenFix.RoundTrip
import OpenFix.Slots
import OpenFix.Defined
import OpenFix.Watchdog
import OpenFix.Resent
import OpenFix.Spoken
import OpenFix.Logons
import OpenFix.Handshake
import OpenFix.Admin
import OpenFix.Heard
