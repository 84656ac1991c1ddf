import XyzenRelay.Lib.Machine
import XyzenRelay.Lib.Journal
import XyzenRelay.Lib.Numbered
import XyzenRelay.Lib.Endian
import XyzenRelay.Lib.LengthPrefixed
import XyzenRelay.Lib.StreamDecoder
import XyzenRelay.Lib.Stores
import XyzenRelay.Lib.Forwarder
import XyzenRelay.Lib.Broadcast
import XyzenRelay.Lib.Program
import XyzenRelay.Lib.UniqueTable
import XyzenRelay.Lib.Batches
import XyzenRelay.Lib.Latest
import XyzenRelay.Lib.TwoByTwo
import XyzenRelay.Proto.Codec
import XyzenRelay.Proto.RoundTrip
import XyzenRelay.Proto.Reference
import XyzenRelay.Proto.Truncation
import XyzenRelay.Proto.Passthrough
import XyzenRelay.Stream.Nal
import XyzenRelay.Stream.Warmup
import XyzenRelay.Stream.Representation
import XyzenRelay.Stream.History
import XyzenRelay.Stream.Discovery
import XyzenRelay.Stream.Rerecord
import XyzenRelay.Stream.AccessUnit
import XyzenRelay.Stream.Bounds
import XyzenRelay.Stream.Room
import XyzenRelay.Stream.Join
import XyzenRelay.Stream.Configuration
import XyzenRelay.Stream.Delivery
import XyzenRelay.Stream.Server
import XyzenRelay.Stream.ServerInv
import XyzenRelay.Stream.Agreement
import XyzenRelay.Stream.Sessions
import XyzenRelay.Stream.Leaks
import XyzenRelay.Stream.Closing
import XyzenRelay.Stream.Locality
import XyzenRelay.Stream.Isolation
import XyzenRelay.Rendezvous.Registry
import XyzenRelay.Rendezvous.Server
import XyzenRelay.Rendezvous.Effect
import XyzenRelay.Rendezvous.Acks
import XyzenRelay.Rendezvous.Events
import XyzenRelay.Rendezvous.Registrations
import XyzenRelay.Rendezvous.Requests
import XyzenRelay.Rendezvous.Answers
import XyzenRelay.Rendezvous.Disconnect
import XyzenRelay.Rendezvous.Stranded
import XyzenRelay.Rendezvous.Outputs
import XyzenRelay.Rendezvous.Duties
import XyzenRelay.Rendezvous.Provenance
import XyzenRelay.Rendezvous.Accounts
import XyzenRelay.Relay.Pairing
import XyzenRelay.Relay.Pump
import XyzenRelay.Relay.HalfClose
import XyzenRelay.Relay.System
import XyzenRelay.Relay.Arrivals
import XyzenRelay.Control.Auth
import XyzenRelay.Control.Ids
import XyzenRelay.Control.Database
import XyzenRelay.Control.Handlers
import XyzenRelay.Control.Bindings
import XyzenRelay.Control.Idempotence
import XyzenRelay.Control.Gate
import XyzenRelay.Control.AuditLog
import XyzenRelay.Control.Authorship
import XyzenRelay.Audit.Auditor
import XyzenRelay.Audit.Trail
import XyzenRelay.Capture.Annexb
import XyzenRelay.Capture.Stamp
import XyzenRelay.Capture.MacStream
import XyzenRelay.Capture.Indexed
import XyzenRelay.Capture.Segments
import XyzenRelay.Capture.Nv12
import XyzenRelay.Capture.FrameSize
import XyzenRelay.Capture.Session
import XyzenRelay.Capture.WinStream
import XyzenRelay.Capture.Publisher
import XyzenRelay.Capture.Lifecycle
import XyzenRelay.Capture.FailedStart
import XyzenRelay.Capture.Retune
import XyzenRelay.Capture.Requested
import XyzenRelay.Capture.Channel
import XyzenRelay.Capture.MacCapturer
import XyzenRelay.Capture.Resolution
import XyzenRelay.Capture.Controls
import XyzenRelay.Capture.RateCap
import XyzenRelay.Capture.Pipeline
import XyzenRelay.Viewer.WebCodecs
import XyzenRelay.Viewer.Playback
import XyzenRelay.Viewer.Stamped
