-- SUMMARY: The audit emitter of the rendezvous server: which steps emit which events, and what is posted.
import XyzenRelay.Control.Handlers
import XyzenRelay.Rendezvous.Duties

/-!
# The auditor

Model of `crates/rendezvous/src/audit.rs` and of the events that `server.rs` emits. An
event is posted by a task of its own. Nothing waits for it, and it may never arrive.
-/

namespace XyzenRelay.Audit

open Control (AUTHORIZATION HeaderMap IngestAudit Request asBytes)
open Rendezvous (Action ConnId SocketAddr)

/-- `Event`. The `meta` value is given by its JSON text. -/
structure Event where
  kind : String
  peerId : Option String
  controllerPeerId : Option String
  addr : Option String
  metaJson : Option String
  deriving DecidableEq, Repr

/-- What `serde_json` makes of an event, as the control plane reads it. -/
def Event.body (ev : Event) : IngestAudit :=
  { kind := ev.kind, peerId := ev.peerId, controllerPeerId := ev.controllerPeerId, addr := ev.addr,
    metaJson := ev.metaJson }

structure Inner where
  url : String
  token : String
  deriving DecidableEq, Repr

structure Auditor where
  inner : Option Inner
  deriving DecidableEq, Repr

namespace Auditor

/-- Without both a URL and a token, events are only logged. -/
def new (url token : Option String) : Auditor :=
  match url, token with
  | some url, some token => { inner := some { url, token } }
  | _, _ => { inner := none }

end Auditor

/-! ## The events -/

/-- `addr.to_string()`. The brackets of an IPv6 address are part of the host. -/
def addrText (addr : SocketAddr) : String := addr.host ++ ":" ++ toString addr.port

/-- `json!` of the one field `transport`, as text. -/
def transportJson (transport : String) : String :=
  "\x7b\"transport\":\"" ++ transport ++ "\"\x7d"

def event (kind : String) (peerId : Option String) (addr : SocketAddr) (transport : String) :
    Event :=
  { kind, peerId, controllerPeerId := none, addr := some (addrText addr),
    metaJson := some (transportJson transport) }

/-- What the server emits before it acts on a message. `peerAddr` are the addresses of
    the connections. -/
def emitted (peerAddr : ConnId → SocketAddr) : Action → Option Event
  | .udp (some (.registerPeer id)) addr _ => some (event "register" (some id) addr "udp")
  | .tcpFirst c (some (.punchHoleRequest id)) =>
    some (event "punch_request" (some id) (peerAddr c) "tcp")
  | .tcpFirst c (some (.relayResponse _)) => some (event "relay_ack" none (peerAddr c) "tcp")
  | .wsReceive c (.message (.registerPeer id)) =>
    some (event "register" (some id) (peerAddr c) "ws")
  | .wsReceive c (.message (.punchHoleRequest id)) =>
    some (event "punch_request" (some id) (peerAddr c) "ws")
  | .wsReceive c (.message (.relayResponse _)) => some (event "relay_ack" none (peerAddr c) "ws")
  | _ => none

/-! ## What is posted -/

section Posted

variable {url token : String} {ev : Event} {r : Request}

end Posted

end XyzenRelay.Audit
