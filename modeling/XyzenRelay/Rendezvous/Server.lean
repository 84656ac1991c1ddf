-- SUMMARY: The rendezvous server: registry, pending punches, outboxes, and every UDP, TCP and WS handler, one atomic access at a time.
import XyzenRelay.Lib.Machine
import XyzenRelay.Rendezvous.Registry
import Mathlib.Logic.Function.Basic

/-!
# The rendezvous server

Model of `crates/rendezvous/src/server.rs`, for any number of connections. A step
is one section under the lock of the registry or of `pending`, one push into an
outbox, or one message a task reads or writes. Messages stand for their decoded
protobuf bodies, with the fields the server reads or sets.
-/

namespace XyzenRelay.Rendezvous

/-- What the server sends. Fields it leaves at their protobuf defaults are not shown. -/
inductive Outgoing where
  | registerPeerResponse (requestPk : Bool)
  | registerPkResponse (result : Nat) (keepAlive : Int)
  | requestRelay (relayServer : String)
  | relayResponse (relayServer : String)
  deriving DecidableEq, Repr

/-- What a peer sends, as far as the server looks at it. -/
inductive Incoming where
  | registerPeer (id : String)
  | registerPk (id : String)
  | punchHoleRequest (id : String)
  /-- `pick` is the key `map.keys().next()` yields when the message is dispatched:
      the iteration order of the map is not specified. -/
  | relayResponse (pick : Option String)
  | other
  deriving DecidableEq, Repr

/-- What `stream.next()` yields to a WS handler. -/
inductive WsItem where
  | message (m : Incoming)
  /-- A binary frame that is no `RendezvousMessage`. -/
  | undecodable
  /-- Text, ping, pong, a raw frame. -/
  | ignored
  /-- Close, an error, the end of the stream. -/
  | closed
  deriving DecidableEq, Repr

/-- An unbounded mpsc channel. -/
structure Channel where
  /-- Everything pushed so far, and how much of it the receiver has taken. -/
  messages : List Outgoing
  taken : Nat
  /-- The receiver has not been dropped. -/
  receiving : Bool
  deriving DecidableEq, Repr

namespace Channel

def new : Channel := { messages := [], taken := 0, receiving := true }

/-- `tx.send`, whose error is ignored everywhere. -/
def send (ch : Channel) (m : Outgoing) : Channel :=
  if ch.receiving then { ch with messages := ch.messages ++ [m] } else ch

/-- What the receiver has not taken yet. -/
def queued (ch : Channel) : List Outgoing := ch.messages.drop ch.taken

def take (ch : Channel) : Channel := { ch with taken := ch.taken + 1 }

def close (ch : Channel) : Channel := { ch with receiving := false }

end Channel

/-- How far a `dispatch_punch` call has come. -/
inductive PunchStage where
  | lookup (targetId : String)
  | push (targetId : String) (reach : Reachable)
  | insert (targetId : String)
  deriving DecidableEq, Repr

/-- A `dispatch_punch` call holds a clone of the target's sender until it has pushed. -/
def PunchStage.holds (c : ConnId) : PunchStage → Bool
  | .push _ (.wsPush tx) => tx = c
  | _ => false

/-- How far `handle_ws` has come. -/
inductive WsPhase where
  | reading
  /-- The registry is updated and the response still to be pushed. -/
  | replying (m : Outgoing)
  | punching (stage : PunchStage)
  /-- The read loop is left and the cleanup still to come. -/
  | leaving
  /-- `tx` is dropped and the writer task is awaited. -/
  | finishing
  deriving DecidableEq, Repr

structure WsConn where
  phase : WsPhase
  myId : Option String
  deriving DecidableEq, Repr

/-- How far `handle_tcp` has come. -/
inductive TcpPhase where
  /-- Waiting for the first frame. -/
  | first
  | punching (stage : PunchStage)
  /-- Blocked in `rx.recv()`. -/
  | waiting
  deriving DecidableEq, Repr

structure Server where
  registry : PeerRegistry
  /-- Pending punches: the target id, and the requester's outbox. -/
  pending : AList fun _ : String => ConnId
  outbox : ConnId → Channel
  ws : ConnId → Option WsConn
  tcp : ConnId → Option TcpPhase
  /-- The datagrams sent. -/
  udpOut : List (Outgoing × SocketAddr)
  /-- The number of connections accepted so far. -/
  accepted : Nat

inductive Action where
  /-- A datagram arrives; `none` is one that does not decode. The flag is whether the
      socket takes what is sent for it. -/
  | udp (m : Option Incoming) (addr : SocketAddr) (ok : Bool)
  | tcpAccept
  /-- The first frame of a TCP connection; `none` is a timeout, an error or the end
      of the stream. -/
  | tcpFirst (c : ConnId) (m : Option Incoming)
  /-- The next step of a TCP connection's `dispatch_punch`; the flag is whether the
      socket takes a datagram sent in it. -/
  | tcpPunch (c : ConnId) (ok : Bool)
  /-- A TCP handler forwards what was pushed to it and returns. -/
  | tcpForward (c : ConnId)
  | wsAccept
  | wsReceive (c : ConnId) (item : WsItem)
  /-- The response to a registration is pushed. -/
  | wsReply (c : ConnId)
  | wsPunch (c : ConnId) (ok : Bool)
  | wsCleanup (c : ConnId)
  /-- The writer task has ended, and the handler returns. -/
  | wsFinish (c : ConnId)
  /-- The writer task takes the next message; the flag is whether the sink takes it. -/
  | wsWrite (c : ConnId) (ok : Bool)
  deriving DecidableEq, Repr

namespace Server

def init : Server where
  registry := ∅
  pending := ∅
  outbox := fun _ => .new
  ws := fun _ => none
  tcp := fun _ => none
  udpOut := []
  accepted := 0

/-! ## Updates -/

/-- `tx.send` on the outbox of a connection. -/
def send (s : Server) (c : ConnId) (m : Outgoing) : Server :=
  { s with outbox := Function.update s.outbox c ((s.outbox c).send m) }

/-- `send_udp`, which only logs that `send_to` has failed. -/
def sendUdp (s : Server) (m : Outgoing) (addr : SocketAddr) (ok : Bool) : Server :=
  if ok then { s with udpOut := s.udpOut ++ [(m, addr)] } else s

def setWs (s : Server) (c : ConnId) (conn : Option WsConn) : Server :=
  { s with ws := Function.update s.ws c conn }

def setTcp (s : Server) (c : ConnId) (phase : Option TcpPhase) : Server :=
  { s with tcp := Function.update s.tcp c phase }

def upsert (s : Server) (id : String) (reach : Reachable) : Server :=
  { s with registry := s.registry.upsert id reach }

section Handlers

variable (relayAddr : String)

/-! ## The dispatch helpers -/

/-- `dispatch_punch`: the server after the next access, and the stage that follows,
    if the call does not return. -/
def dispatchPunch (s : Server) (requester : ConnId) (ok : Bool) :
    PunchStage → Server × Option PunchStage
  | .lookup targetId =>
    match s.registry.get targetId with
    | none => (s, none)
    | some reach => (s, some (.push targetId reach))
  | .push targetId reach =>
    let toTarget := .requestRelay relayAddr
    match reach with
    | .udp addr => (s.sendUdp toTarget addr ok, some (.insert targetId))
    | .wsPush targetTx => (s.send targetTx toTarget, some (.insert targetId))
  | .insert targetId => ({ s with pending := s.pending.insert targetId requester }, none)

/-- `dispatch_relay_ack`, one section under the lock of `pending`. -/
def dispatchRelayAck (s : Server) (pick : Option String) : Option Server :=
  match pick with
  | none => if s.pending.keys = [] then some s else none
  | some k =>
    match s.pending.lookup k with
    | none => none
    | some requester =>
      some ({ s with pending := s.pending.erase k }.send requester (.relayResponse relayAddr))

/-! ## The handlers -/

/-- The body of `udp_loop`. -/
def udp (s : Server) (m : Option Incoming) (addr : SocketAddr) (ok : Bool) : Server :=
  match m with
  | some (.registerPeer id) =>
    (s.upsert id (.udp addr)).sendUdp (.registerPeerResponse false) addr ok
  | some (.registerPk _) => s.sendUdp (.registerPkResponse 0 0) addr ok
  | _ => s

/-- A TCP handler returns, which drops its receiver. -/
def tcpReturn (s : Server) (c : ConnId) : Server :=
  { s.setTcp c none with outbox := Function.update s.outbox c (s.outbox c).close }

def tcpFirst (s : Server) (c : ConnId) (m : Option Incoming) : Option Server :=
  match m with
  | some (.punchHoleRequest id) => some (s.setTcp c (some (.punching (.lookup id))))
  | some (.relayResponse pick) => (s.dispatchRelayAck relayAddr pick).map fun t => t.tcpReturn c
  | _ => some (s.tcpReturn c)

def tcpPunch (s : Server) (c : ConnId) (ok : Bool) (stage : PunchStage) : Server :=
  let (t, next) := s.dispatchPunch relayAddr c ok stage
  t.setTcp c (some (next.elim .waiting .punching))

/-- The body of the read loop of `handle_ws`. -/
def wsReceive (s : Server) (c : ConnId) (conn : WsConn) (item : WsItem) : Option Server :=
  match item with
  | .message (.registerPeer id) =>
    some ((s.upsert id (.wsPush c)).setWs c
      (some { phase := .replying (.registerPeerResponse false), myId := some id }))
  | .message (.registerPk id) =>
    if id = "" then
      some (s.setWs c (some { conn with phase := .replying (.registerPkResponse 0 0) }))
    else
      some ((s.upsert id (.wsPush c)).setWs c
        (some { phase := .replying (.registerPkResponse 0 0), myId := some id }))
  | .message (.punchHoleRequest id) =>
    some (s.setWs c (some { conn with phase := .punching (.lookup id) }))
  | .message (.relayResponse pick) => s.dispatchRelayAck relayAddr pick
  | .message .other | .undecodable | .ignored => some s
  | .closed => some (s.setWs c (some { conn with phase := .leaving }))

def wsPunch (s : Server) (c : ConnId) (conn : WsConn) (ok : Bool) (stage : PunchStage) : Server :=
  let (t, next) := s.dispatchPunch relayAddr c ok stage
  t.setWs c (some { conn with phase := next.elim .reading .punching })

/-- The registry cleanup after the read loop, and `drop(tx)`. -/
def wsCleanup (s : Server) (c : ConnId) (conn : WsConn) : Server :=
  let t := s.setWs c (some { conn with phase := .finishing })
  match conn.myId with
  | some id => { t with registry := t.registry.removeIfWs id c }
  | none => t

/-- The writer task forwards a message, or ends when the sink is gone. -/
def wsWrite (s : Server) (c : ConnId) (ok : Bool) : Server :=
  let ch := (s.outbox c).take
  { s with outbox := Function.update s.outbox c (if ok then ch else ch.close) }

/-- A sender of the connection's outbox is held outside its own handler. -/
def senderHeld (s : Server) (c : ConnId) : Bool :=
  s.registry.entries.any (fun e => e.2 = .wsPush c) || s.pending.entries.any (fun e => e.2 = c) ||
    (List.range s.accepted).any fun d =>
      (s.ws d).any (fun conn => match conn.phase with
        | .punching stage => stage.holds c
        | _ => false) ||
      (s.tcp d).any fun phase => match phase with
        | .punching stage => stage.holds c
        | _ => false

/-- `rx.recv()` of the writer task has returned `None`, or its sink was gone. -/
def writerEnded (s : Server) (c : ConnId) : Bool :=
  !(s.outbox c).receiving || ((s.outbox c).queued = [] && !s.senderHeld c)

def step (s : Server) : Action → Option Server
  | .udp m addr ok => some (s.udp m addr ok)
  | .tcpAccept => some { s.setTcp s.accepted (some .first) with accepted := s.accepted + 1 }
  | .tcpFirst c m =>
    match s.tcp c with
    | some .first => s.tcpFirst relayAddr c m
    | _ => none
  | .tcpPunch c ok =>
    match s.tcp c with
    | some (.punching stage) => some (s.tcpPunch relayAddr c ok stage)
    | _ => none
  | .tcpForward c =>
    match s.tcp c with
    | some .waiting =>
      if (s.outbox c).queued = [] then none
      else some ({ s with outbox := Function.update s.outbox c (s.outbox c).take }.tcpReturn c)
    | _ => none
  | .wsAccept =>
    some { s.setWs s.accepted (some { phase := .reading, myId := none }) with
      accepted := s.accepted + 1 }
  | .wsReceive c item =>
    match s.ws c with
    | some conn =>
      match conn.phase with
      | .reading => s.wsReceive relayAddr c conn item
      | _ => none
    | none => none
  | .wsReply c =>
    match s.ws c with
    | some conn =>
      match conn.phase with
      | .replying m => some ((s.send c m).setWs c (some { conn with phase := .reading }))
      | _ => none
    | none => none
  | .wsPunch c ok =>
    match s.ws c with
    | some conn =>
      match conn.phase with
      | .punching stage => some (s.wsPunch relayAddr c conn ok stage)
      | _ => none
    | none => none
  | .wsCleanup c =>
    match s.ws c with
    | some conn =>
      match conn.phase with
      | .leaving => some (s.wsCleanup c conn)
      | _ => none
    | none => none
  | .wsFinish c =>
    match s.ws c with
    | some conn =>
      match conn.phase with
      | .finishing =>
        if s.writerEnded c then
          some { s.setWs c none with outbox := Function.update s.outbox c (s.outbox c).close }
        else none
      | _ => none
    | none => none
  | .wsWrite c ok =>
    match s.ws c with
    | some _ =>
      if (s.outbox c).receiving = true ∧ (s.outbox c).queued ≠ []
        then some (s.wsWrite c ok) else none
    | none => none

def machine : Machine Server Action := { init := init, step := step relayAddr }

end Handlers

end Server

end XyzenRelay.Rendezvous
