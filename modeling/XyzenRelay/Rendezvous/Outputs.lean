-- SUMMARY: What the rendezvous server sends, message by message, and to whom: every step sends at most one message, and the datagrams and outboxes are these messages in order.
import XyzenRelay.Rendezvous.Events

/-!
# Outputs

A step sends at most one message: into an outbox or as a datagram. An outbox whose
receiver is gone drops what it is sent. All that the server ever sends is therefore in
the journal of its runs.
-/

namespace XyzenRelay.Rendezvous

/-- Where messages come from and go to: an address, or a connection. -/
inductive Endpoint where
  | udp (addr : SocketAddr)
  | conn (c : ConnId)
  deriving DecidableEq, Repr

/-- Where the peer of a registry entry is. -/
def Reachable.endpoint : Reachable → Endpoint
  | .udp addr => .udp addr
  | .wsPush tx => .conn tx

/-- A message on its way. -/
structure Output where
  dest : Endpoint
  message : Outgoing
  deriving DecidableEq, Repr

namespace Output

/-- The message, if it is sent: the flag is whether the socket takes a datagram. -/
def sent (o : Output) (ok : Bool) : Option Output :=
  match o.dest with
  | .udp _ => if ok then some o else none
  | .conn _ => some o

/-- Only what is sent is sent. -/
theorem eq_of_sent {o o' : Output} {ok : Bool} (h : o.sent ok = some o') : o' = o := by
  unfold sent at h
  split at h <;> simp_all

def datagram? : Output → Option (Outgoing × SocketAddr)
  | { dest := .udp addr, message } => some (message, addr)
  | _ => none

def outbox? (c : ConnId) : Output → Option Outgoing
  | { dest := .conn d, message } => if d = c then some message else none
  | _ => none

theorem datagram?_eq_some {o : Output} {m : Outgoing} {addr : SocketAddr} :
    o.datagram? = some (m, addr) ↔ o = { dest := .udp addr, message := m } := by
  unfold datagram?
  split
  · simp only [Option.some.injEq, Prod.mk.injEq, mk.injEq, Endpoint.udp.injEq]
    exact and_comm
  · next hnot =>
    simp only [reduceCtorEq, false_iff]
    rintro rfl
    exact hnot addr m rfl

theorem outbox?_eq_some {o : Output} {c : ConnId} {m : Outgoing} :
    o.outbox? c = some m ↔ o = { dest := .conn c, message := m } := by
  unfold outbox?
  split
  · next d m' =>
    simp only [Option.ite_none_right_eq_some, Option.some.injEq, mk.injEq, Endpoint.conn.injEq]
  · next hnot =>
    simp only [reduceCtorEq, false_iff]
    rintro rfl
    exact hnot c m rfl

end Output

/-- The channel has been sent the messages, unless its receiver was gone. -/
structure Channel.Sent (ch ch' : Channel) (ms : List Outgoing) : Prop where
  messages : ch'.messages = ch.messages ++ if ch.receiving then ms else []
  receiving : ch'.receiving = true → ch.receiving = true

namespace Channel

theorem Sent.refl (ch : Channel) : ch.Sent ch [] := ⟨by simp, id⟩

theorem Sent.trans {ch ch' ch'' : Channel} {ms : List Outgoing} (h : ch.Sent ch' ms)
    (h' : ch'.Sent ch'' []) : ch.Sent ch'' ms :=
  ⟨by simp [h'.messages, h.messages], fun hr => h.receiving (h'.receiving hr)⟩

theorem sent_take (ch : Channel) : ch.Sent ch.take [] := ⟨by simp [take], id⟩

theorem sent_close (ch : Channel) : ch.Sent ch.close [] := ⟨by simp [close], by simp [close]⟩

theorem sent_send (ch : Channel) (m : Outgoing) : ch.Sent (ch.send m) [m] := by
  unfold send
  split
  · next hr => exact ⟨by simp [hr], id⟩
  · next hr => exact ⟨by simp [hr], id⟩

end Channel

namespace Server

section Output

variable (relayAddr : String)

/-- What the next access of a `dispatch_punch` call sends. -/
def punchOutput (ok : Bool) : PunchStage → Option Output
  | .push _ reach =>
    Output.sent { dest := reach.endpoint, message := .requestRelay relayAddr } ok
  | _ => none

/-- What `dispatch_relay_ack` sends when the map yields the picked key. -/
def ackOutput (s : Server) (pick : Option String) : Option Output :=
  (pick.bind s.pending.lookup).map fun requester =>
    { dest := .conn requester, message := .relayResponse relayAddr }

/-- What a step sends. -/
def output (s : Server) : Action → Option Output
  | .udp (some (.registerPeer _)) addr ok =>
    Output.sent { dest := .udp addr, message := .registerPeerResponse false } ok
  | .udp (some (.registerPk _)) addr ok =>
    Output.sent { dest := .udp addr, message := .registerPkResponse 0 0 } ok
  | .tcpFirst _ (some (.relayResponse pick)) => s.ackOutput relayAddr pick
  | .tcpPunch c ok =>
    match s.tcp c with
    | some (.punching stage) => punchOutput relayAddr ok stage
    | _ => none
  | .wsReceive _ (.message (.relayResponse pick)) => s.ackOutput relayAddr pick
  | .wsReply c =>
    match s.ws c with
    | some { phase := .replying m, .. } => some { dest := .conn c, message := m }
    | _ => none
  | .wsPunch c ok =>
    match s.ws c with
    | some { phase := .punching stage, .. } => punchOutput relayAddr ok stage
    | _ => none
  | _ => none

end Output

variable {relayAddr : String} {s s' : Server} {a : Action} {c : ConnId}

theorem output_tcpFirst {m : Option Incoming} (hack : ∀ pick, m ≠ some (.relayResponse pick)) :
    s.output relayAddr (.tcpFirst c m) = none := by
  unfold output
  split <;> simp_all

theorem output_wsReceive {item : WsItem} (hack : ∀ pick, item ≠ .message (.relayResponse pick)) :
    s.output relayAddr (.wsReceive c item) = none := by
  unfold output
  split <;> simp_all

theorem output_tcpPunch {ok : Bool} {stage : PunchStage} (hp : s.tcp c = some (.punching stage)) :
    s.output relayAddr (.tcpPunch c ok) = punchOutput relayAddr ok stage := by
  simp [output, hp]

theorem output_wsPunch {conn : WsConn} {ok : Bool} {stage : PunchStage}
    (hconn : s.ws c = some conn) (hp : conn.phase = .punching stage) :
    s.output relayAddr (.wsPunch c ok) = punchOutput relayAddr ok stage := by
  obtain ⟨phase, myId⟩ := conn
  subst hp
  simp [output, hconn]

theorem output_wsReply {conn : WsConn} {m : Outgoing} (hconn : s.ws c = some conn)
    (hp : conn.phase = .replying m) :
    s.output relayAddr (.wsReply c) = some { dest := .conn c, message := m } := by
  obtain ⟨phase, myId⟩ := conn
  subst hp
  simp [output, hconn]

/-! ## The datagrams and the outboxes -/

/-- The state differs by the message sent, as far as it shows. -/
structure Sends (s s' : Server) (out : Option Output) : Prop where
  udp : s'.udpOut = s.udpOut ++ out.toList.filterMap Output.datagram?
  outbox : ∀ c, (s.outbox c).Sent (s'.outbox c) (out.toList.filterMap (Output.outbox? c))

theorem Sends.congr {t : Server} {out : Option Output} (h : Sends s t out)
    (hudp : s'.udpOut = t.udpOut) (houtbox : s'.outbox = t.outbox) : Sends s s' out :=
  ⟨hudp ▸ h.udp, houtbox ▸ h.outbox⟩

theorem Sends.refl (s : Server) : Sends s s none := ⟨by simp, fun c => .refl _⟩

/-- Nothing more is sent. -/
theorem Sends.trans {t : Server} {out : Option Output} (h : Sends s t out) (h' : Sends t s' none) :
    Sends s s' out where
  udp := by simpa [h.udp] using h'.udp
  outbox c := (h.outbox c).trans (h'.outbox c)

/-- One channel is changed without a message. -/
theorem Sends.of_update {d : ConnId} {ch : Channel} (hudp : s'.udpOut = s.udpOut)
    (houtbox : s'.outbox = Function.update s.outbox d ch) (hch : (s.outbox d).Sent ch []) :
    Sends s s' none where
  udp := by simp [hudp]
  outbox c := by
    rw [houtbox]
    by_cases hc : c = d
    · subst hc
      rw [Function.update_self]
      exact hch
    · rw [Function.update_of_ne hc]
      exact .refl _

theorem sends_send (s : Server) (d : ConnId) (m : Outgoing) :
    Sends s (s.send d m) (some { dest := .conn d, message := m }) where
  udp := by simp [send, Output.datagram?]
  outbox c := by
    by_cases hc : c = d
    · subst hc
      simpa [send, Output.outbox?] using Channel.sent_send (s.outbox c) m
    · simpa [send, Output.outbox?, hc, Ne.symm hc] using Channel.Sent.refl (s.outbox c)

theorem sends_sendUdp (s : Server) (m : Outgoing) (addr : SocketAddr) (ok : Bool) :
    Sends s (s.sendUdp m addr ok) (Output.sent { dest := .udp addr, message := m } ok) := by
  cases ok with
  | false => exact .refl s
  | true => exact ⟨rfl, fun c => Channel.Sent.refl (s.outbox c)⟩

theorem sends_tcpReturn (s : Server) (d : ConnId) : Sends s (s.tcpReturn d) none :=
  .of_update rfl rfl (Channel.sent_close _)

theorem sends_dispatchPunch (s : Server) (requester : ConnId) (ok : Bool) (stage : PunchStage) :
    Sends s (s.dispatchPunch relayAddr requester ok stage).1 (punchOutput relayAddr ok stage) := by
  cases stage with
  | lookup id =>
    have hsame : (s.dispatchPunch relayAddr requester ok (.lookup id)).1 = s := by
      simp only [dispatchPunch]
      split <;> rfl
    rw [hsame]
    exact .refl s
  | push id reach =>
    cases reach with
    | udp addr => exact sends_sendUdp s _ addr ok
    | wsPush tx => exact sends_send s tx _
  | insert id => exact (Sends.refl s).congr rfl rfl

theorem sends_dispatchRelayAck {t : Server} {pick : Option String}
    (h : s.dispatchRelayAck relayAddr pick = some t) : Sends s t (s.ackOutput relayAddr pick) := by
  rcases dispatchRelayAck_eq h with ⟨rfl, -, rfl⟩ | ⟨k, requester, rfl, hk, rfl⟩
  · exact .refl t
  · have hout : s.ackOutput relayAddr (some k) =
        some { dest := .conn requester, message := .relayResponse relayAddr } := by
      simp [ackOutput, hk]
    rw [hout]
    exact (sends_send s requester _).congr rfl rfl

/-- A step sends its output and nothing else. -/
theorem sends_of_step (h : (machine relayAddr).step s a = some s') :
    Sends s s' (s.output relayAddr a) := by
  cases effect_of_step h with
  | @udp m addr ok =>
    rcases m with _ | (_ | _ | _ | _ | _)
    case some.registerPeer id => exact (sends_sendUdp s _ addr ok).congr (by cases ok <;> rfl) (by cases ok <;> rfl)
    case some.registerPk id => exact sends_sendUdp s _ addr ok
    all_goals exact .refl s
  | tcpAccept => exact (Sends.refl s).congr rfl rfl
  | tcpRequest hp => exact (Sends.refl s).congr rfl rfl
  | @tcpAck c pick t hp hack => exact (sends_dispatchRelayAck hack).trans (sends_tcpReturn t c)
  | @tcpIgnores c m hp hack =>
    rw [output_tcpFirst hack]
    exact sends_tcpReturn s c
  | @tcpPunch c ok stage hp =>
    rw [output_tcpPunch hp]
    exact (sends_dispatchPunch s c ok stage).congr rfl rfl
  | @tcpForward c hp =>
    have htaken : Sends s { s with outbox := Function.update s.outbox c (s.outbox c).take } none :=
      .of_update rfl rfl (Channel.sent_take _)
    exact htaken.trans (sends_tcpReturn _ c)
  | wsAccept => exact (Sends.refl s).congr rfl rfl
  | wsRegisters hconn hp hitem =>
    rw [output_wsReceive (by rintro pick rfl; simp [Action.registers] at hitem)]
    exact (Sends.refl s).congr rfl rfl
  | wsAck hconn hp hack => exact sends_dispatchRelayAck hack
  | wsIgnores hconn hp hitem hack =>
    rw [output_wsReceive hack]
    exact .refl s
  | wsTurns hconn hp hitem hack =>
    rw [output_wsReceive hack]
    exact (Sends.refl s).congr rfl rfl
  | @wsReply c conn m hconn hp =>
    rw [output_wsReply hconn hp]
    exact (sends_send s c m).congr rfl rfl
  | @wsPunch c conn ok stage hconn hp =>
    rw [output_wsPunch hconn hp]
    exact (sends_dispatchPunch s c ok stage).congr rfl rfl
  | wsCleanup hconn hp =>
    rw [wsCleanup_eq]
    exact (Sends.refl s).congr rfl rfl
  | @wsFinish c conn hconn hp => exact .of_update rfl rfl (Channel.sent_close _)
  | @wsWrite c ok =>
    refine .of_update (d := c) rfl rfl ?_
    cases ok with
    | true => exact Channel.sent_take _
    | false => exact (Channel.sent_take _).trans (Channel.sent_close _)

/-! ## Whole runs -/

variable (relayAddr) in
/-- Everything the run sends, in order. -/
def outputs (s : Server) (as : List Action) : List Output :=
  (machine relayAddr).journal (output relayAddr) s as

/-- The state shows what has been sent: the datagrams, and what got into the outboxes
    before their receivers were dropped. -/
structure Shows (L : List Output) (s : Server) : Prop where
  udp : s.udpOut = L.filterMap Output.datagram?
  outbox : ∀ c, (s.outbox c).messages <+: L.filterMap (Output.outbox? c)
  receiving : ∀ c, (s.outbox c).receiving = true →
    (s.outbox c).messages = L.filterMap (Output.outbox? c)

theorem Shows.step {L : List Output} (hL : Shows L s)
    (h : (machine relayAddr).step s a = some s') :
    Shows (L ++ (s.output relayAddr a).toList) s' := by
  obtain ⟨hudp, houtbox⟩ := sends_of_step h
  constructor
  · rw [hudp, hL.udp, List.filterMap_append]
  · intro c
    rw [List.filterMap_append, (houtbox c).messages]
    by_cases hr : (s.outbox c).receiving = true
    · simp only [hr, if_true, hL.receiving c hr, List.prefix_rfl]
    · rw [if_neg hr, List.append_nil]
      exact (hL.outbox c).trans (List.prefix_append _ _)
  · intro c hr'
    have hr := (houtbox c).receiving hr'
    rw [List.filterMap_append, (houtbox c).messages, if_pos hr, hL.receiving c hr]

theorem shows_of_run {as : List Action} {t : Server}
    (hrun : (machine relayAddr).run (machine relayAddr).init as = some t) :
    Shows (outputs relayAddr (machine relayAddr).init as) t :=
  (machine relayAddr).journal_invariant (output relayAddr) (L := [])
    (fun _ _ _ _ hL hstep => hL.step hstep) ⟨rfl, fun _ => List.prefix_refl _, fun _ _ => rfl⟩ hrun

end Server

end XyzenRelay.Rendezvous
