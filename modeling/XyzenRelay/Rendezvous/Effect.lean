-- SUMMARY: What a step of the rendezvous server does, inverted once, and what that means for each part of its state.
import XyzenRelay.Rendezvous.Server

/-!
# What a step does

`Effect` lists the enabled steps with the state each of them leaves behind. The
lemmas below say what that is for the registry and for the connections, and later
proofs only use those.
-/

namespace XyzenRelay.Rendezvous

def Outgoing.isRelayResponse : Outgoing → Bool
  | .relayResponse _ => true
  | _ => false

/-- What an upsert handler puts into the registry. -/
def Action.registers : Action → Option (String × Reachable)
  | .udp (some (.registerPeer id)) addr _ => some (id, .udp addr)
  | .wsReceive c (.message (.registerPeer id)) => some (id, .wsPush c)
  | .wsReceive c (.message (.registerPk id)) => if id = "" then none else some (id, .wsPush c)
  | _ => none

namespace Server

variable {relayAddr : String}

/-! ## Inversion -/

variable (relayAddr) in
inductive Effect (s : Server) : Action → Server → Prop
  | udp {m : Option Incoming} {addr : SocketAddr} {ok : Bool} :
    Effect s (.udp m addr ok) (s.udp m addr ok)
  | tcpAccept :
    Effect s .tcpAccept { s.setTcp s.accepted (some .first) with accepted := s.accepted + 1 }
  | tcpRequest {c : ConnId} {id : String} (hp : s.tcp c = some .first) :
    Effect s (.tcpFirst c (some (.punchHoleRequest id)))
      (s.setTcp c (some (.punching (.lookup id))))
  | tcpAck {c : ConnId} {pick : Option String} {t : Server} (hp : s.tcp c = some .first)
      (hack : s.dispatchRelayAck relayAddr pick = some t) :
    Effect s (.tcpFirst c (some (.relayResponse pick))) (t.tcpReturn c)
  | tcpIgnores {c : ConnId} {m : Option Incoming} (hp : s.tcp c = some .first)
      (hack : ∀ pick, m ≠ some (.relayResponse pick)) : Effect s (.tcpFirst c m) (s.tcpReturn c)
  | tcpPunch {c : ConnId} {ok : Bool} {stage : PunchStage}
      (hp : s.tcp c = some (.punching stage)) :
    Effect s (.tcpPunch c ok) (s.tcpPunch relayAddr c ok stage)
  | tcpForward {c : ConnId} (hp : s.tcp c = some .waiting) :
    Effect s (.tcpForward c)
      ({ s with outbox := Function.update s.outbox c (s.outbox c).take }.tcpReturn c)
  | wsAccept : Effect s .wsAccept
      { s.setWs s.accepted (some { phase := .reading, myId := none })
        with accepted := s.accepted + 1 }
  | wsRegisters {c : ConnId} {conn : WsConn} {item : WsItem} {id : String} {m : Outgoing}
      (hconn : s.ws c = some conn) (hp : conn.phase = .reading)
      (hitem : (Action.wsReceive c item).registers = some (id, .wsPush c))
      (hm : m.isRelayResponse = false) :
    Effect s (.wsReceive c item)
      ((s.upsert id (.wsPush c)).setWs c (some { phase := .replying m, myId := some id }))
  | wsAck {c : ConnId} {conn : WsConn} {pick : Option String} {t : Server}
    (hconn : s.ws c = some conn)
      (hp : conn.phase = .reading) (hack : s.dispatchRelayAck relayAddr pick = some t) :
    Effect s (.wsReceive c (.message (.relayResponse pick))) t
  | wsIgnores {c : ConnId} {conn : WsConn} {item : WsItem} (hconn : s.ws c = some conn)
      (hp : conn.phase = .reading) (hitem : (Action.wsReceive c item).registers = none)
      (hack : ∀ pick, item ≠ .message (.relayResponse pick)) : Effect s (.wsReceive c item) s
  /-- An empty `RegisterPk` is answered, a punch begins, or the read loop is left. -/
  | wsTurns {c : ConnId} {conn : WsConn} {item : WsItem} {phase : WsPhase}
    (hconn : s.ws c = some conn)
      (hp : conn.phase = .reading) (hitem : (Action.wsReceive c item).registers = none)
      (hack : ∀ pick, item ≠ .message (.relayResponse pick))
      (hphase : phase = .replying (.registerPkResponse 0 0) ∨
        (∃ id, phase = .punching (.lookup id)) ∨
        phase = .leaving) :
    Effect s (.wsReceive c item) (s.setWs c (some { conn with phase := phase }))
  | wsReply {c : ConnId} {conn : WsConn} {m : Outgoing} (hconn : s.ws c = some conn)
      (hp : conn.phase = .replying m) :
    Effect s (.wsReply c) ((s.send c m).setWs c (some { conn with phase := .reading }))
  | wsPunch {c : ConnId} {conn : WsConn} {ok : Bool} {stage : PunchStage}
      (hconn : s.ws c = some conn) (hp : conn.phase = .punching stage) :
    Effect s (.wsPunch c ok) (s.wsPunch relayAddr c conn ok stage)
  | wsCleanup {c : ConnId} {conn : WsConn} (hconn : s.ws c = some conn)
    (hp : conn.phase = .leaving) :
    Effect s (.wsCleanup c) (s.wsCleanup c conn)
  | wsFinish {c : ConnId} {conn : WsConn} (hconn : s.ws c = some conn)
    (hp : conn.phase = .finishing) :
    Effect s (.wsFinish c)
      { s.setWs c none with outbox := Function.update s.outbox c (s.outbox c).close }
  | wsWrite {c : ConnId} {ok : Bool} : Effect s (.wsWrite c ok) (s.wsWrite c ok)

theorem effect_of_tcpFirst {s s' : Server} {c : ConnId} {m : Option Incoming}
    (hp : s.tcp c = some .first)
    (h : s.tcpFirst relayAddr c m = some s') : Effect relayAddr s (.tcpFirst c m) s' := by
  unfold tcpFirst at h
  split at h
  · obtain rfl := Option.some.inj h
    exact .tcpRequest hp
  · obtain ⟨t, hack, rfl⟩ := Option.map_eq_some_iff.mp h
    exact .tcpAck hp hack
  · next hnot =>
    obtain rfl := Option.some.inj h
    exact .tcpIgnores hp hnot

theorem effect_of_wsReceive {s s' : Server} {c : ConnId} {conn : WsConn} {item : WsItem}
    (hconn : s.ws c = some conn) (hp : conn.phase = .reading)
    (h : s.wsReceive relayAddr c conn item = some s') :
    Effect relayAddr s (.wsReceive c item) s' := by
  unfold wsReceive at h
  split at h
  · obtain rfl := Option.some.inj h
    exact .wsRegisters hconn hp rfl rfl
  · next id =>
    split_ifs at h with hid
    · obtain rfl := Option.some.inj h
      exact .wsTurns hconn hp (by simp [Action.registers, hid]) (by simp) (.inl rfl)
    · obtain rfl := Option.some.inj h
      exact .wsRegisters hconn hp (by simp [Action.registers, hid]) rfl
  · next id =>
    obtain rfl := Option.some.inj h
    exact .wsTurns hconn hp rfl (by simp) (.inr (.inl ⟨id, rfl⟩))
  · exact .wsAck hconn hp h
  · obtain rfl := Option.some.inj h
    exact .wsIgnores hconn hp rfl (by simp)
  · obtain rfl := Option.some.inj h
    exact .wsIgnores hconn hp rfl (by simp)
  · obtain rfl := Option.some.inj h
    exact .wsIgnores hconn hp rfl (by simp)
  · obtain rfl := Option.some.inj h
    exact .wsTurns hconn hp rfl (by simp) (.inr (.inr rfl))

theorem effect_of_step {s s' : Server} {a : Action} (h : (machine relayAddr).step s a = some s') :
    Effect relayAddr s a s' := by
  simp only [machine] at h
  cases a with
  | udp m addr ok =>
    obtain rfl := Option.some.inj h
    exact .udp
  | tcpAccept =>
    obtain rfl := Option.some.inj h
    exact .tcpAccept
  | tcpFirst c m =>
    simp only [step] at h
    split at h
    · next hp => exact effect_of_tcpFirst hp h
    · simp at h
  | tcpPunch c ok =>
    simp only [step] at h
    split at h
    · next stage hp =>
      obtain rfl := Option.some.inj h
      exact .tcpPunch hp
    · simp at h
  | tcpForward c =>
    simp only [step] at h
    split at h
    · next hp =>
      split_ifs at h
      obtain rfl := Option.some.inj h
      exact .tcpForward hp
    · simp at h
  | wsAccept =>
    obtain rfl := Option.some.inj h
    exact .wsAccept
  | wsReceive c item =>
    simp only [step] at h
    split at h
    · next conn hconn =>
      split at h
      · next hp => exact effect_of_wsReceive hconn hp h
      · simp at h
    · simp at h
  | wsReply c =>
    simp only [step] at h
    split at h
    · next conn hconn =>
      split at h
      · next m hp =>
        obtain rfl := Option.some.inj h
        exact .wsReply hconn hp
      · simp at h
    · simp at h
  | wsPunch c ok =>
    simp only [step] at h
    split at h
    · next conn hconn =>
      split at h
      · next stage hp =>
        obtain rfl := Option.some.inj h
        exact .wsPunch hconn hp
      · simp at h
    · simp at h
  | wsCleanup c =>
    simp only [step] at h
    split at h
    · next conn hconn =>
      split at h
      · next hp =>
        obtain rfl := Option.some.inj h
        exact .wsCleanup hconn hp
      · simp at h
    · simp at h
  | wsFinish c =>
    simp only [step] at h
    split at h
    · next conn hconn =>
      split at h
      · next hp =>
        split_ifs at h
        obtain rfl := Option.some.inj h
        exact .wsFinish hconn hp
      · simp at h
    · simp at h
  | wsWrite c ok =>
    simp only [step] at h
    split at h
    · split_ifs at h
      obtain rfl := Option.some.inj h
      exact .wsWrite
    · simp at h

/-! ## The dispatch helpers -/

section Dispatch

variable {s t : Server} {c : ConnId}

/-- A datagram that is sent, or dropped, touches nothing but the datagrams. -/
theorem sendUdp_eq (s : Server) (m : Outgoing) (addr : SocketAddr) (ok : Bool) :
    s.sendUdp m addr ok = { s with udpOut := s.udpOut ++ if ok then [(m, addr)] else [] } := by
  cases ok <;> simp [sendUdp]

@[simp] theorem dispatchPunch_registry (ok : Bool) (stage : PunchStage) :
    (s.dispatchPunch relayAddr c ok stage).1.registry = s.registry := by
  unfold dispatchPunch
  split <;> (try split) <;> simp [sendUdp_eq, send]

@[simp] theorem dispatchPunch_ws (ok : Bool) (stage : PunchStage) :
    (s.dispatchPunch relayAddr c ok stage).1.ws = s.ws := by
  unfold dispatchPunch
  split <;> (try split) <;> simp [sendUdp_eq, send]

@[simp] theorem dispatchPunch_tcp (ok : Bool) (stage : PunchStage) :
    (s.dispatchPunch relayAddr c ok stage).1.tcp = s.tcp := by
  unfold dispatchPunch
  split <;> (try split) <;> simp [sendUdp_eq, send]

@[simp] theorem dispatchPunch_accepted (ok : Bool) (stage : PunchStage) :
    (s.dispatchPunch relayAddr c ok stage).1.accepted = s.accepted := by
  unfold dispatchPunch
  split <;> (try split) <;> simp [sendUdp_eq, send]

/-- An acknowledgement finds nobody waiting, or answers the requester of the picked entry. -/
theorem dispatchRelayAck_eq {pick : Option String}
    (h : s.dispatchRelayAck relayAddr pick = some t) :
    (pick = none ∧ s.pending.keys = [] ∧ t = s) ∨
      ∃ k requester, pick = some k ∧ s.pending.lookup k = some requester ∧
        t = { s with pending := s.pending.erase k }.send requester (.relayResponse relayAddr) := by
  unfold dispatchRelayAck at h
  cases pick with
  | none =>
    simp only at h
    split_ifs at h with hempty
    exact .inl ⟨rfl, hempty, (Option.some.inj h).symm⟩
  | some k =>
    simp only at h
    split at h
    · simp at h
    · next requester hk => exact .inr ⟨k, requester, rfl, hk, (Option.some.inj h).symm⟩

theorem dispatchRelayAck_frame {pick : Option String}
    (h : s.dispatchRelayAck relayAddr pick = some t) :
    t.registry = s.registry ∧ t.ws = s.ws ∧ t.tcp = s.tcp ∧ t.accepted = s.accepted := by
  rcases dispatchRelayAck_eq h with ⟨-, -, rfl⟩ | ⟨k, requester, -, -, rfl⟩
    <;> exact ⟨rfl, rfl, rfl, rfl⟩

/-- A datagram touches the registry and nothing else. -/
theorem udp_frame (s : Server) (m : Option Incoming) (addr : SocketAddr) (ok : Bool) :
    (s.udp m addr ok).pending = s.pending ∧ (s.udp m addr ok).outbox = s.outbox ∧
    (s.udp m addr ok).ws = s.ws ∧
      (s.udp m addr ok).tcp = s.tcp ∧ (s.udp m addr ok).accepted = s.accepted := by
  rcases m with _ | (_ | _ | _ | _ | _) <;> simp [udp, sendUdp_eq, upsert]

theorem tcpPunch_tcp (ok : Bool) (stage : PunchStage) :
    (s.tcpPunch relayAddr c ok stage).tcp =
      Function.update s.tcp c
        (some ((s.dispatchPunch relayAddr c ok stage).2.elim .waiting .punching)) := by
  simp [Server.tcpPunch, setTcp]

theorem wsPunch_ws (conn : WsConn) (ok : Bool) (stage : PunchStage) :
    (s.wsPunch relayAddr c conn ok stage).ws = Function.update s.ws c (some { conn with
      phase := (s.dispatchPunch relayAddr c ok stage).2.elim .reading .punching }) := by
  simp [Server.wsPunch, setWs]

theorem wsCleanup_eq (s : Server) (c : ConnId) (conn : WsConn) :
    s.wsCleanup c conn = { s.setWs c (some { conn with phase := .finishing }) with
      registry := conn.myId.elim s.registry fun id => s.registry.removeIfWs id c } := by
  unfold Server.wsCleanup
  cases conn.myId <;> rfl

end Dispatch

/-! ## The registry -/

section Steps

variable {s s' : Server} {a : Action} {c : ConnId}

/-- Only the upserts and the disconnect cleanups write the registry. -/
theorem registry_of_step (h : (machine relayAddr).step s a = some s') (ha : ∀ c, a ≠ .wsCleanup c) :
    s'.registry = a.registers.elim s.registry fun r => s.registry.upsert r.1 r.2 := by
  cases effect_of_step h with
  | @udp m addr ok =>
    rcases m with - | (- | - | - | - | -) <;> simp [udp, sendUdp_eq, upsert, Action.registers]
  | tcpAccept => rfl
  | tcpRequest => rfl
  | tcpAck hp hack => exact (dispatchRelayAck_frame hack).1
  | @tcpIgnores c m => rfl
  | tcpPunch => exact dispatchPunch_registry ..
  | tcpForward => rfl
  | wsAccept => rfl
  | wsRegisters hconn hp hitem => rw [hitem]; rfl
  | wsAck hconn hp hack => exact (dispatchRelayAck_frame hack).1
  | wsIgnores hconn hp hitem => rw [hitem]; rfl
  | wsTurns hconn hp hitem => rw [hitem]; rfl
  | wsReply => rfl
  | wsPunch => exact dispatchPunch_registry ..
  | @wsCleanup c => exact absurd rfl (ha c)
  | wsFinish => rfl
  | wsWrite => rfl

theorem registry_of_cleanup (h : (machine relayAddr).step s (.wsCleanup c) = some s') :
    ∃ conn, s.ws c = some conn ∧
      s'.registry = conn.myId.elim s.registry fun id => s.registry.removeIfWs id c := by
  cases effect_of_step h with
  | wsCleanup hconn =>
    rw [wsCleanup_eq]
    exact ⟨_, hconn, rfl⟩

/-! ## The connections -/

theorem accepted_of_step (h : (machine relayAddr).step s a = some s') :
    s'.accepted = s.accepted + if a = .wsAccept ∨ a = .tcpAccept then 1 else 0 := by
  cases effect_of_step h with
  | udp => exact (udp_frame s _ _ _).2.2.2.2
  | tcpAck hp hack => simp [tcpReturn, setTcp, (dispatchRelayAck_frame hack).2.2.2]
  | wsAck hconn hp hack => simp [(dispatchRelayAck_frame hack).2.2.2]
  | tcpPunch => simp [Server.tcpPunch, setTcp]
  | wsPunch => simp [Server.wsPunch, setWs]
  | wsCleanup =>
    rw [wsCleanup_eq]
    rfl
  | _ => rfl

/-- A number that was given to a connection is not given to another one. -/
theorem accepted_le (h : (machine relayAddr).step s a = some s') : s.accepted ≤ s'.accepted := by
  rw [accepted_of_step h]
  exact Nat.le_add_right _ _

/-- What a step makes of one WS connection. -/
inductive WsMove (s : Server) (a : Action) (s' : Server) (c : ConnId) : Prop
  | kept (h' : s'.ws c = s.ws c) (ha : a ≠ .wsCleanup c)
  | accepted (ha : a = .wsAccept) (hc : c = s.accepted)
      (h' : s'.ws c = some { phase := .reading, myId := none })
  | moved {conn conn' : WsConn} (h : s.ws c = some conn) (h' : s'.ws c = some conn')
      (hp : conn.phase ≠ .finishing) (hp' : conn'.phase = .finishing ↔ a = .wsCleanup c)
      (hreply : ∀ m, conn'.phase = .replying m → m.isRelayResponse = false)
  | finished {conn : WsConn} (h : s.ws c = some conn) (hp : conn.phase = .finishing)
    (h' : s'.ws c = none) (ha : a = .wsFinish c)

/-- A handler that is set to a new phase, and the others. -/
theorem WsMove.set {conn conn' : WsConn} {d : ConnId} (h : s.ws d = some conn)
    (hp : conn.phase ≠ .finishing)
    (hws : s'.ws = Function.update s.ws d (some conn'))
    (hp' : conn'.phase = .finishing ↔ a = .wsCleanup d)
    (ha : ∀ c, a = .wsCleanup c → c = d)
    (hreply : ∀ m, conn'.phase = .replying m → m.isRelayResponse = false) : WsMove s a s' c := by
  by_cases hc : c = d
  · subst hc
    exact .moved h (by rw [hws, Function.update_self]) hp hp' hreply
  · exact .kept (by rw [hws, Function.update_of_ne hc]) fun hclean => hc (ha c hclean)

theorem ws_of_step (h : (machine relayAddr).step s a = some s') (c : ConnId) : WsMove s a s' c := by
  cases effect_of_step h with
  | udp => exact .kept (congrFun (udp_frame s _ _ _).2.2.1 c) (by simp)
  | tcpAccept => exact .kept rfl (by simp)
  | tcpRequest => exact .kept rfl (by simp)
  | tcpAck hp hack => exact .kept (congrFun (dispatchRelayAck_frame hack).2.1 c) (by simp)
  | tcpIgnores => exact .kept rfl (by simp)
  | tcpPunch => exact .kept (congrFun (dispatchPunch_ws ..) c) (by simp)
  | tcpForward => exact .kept rfl (by simp)
  | wsAccept =>
    by_cases hc : c = s.accepted
    · subst hc
      exact .accepted rfl rfl (Function.update_self ..)
    · exact .kept (Function.update_of_ne hc ..) (by simp)
  | wsRegisters hconn hp hitem hm =>
    exact .set hconn (by simp [hp]) rfl (by simp) (by simp) (by rintro _ ⟨⟩; exact hm)
  | wsAck hconn hp hack => exact .kept (congrFun (dispatchRelayAck_frame hack).2.1 c) (by simp)
  | wsIgnores => exact .kept rfl (by simp)
  | wsTurns hconn hp hitem hack hphase =>
    refine .set hconn (by simp [hp]) rfl ?_ (by simp) ?_
    · rcases hphase with rfl | ⟨id, rfl⟩ | rfl <;> simp
    · rcases hphase with rfl | ⟨id, rfl⟩ | rfl
      · rintro _ ⟨⟩
        rfl
      · rintro _ ⟨⟩
      · rintro _ ⟨⟩
  | wsReply hconn hp => exact .set hconn (by simp [hp]) rfl (by simp) (by simp) (by rintro _ ⟨⟩)
  | @wsPunch d conn ok stage hconn hp =>
    refine .set hconn (by simp [hp]) (wsPunch_ws conn ok stage) ?_ (by simp) ?_ <;>
      cases (s.dispatchPunch relayAddr d ok stage).2 <;> simp
  | wsCleanup hconn hp =>
    rw [wsCleanup_eq]
    exact .set hconn (by simp [hp]) rfl (by simp) (by simp) (by rintro _ ⟨⟩)
  | @wsFinish d conn hconn hp =>
    by_cases hc : c = d
    · subst hc
      exact .finished hconn hp (Function.update_self ..) rfl
    · exact .kept (Function.update_of_ne hc ..) (by simp)
  | wsWrite => exact .kept rfl (by simp)

/-- What a step makes of one TCP connection. -/
inductive TcpMove (s : Server) (a : Action) (s' : Server) (c : ConnId) : Prop
  | kept (h' : s'.tcp c = s.tcp c)
  | accepted (ha : a = .tcpAccept) (hc : c = s.accepted) (h' : s'.tcp c = some .first)
  | requested {id : String} (h : s.tcp c = some .first)
    (h' : s'.tcp c = some (.punching (.lookup id)))
  /-- Its `dispatch_punch` call comes to the next stage, or returns. -/
  | punched {stage : PunchStage} {next : Option PunchStage} (h : s.tcp c = some (.punching stage))
      {ok : Bool} (ha : a = .tcpPunch c ok) (h' : s'.tcp c = some (next.elim .waiting .punching))
  | returned {phase : TcpPhase} (h : s.tcp c = some phase)
    (ha : a = .tcpForward c ∨ ∃ m, a = .tcpFirst c m)
      (h' : s'.tcp c = none)

theorem tcpMove_of_step (h : (machine relayAddr).step s a = some s') (c : ConnId) :
    TcpMove s a s' c := by
  have hset : ∀ {d phase'}, s'.tcp = Function.update s.tcp d phase' →
      (c = d → s'.tcp d = phase' → TcpMove s a s' d) → TcpMove s a s' c := by
    intro d phase' htcp hmove
    by_cases hc : c = d
    · subst hc
      exact hmove rfl (by rw [htcp, Function.update_self])
    · exact .kept (by rw [htcp, Function.update_of_ne hc])
  cases effect_of_step h with
  | udp => exact .kept (congrFun (udp_frame s _ _ _).2.2.2.1 c)
  | tcpAccept => exact hset rfl fun _ h' => .accepted rfl rfl h'
  | tcpRequest hp => exact hset rfl fun _ h' => .requested hp h'
  | @tcpAck d pick t hp hack =>
    have htcp : (t.tcpReturn d).tcp = Function.update s.tcp d none := by
      simp [tcpReturn, setTcp, (dispatchRelayAck_frame hack).2.2.1]
    exact hset htcp fun _ h' => .returned hp (.inr ⟨_, rfl⟩) h'
  | tcpIgnores hp => exact hset rfl fun _ h' => .returned hp (.inr ⟨_, rfl⟩) h'
  | tcpPunch hp => exact hset (tcpPunch_tcp ..) fun _ h' => .punched hp rfl h'
  | tcpForward hp => exact hset rfl fun _ h' => .returned hp (.inl rfl) h'
  | wsAck hconn hp hack => exact .kept (congrFun (dispatchRelayAck_frame hack).2.2.1 c)
  | wsPunch => exact .kept (congrFun (dispatchPunch_tcp ..) c)
  | wsCleanup =>
    rw [wsCleanup_eq]
    exact .kept rfl
  | _ => exact .kept rfl

/-- A step leaves a TCP connection alone, opens it, or finds it open. -/
theorem tcp_of_step (h : (machine relayAddr).step s a = some s') (c : ConnId) :
    s'.tcp c = s.tcp c ∨ (a = .tcpAccept ∧ c = s.accepted) ∨ ∃ phase, s.tcp c = some phase := by
  cases tcpMove_of_step h c with
  | kept h' => exact .inl h'
  | accepted ha hc => exact .inr (.inl ⟨ha, hc⟩)
  | requested h => exact .inr (.inr ⟨_, h⟩)
  | punched h => exact .inr (.inr ⟨_, h⟩)
  | returned h => exact .inr (.inr ⟨_, h⟩)

/-- A number given to a WS connection, or to a TCP connection that is closed, is no open
    TCP connection later. -/
theorem tcp_none_of_step (h : (machine relayAddr).step s a = some s') (hc : c < s.accepted)
    (hnone : s.tcp c = none) : s'.tcp c = none := by
  rcases tcp_of_step h c with h' | ⟨-, rfl⟩ | ⟨phase, hsome⟩
  · rw [h', hnone]
  · exact absurd hc (Nat.lt_irrefl _)
  · simp [hnone] at hsome

/-- Connections are numbered in the order they are accepted, a number is used for one
    transport only, and handlers reply to registrations. -/
structure WellFormed (s : Server) : Prop where
  ws_lt : ∀ c conn, s.ws c = some conn → c < s.accepted
  tcp_lt : ∀ c phase, s.tcp c = some phase → c < s.accepted
  apart : ∀ c, s.ws c = none ∨ s.tcp c = none
  replies : ∀ c conn m, s.ws c = some conn → conn.phase = .replying m → m.isRelayResponse = false

end Steps

variable (relayAddr) in
theorem wellFormed_preserved : (machine relayAddr).Preserves WellFormed := by
  intro s a s' hs hstep
  have hle := accepted_le hstep
  have hnew : a = .wsAccept ∨ a = .tcpAccept → s.accepted < s'.accepted := by
    intro ha
    rw [accepted_of_step hstep, if_pos ha]
    exact Nat.lt_succ_self _
  constructor
  case ws_lt =>
    intro c conn' hc
    cases ws_of_step hstep c with
    | kept h' => exact Nat.lt_of_lt_of_le (hs.ws_lt c conn' (h'.symm.trans hc)) hle
    | accepted ha hc' => exact hc' ▸ hnew (.inl ha)
    | @moved conn _ h => exact Nat.lt_of_lt_of_le (hs.ws_lt c conn h) hle
    | finished h hp h' => simp [h'] at hc
  case tcp_lt =>
    intro c phase' hc
    rcases tcp_of_step hstep c with h' | ⟨ha, hc'⟩ | ⟨phase, h⟩
    · exact Nat.lt_of_lt_of_le (hs.tcp_lt c phase' (h'.symm.trans hc)) hle
    · exact hc' ▸ hnew (.inr ha)
    · exact Nat.lt_of_lt_of_le (hs.tcp_lt c phase h) hle
  case apart =>
    intro c
    -- a number that is free stays free for the transport it is not given to
    have hws : a ≠ .wsAccept ∨ c ≠ s.accepted → s.ws c = none → s'.ws c = none := by
      intro hother hnone
      cases ws_of_step hstep c with
      | kept h' => rw [h', hnone]
      | accepted ha hc' => exact absurd hc' (hother.resolve_left (absurd ha))
      | moved h => simp [hnone] at h
      | finished h => simp [hnone] at h
    have htcp : a ≠ .tcpAccept ∨ c ≠ s.accepted → s.tcp c = none → s'.tcp c = none := by
      intro hother hnone
      rcases tcp_of_step hstep c with h' | ⟨ha, hc'⟩ | ⟨phase, h⟩
      · rw [h', hnone]
      · exact absurd hc' (hother.resolve_left (absurd ha))
      · simp [hnone] at h
    by_cases hc : c = s.accepted
    · -- a number not given to anyone yet
      have hnone : s.ws c = none ∧ s.tcp c = none := by
        constructor
        · by_contra hsome
          obtain ⟨conn, hconn⟩ := Option.ne_none_iff_exists'.mp hsome
          exact absurd hc (Nat.ne_of_lt (hs.ws_lt c conn hconn))
        · by_contra hsome
          obtain ⟨phase, hphase⟩ := Option.ne_none_iff_exists'.mp hsome
          exact absurd hc (Nat.ne_of_lt (hs.tcp_lt c phase hphase))
      by_cases ha : a = .wsAccept
      · exact .inr (htcp (.inl (by simp [ha])) hnone.2)
      · exact .inl (hws (.inl ha) hnone.1)
    · exact (hs.apart c).imp (hws (.inr hc)) (htcp (.inr hc))
  case replies =>
    intro c conn' m hc hphase
    cases ws_of_step hstep c with
    | kept h' => exact hs.replies c conn' m (h'.symm.trans hc) hphase
    | accepted ha hc' h' =>
      obtain rfl := Option.some.inj (h'.symm.trans hc)
      simp at hphase
    | moved h h' hp hp' hreply =>
      obtain rfl := Option.some.inj (h'.symm.trans hc)
      exact hreply m hphase
    | finished h hp h' => simp [h'] at hc

theorem wellFormed_init : WellFormed (machine relayAddr).init :=
  ⟨fun _ _ h => by simp [machine, init] at h, fun _ _ h => by simp [machine, init] at h,
    fun _ => .inl rfl,
    fun _ _ _ h => by simp [machine, init] at h⟩

variable (relayAddr) in
theorem wellFormed_reachable {s : Server} (hs : (machine relayAddr).Reachable s) : WellFormed s :=
  (wellFormed_preserved relayAddr).reachable _ wellFormed_init hs

end Server

end XyzenRelay.Rendezvous
