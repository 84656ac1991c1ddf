-- SUMMARY: What a connection's handler still has to do for the message it has read, and what a step does to that.
import XyzenRelay.Rendezvous.Outputs

/-!
# Duties

Between two messages a handler has nothing to do. A registration leaves it a response to
push, and a punch request the accesses of `dispatch_punch`. What a step makes of the
duty of one handler is the same for both transports.
-/

namespace XyzenRelay.Rendezvous

inductive Duty where
  | free
  /-- The response to a registration is still to be pushed. -/
  | reply (m : Outgoing)
  | punch (stage : PunchStage)
  deriving DecidableEq, Repr

def WsPhase.duty : WsPhase → Duty
  | .replying m => .reply m
  | .punching stage => .punch stage
  | _ => .free

def TcpPhase.duty : TcpPhase → Duty
  | .punching stage => .punch stage
  | _ => .free

namespace Action

/-- What is due for a registration over UDP, if the socket takes it, or over WS. -/
def due : Action → Option Output
  | .udp (some (.registerPeer _)) addr ok =>
    Output.sent { dest := .udp addr, message := .registerPeerResponse false } ok
  | .udp (some (.registerPk _)) addr ok =>
    Output.sent { dest := .udp addr, message := .registerPkResponse 0 0 } ok
  | .wsReceive c (.message (.registerPeer _)) =>
    some { dest := .conn c, message := .registerPeerResponse false }
  | .wsReceive c (.message (.registerPk _)) =>
    some { dest := .conn c, message := .registerPkResponse 0 0 }
  | _ => none

/-- A punch request and the connection it comes from. -/
def punches : Action → Option (ConnId × String)
  | .tcpFirst c (some (.punchHoleRequest id)) => some (c, id)
  | .wsReceive c (.message (.punchHoleRequest id)) => some (c, id)
  | _ => none

/-- The handler of the connection makes the next access its duty asks for. -/
def Serves (a : Action) (c : ConnId) : Prop :=
  a = .wsReply c ∨ ∃ ok, a = .tcpPunch c ok ∨ a = .wsPunch c ok

/-- The connection whose handler takes the step. -/
def handler : Action → Option ConnId
  | .tcpFirst c _ | .tcpPunch c _ | .tcpForward c | .wsReceive c _ | .wsReply c | .wsPunch c _
  | .wsCleanup c | .wsFinish c => some c
  | .udp _ _ _ | .tcpAccept | .wsAccept | .wsWrite _ _ => none

/-- The step neither gives the handler a duty nor works on it. -/
structure Spares (a : Action) (c : ConnId) : Prop where
  due : ∀ m, a.due ≠ some { dest := .conn c, message := m }
  punches : ∀ id, a.punches ≠ some (c, id)
  serves : ¬ a.Serves c

theorem handler_of_due {a : Action} {c : ConnId} {m : Outgoing}
    (h : a.due = some { dest := .conn c, message := m }) : a.handler = some c := by
  unfold due at h
  split at h <;> simp_all [handler, Output.sent]

theorem handler_of_punches {a : Action} {c : ConnId} {id : String}
    (h : a.punches = some (c, id)) : a.handler = some c := by
  unfold punches at h
  split at h <;> simp_all [handler]

theorem Serves.handler {a : Action} {c : ConnId} (h : a.Serves c) : a.handler = some c := by
  rcases h with rfl | ⟨ok, rfl | rfl⟩ <;> rfl

/-- The other handlers are spared. -/
theorem spares_of_handler {a : Action} {c : ConnId} (h : a.handler ≠ some c) : a.Spares c :=
  ⟨fun _ hdue => h (handler_of_due hdue), fun _ hpunch => h (handler_of_punches hpunch),
    fun hserves => h hserves.handler⟩

end Action

namespace Server

def duty (s : Server) (c : ConnId) : Duty :=
  match s.ws c with
  | some conn => conn.phase.duty
  | none => (s.tcp c).elim .free TcpPhase.duty

variable {relayAddr : String} {s s' : Server} {a : Action} {c : ConnId}

theorem duty_ws {conn : WsConn} (h : s.ws c = some conn) : s.duty c = conn.phase.duty := by
  simp [duty, h]

theorem duty_tcp {phase : TcpPhase} (hs : WellFormed s) (h : s.tcp c = some phase) :
    s.duty c = phase.duty := by
  have hws : s.ws c = none := (hs.apart c).resolve_right (by simp [h])
  simp [duty, hws, h]

theorem duty_congr (hws : s'.ws c = s.ws c) (htcp : s'.tcp c = s.tcp c) : s'.duty c = s.duty c := by
  simp [duty, hws, htcp]

/-- A number that no connection has yet. -/
theorem duty_unused (hs : WellFormed s) (h : s.accepted ≤ c) :
    s.ws c = none ∧ s.tcp c = none := by
  constructor
  · cases hws : s.ws c with
    | none => rfl
    | some conn => exact absurd (hs.ws_lt c conn hws) (Nat.not_lt.mpr h)
  · cases htcp : s.tcp c with
    | none => rfl
    | some phase => exact absurd (hs.tcp_lt c phase htcp) (Nat.not_lt.mpr h)

/-- What a step makes of the duty of one handler. -/
inductive DutyMove (relayAddr : String) (s : Server) (a : Action) (s' : Server) (c : ConnId) : Prop
  | kept (h' : s'.duty c = s.duty c) (ha : a.Spares c)
  | registered {m : Outgoing} (h : s.duty c = .free)
    (ha : a.due = some { dest := .conn c, message := m }) (h' : s'.duty c = .reply m)
  | requested {id : String} (h : s.duty c = .free) (ha : a.punches = some (c, id))
    (h' : s'.duty c = .punch (.lookup id))
  | replied {m : Outgoing} (h : s.duty c = .reply m) (ha : a = .wsReply c) (h' : s'.duty c = .free)
  /-- A `dispatch_punch` call comes to the next stage, or returns. -/
  | advanced {ok : Bool} {stage : PunchStage} (h : s.duty c = .punch stage)
    (ha : a = .tcpPunch c ok ∨ a = .wsPunch c ok)
    (h' : s'.duty c = (s.dispatchPunch relayAddr c ok stage).2.elim .free .punch)

/-- A handler is set to a new phase, or it is another one. -/
theorem DutyMove.set_ws {d : ConnId} {conn : WsConn}
    (hws : s'.ws = Function.update s.ws d (some conn))
    (htcp : s'.tcp = s.tcp) (hd : a.handler = some d)
    (hmove : s'.duty d = conn.phase.duty → DutyMove relayAddr s a s' d) :
    DutyMove relayAddr s a s' c := by
  by_cases hc : c = d
  · subst hc
    exact hmove (duty_ws (by rw [hws, Function.update_self]))
  · refine .kept (duty_congr (by rw [hws, Function.update_of_ne hc]) (by rw [htcp])) ?_
    exact Action.spares_of_handler (by simpa [hd] using Ne.symm hc)

theorem DutyMove.set_tcp (hs : WellFormed s) {d : ConnId} {phase : TcpPhase}
    {phase' : Option TcpPhase}
    (h : s.tcp d = some phase) (hws : s'.ws = s.ws) (htcp : s'.tcp = Function.update s.tcp d phase')
    (hd : a.handler = some d)
    (hmove : s'.duty d = phase'.elim .free TcpPhase.duty → DutyMove relayAddr s a s' d) :
    DutyMove relayAddr s a s' c := by
  by_cases hc : c = d
  · subst hc
    have hnone : s.ws c = none := (hs.apart c).resolve_right (by simp [h])
    exact hmove (by simp [duty, hws, hnone, htcp])
  · refine .kept (duty_congr (by rw [hws]) (by rw [htcp, Function.update_of_ne hc])) ?_
    exact Action.spares_of_handler (by simpa [hd] using Ne.symm hc)

/-- A handler with nothing to do that goes on having nothing to do. -/
theorem DutyMove.idle (h : s.duty c = .free) (h' : s'.duty c = .free) (hdue : a.due = none)
    (hpunches : a.punches = none) (hserves : ¬ a.Serves c) : DutyMove relayAddr s a s' c :=
  .kept (h'.trans h.symm) ⟨by simp [hdue], by simp [hpunches], hserves⟩

/-- The first frame of a TCP connection. -/
theorem dutyMove_of_tcpFirst (hs : WellFormed s) {d : ConnId} {m : Option Incoming}
    (hp : s.tcp d = some .first) (h : s.tcpFirst relayAddr d m = some s') :
    DutyMove relayAddr s (.tcpFirst d m) s' c := by
  have hserves : ¬ (Action.tcpFirst d m).Serves d := by simp [Action.Serves]
  unfold tcpFirst at h
  split at h
  · obtain rfl := Option.some.inj h
    exact .set_tcp hs hp rfl rfl rfl fun h' => .requested (duty_tcp hs hp) rfl h'
  · obtain ⟨t, hack, rfl⟩ := Option.map_eq_some_iff.mp h
    have htcp : (t.tcpReturn d).tcp = Function.update s.tcp d none := by
      simp [tcpReturn, setTcp, (dispatchRelayAck_frame hack).2.2.1]
    exact .set_tcp hs hp (dispatchRelayAck_frame hack).2.1 htcp rfl fun h' =>
      .idle (duty_tcp hs hp) h' rfl rfl hserves
  · next hrequest hack =>
    obtain rfl := Option.some.inj h
    have hpunches : (Action.tcpFirst d m).punches = none := by
      unfold Action.punches
      split <;> simp_all
    exact .set_tcp hs hp rfl rfl rfl fun h' => .idle (duty_tcp hs hp) h' rfl hpunches hserves

/-- A message or the end of a WS connection. -/
theorem dutyMove_of_wsReceive {d : ConnId} {conn : WsConn} {item : WsItem}
    (hconn : s.ws d = some conn) (hp : conn.phase = .reading)
    (h : s.wsReceive relayAddr d conn item = some s') :
    DutyMove relayAddr s (.wsReceive d item) s' c := by
  have hfree : s.duty d = .free := by
    rw [duty_ws hconn, hp]
    rfl
  have hserves : ¬ (Action.wsReceive d item).Serves d := by simp [Action.Serves]
  have hsame : s'.ws = s.ws → s'.tcp = s.tcp → (Action.wsReceive d item).due = none →
      (Action.wsReceive d item).punches = none →
      DutyMove relayAddr s (.wsReceive d item) s' c := by
    intro hws htcp hdue hpunches
    refine .kept (duty_congr (by rw [hws]) (by rw [htcp])) ⟨by simp [hdue], by simp [hpunches], ?_⟩
    simp [Action.Serves]
  unfold wsReceive at h
  split at h
  · obtain rfl := Option.some.inj h
    exact .set_ws rfl rfl rfl fun h' => .registered hfree rfl h'
  · split at h <;>
    · obtain rfl := Option.some.inj h
      exact .set_ws rfl rfl rfl fun h' => .registered hfree rfl h'
  · obtain rfl := Option.some.inj h
    exact .set_ws rfl rfl rfl fun h' => .requested hfree rfl h'
  · exact hsame (dispatchRelayAck_frame h).2.1 (dispatchRelayAck_frame h).2.2.1 rfl rfl
  · obtain rfl := Option.some.inj h
    exact hsame rfl rfl rfl rfl
  · obtain rfl := Option.some.inj h
    exact hsame rfl rfl rfl rfl
  · obtain rfl := Option.some.inj h
    exact hsame rfl rfl rfl rfl
  · obtain rfl := Option.some.inj h
    exact .set_ws rfl rfl rfl fun h' => .idle hfree h' rfl rfl hserves

theorem dutyMove_of_step (hs : WellFormed s) (h : (machine relayAddr).step s a = some s')
    (c : ConnId) : DutyMove relayAddr s a s' c := by
  have hspare : ∀ {b : Action}, b.handler = none → b.Spares c := fun hb =>
    Action.spares_of_handler (by simp [hb])
  cases effect_of_step h with
  | udp =>
    exact .kept (duty_congr (congrFun (udp_frame s _ _ _).2.2.1 c)
      (congrFun (udp_frame s _ _ _).2.2.2.1 c)) (hspare rfl)
  | tcpAccept =>
    by_cases hc : c = s.accepted
    · subst hc
      obtain ⟨hws, htcp⟩ := duty_unused hs (Nat.le_refl s.accepted)
      exact .kept (by simp [duty, setTcp, hws, htcp, TcpPhase.duty]) (hspare rfl)
    · exact .kept (duty_congr rfl (Function.update_of_ne hc ..)) (hspare rfl)
  | tcpRequest hp => exact dutyMove_of_tcpFirst hs hp (by simpa [machine, step, hp] using h)
  | tcpAck hp => exact dutyMove_of_tcpFirst hs hp (by simpa [machine, step, hp] using h)
  | tcpIgnores hp => exact dutyMove_of_tcpFirst hs hp (by simpa [machine, step, hp] using h)
  | @tcpPunch d ok stage hp =>
    refine .set_tcp hs hp (dispatchPunch_ws ..) (tcpPunch_tcp ..) rfl fun h' => ?_
    refine .advanced (duty_tcp hs hp) (.inl rfl) (h'.trans ?_)
    cases (s.dispatchPunch relayAddr d ok stage).2 <;> rfl
  | @tcpForward d hp =>
    refine .set_tcp hs hp rfl rfl rfl fun h' => ?_
    exact .idle (duty_tcp hs hp) h' rfl rfl (by simp [Action.Serves])
  | wsAccept =>
    by_cases hc : c = s.accepted
    · subst hc
      obtain ⟨hws, htcp⟩ := duty_unused hs (Nat.le_refl s.accepted)
      exact .kept (by simp [duty, setWs, hws, htcp, WsPhase.duty]) (hspare rfl)
    · exact .kept (duty_congr (Function.update_of_ne hc ..) rfl) (hspare rfl)
  | wsRegisters hconn hp =>
    exact dutyMove_of_wsReceive hconn hp (by simpa [machine, step, hconn, hp] using h)
  | wsAck hconn hp =>
    exact dutyMove_of_wsReceive hconn hp (by simpa [machine, step, hconn, hp] using h)
  | wsIgnores hconn hp =>
    exact dutyMove_of_wsReceive hconn hp (by simpa [machine, step, hconn, hp] using h)
  | wsTurns hconn hp =>
    exact dutyMove_of_wsReceive hconn hp (by simpa [machine, step, hconn, hp] using h)
  | @wsReply d conn m hconn hp =>
    refine .set_ws rfl rfl rfl fun h' => .replied (m := m) ?_ rfl h'
    rw [duty_ws hconn, hp]
    rfl
  | @wsPunch d conn ok stage hconn hp =>
    refine .set_ws (wsPunch_ws conn ok stage) (dispatchPunch_tcp ..) rfl fun h' => ?_
    refine .advanced (?_ : s.duty d = .punch stage) (.inr rfl) (h'.trans ?_)
    · rw [duty_ws hconn, hp]
      rfl
    · cases (s.dispatchPunch relayAddr d ok stage).2 <;> rfl
  | @wsCleanup d conn hconn hp =>
    rw [wsCleanup_eq]
    refine .set_ws rfl rfl rfl fun h' => .idle ?_ h' rfl rfl (by simp [Action.Serves])
    rw [duty_ws hconn, hp]
    rfl
  | @wsFinish d conn hconn hp =>
    by_cases hc : c = d
    · subst hc
      have htcp : s.tcp c = none := (hs.apart c).resolve_left (by simp [hconn])
      refine .idle ?_ (by simp [duty, setWs, htcp]) rfl rfl (by simp [Action.Serves])
      rw [duty_ws hconn, hp]
      rfl
    · refine .kept (duty_congr (Function.update_of_ne hc ..) rfl) ?_
      exact Action.spares_of_handler (by simpa [Action.handler] using Ne.symm hc)
  | wsWrite => exact .kept rfl (hspare rfl)

end Server

end XyzenRelay.Rendezvous
