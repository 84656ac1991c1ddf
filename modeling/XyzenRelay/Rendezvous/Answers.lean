-- SUMMARY: No requester gets more answers than it asked for, and an acknowledgement that comes after the insert answers it.
import XyzenRelay.Rendezvous.Requests

/-!
# Answers

Only a punch whose target is found can put its requester into `pending`, and only an
entry of `pending` can be answered, so the answers of a requester never outnumber its
requests. `dispatch_punch` makes the request visible to the target before its
requester is pending, so an acknowledgement can come too early.
-/

namespace XyzenRelay.Rendezvous

/-! ## Calls underway -/

/-- The call has found its target and not returned yet. -/
def PunchStage.underway : PunchStage → Nat
  | .lookup _ => 0
  | .push _ _ | .insert _ => 1

def WsPhase.underway : WsPhase → Nat
  | .punching stage => stage.underway
  | _ => 0

def TcpPhase.underway : TcpPhase → Nat
  | .punching stage => stage.underway
  | _ => 0

namespace Server

variable {relayAddr : String} {s s' : Server} {a : Action} {c : ConnId}

def wsUnderway (conn : Option WsConn) : Nat := conn.elim 0 fun conn => conn.phase.underway

def tcpUnderway (phase : Option TcpPhase) : Nat := phase.elim 0 TcpPhase.underway

/-- The `dispatch_punch` calls of a connection that have found their target. -/
def underway (s : Server) (c : ConnId) : Nat := wsUnderway (s.ws c) + tcpUnderway (s.tcp c)

/-- A connection that is given a phase without a call, and the others. -/
theorem update_idle {α : Type} {f : ConnId → α} {w : α → Nat} {d : ConnId} {x : α} (hx : w x = 0) :
    Function.update f d x c = f c ∨ w (Function.update f d x c) = 0 := by
  by_cases hc : c = d
  · subst hc
    rw [Function.update_self]
    exact .inr hx
  · exact .inl (Function.update_of_ne hc ..)

/-- Only a punch moves a call on. -/
theorem underway_le (hws : s'.ws c = s.ws c ∨ wsUnderway (s'.ws c) = 0)
    (htcp : s'.tcp c = s.tcp c ∨ tcpUnderway (s'.tcp c) = 0) : s'.underway c ≤ s.underway c := by
  unfold underway
  rcases hws with hws | hws <;> rcases htcp with htcp | htcp <;> rw [hws, htcp] <;> omega

/-- A call that has found its target returns with the requester pending. -/
theorem dispatchPunch_underway (relayAddr : String) (s : Server) (c : ConnId) (ok : Bool)
    (stage : PunchStage) :
    (s.dispatchPunch relayAddr c ok stage).2.elim 0 PunchStage.underway +
        [s.punchEvent c stage].countP (·.completes (· = c)) =
      stage.underway + [s.punchEvent c stage].countP (·.finds (· = c)) := by
  cases stage with
  | lookup id =>
    simp only [dispatchPunch, punchEvent]
    cases s.registry.get id <;>
      simp [PunchStage.underway, DispatchEvent.completes, DispatchEvent.finds]
  | push id reach =>
    cases reach <;>
      simp [dispatchPunch, punchEvent, PunchStage.underway, DispatchEvent.completes,
        DispatchEvent.finds]
  | insert id =>
    simp [dispatchPunch, punchEvent, PunchStage.underway, DispatchEvent.completes,
      DispatchEvent.finds]

theorem punchEvent_other {d : ConnId} (hc : c ≠ d) (stage : PunchStage) :
    (s.punchEvent d stage).completes (· = c) = false ∧ (s.punchEvent d stage).finds
    (· = c) = false := by
  have hd : ¬ d = c := fun h => hc h.symm
  cases stage with
  | lookup id =>
    simp only [punchEvent]
    split <;> simp [DispatchEvent.completes, DispatchEvent.finds, hd]
  | push id reach => simp [punchEvent, DispatchEvent.completes, DispatchEvent.finds]
  | insert id => simp [punchEvent, DispatchEvent.completes, DispatchEvent.finds, hd]

/-- A call is completed only after it has found its target. -/
theorem underway_step (h : (machine relayAddr).step s a = some s') (c : ConnId) :
    s'.underway c + (s.dispatchEvent a).toList.countP (·.completes (· = c)) ≤
      s.underway c + (s.dispatchEvent a).toList.countP (·.finds (· = c)) := by
  -- every step but a punch leaves its connection without a call underway
  suffices hquiet : (s'.underway c ≤ s.underway c ∧
    (s.dispatchEvent a).toList.countP (·.completes (· = c)) = 0) ∨
      s'.underway c + (s.dispatchEvent a).toList.countP (·.completes (· = c)) =
        s.underway c + (s.dispatchEvent a).toList.countP (·.finds (· = c)) by
    omega
  cases effect_of_step h with
  | udp =>
    obtain ⟨-, -, hws, htcp, -⟩ := udp_frame s _ _ _
    exact .inl ⟨underway_le (.inl (congrFun hws c)) (.inl (congrFun htcp c)), rfl⟩
  | tcpAccept => exact .inl ⟨underway_le (.inl rfl) (update_idle rfl), rfl⟩
  | tcpRequest => exact .inl ⟨underway_le (.inl rfl) (update_idle rfl), rfl⟩
  | @tcpAck d pick t hp hack =>
    obtain ⟨-, hws, htcp, -⟩ := dispatchRelayAck_frame hack
    refine .inl ⟨underway_le (.inl (congrFun hws c)) ?_, ?_⟩
    · rw [← htcp]
      exact update_idle rfl
    · simp [dispatchEvent, ackEvent_completes]
  | tcpIgnores hp hno =>
    rw [dispatchEvent_tcpFirst hno]
    exact .inl ⟨underway_le (.inl rfl) (update_idle rfl), rfl⟩
  | @tcpPunch d ok stage hp =>
    rw [dispatchEvent_tcpPunch hp]
    have hws : (s.tcpPunch relayAddr d ok stage).ws = s.ws := dispatchPunch_ws ..
    by_cases hc : c = d
    · subst hc
      have hafter : tcpUnderway ((s.tcpPunch relayAddr c ok stage).tcp c) =
          (s.dispatchPunch relayAddr c ok stage).2.elim 0 PunchStage.underway := by
        rw [tcpPunch_tcp, Function.update_self]
        cases (s.dispatchPunch relayAddr c ok stage).2 <;> rfl
      have hbefore : tcpUnderway (s.tcp c) = stage.underway := by rw [hp]; rfl
      have hcall := dispatchPunch_underway relayAddr s c ok stage
      refine .inr ?_
      unfold underway
      rw [hws, hafter, hbefore, Option.toList_some]
      omega
    · refine .inl ⟨underway_le (.inl (congrFun hws c)) (.inl ?_), ?_⟩
      · rw [tcpPunch_tcp, Function.update_of_ne hc]
      · simp [(punchEvent_other hc stage).1]
  | tcpForward => exact .inl ⟨underway_le (.inl rfl) (update_idle rfl), rfl⟩
  | wsAccept => exact .inl ⟨underway_le (update_idle rfl) (.inl rfl), rfl⟩
  | wsRegisters hconn hp hitem =>
    rw [dispatchEvent_wsReceive (by rintro pick rfl; simp [Action.registers] at hitem)]
    exact .inl ⟨underway_le (update_idle rfl) (.inl rfl), rfl⟩
  | wsAck hconn hp hack =>
    obtain ⟨-, hws, htcp, -⟩ := dispatchRelayAck_frame hack
    refine .inl ⟨underway_le (.inl (congrFun hws c)) (.inl (congrFun htcp c)), ?_⟩
    simp [dispatchEvent, ackEvent_completes]
  | wsIgnores hconn hp hitem hno =>
    rw [dispatchEvent_wsReceive hno]
    exact .inl ⟨Nat.le_refl _, rfl⟩
  | wsTurns hconn hp hitem hno hphase =>
    rw [dispatchEvent_wsReceive hno]
    refine .inl ⟨underway_le (update_idle ?_) (.inl rfl), rfl⟩
    rcases hphase with rfl | ⟨id, rfl⟩ | rfl <;> rfl
  | wsReply => exact .inl ⟨underway_le (update_idle rfl) (.inl rfl), rfl⟩
  | @wsPunch d conn ok stage hconn hp =>
    rw [dispatchEvent_wsPunch hconn hp]
    have htcp : (s.wsPunch relayAddr d conn ok stage).tcp = s.tcp := dispatchPunch_tcp ..
    by_cases hc : c = d
    · subst hc
      have hafter : wsUnderway ((s.wsPunch relayAddr c conn ok stage).ws c) =
          (s.dispatchPunch relayAddr c ok stage).2.elim 0 PunchStage.underway := by
        rw [wsPunch_ws, Function.update_self]
        cases (s.dispatchPunch relayAddr c ok stage).2 <;> rfl
      have hbefore : wsUnderway (s.ws c) = stage.underway := by
        rw [hconn]
        simp [wsUnderway, hp, WsPhase.underway]
      have hcall := dispatchPunch_underway relayAddr s c ok stage
      refine .inr ?_
      unfold underway
      rw [htcp, hafter, hbefore, Option.toList_some]
      omega
    · refine .inl ⟨underway_le (.inl ?_) (.inl (congrFun htcp c)), ?_⟩
      · rw [wsPunch_ws, Function.update_of_ne hc]
      · simp [(punchEvent_other hc stage).1]
  | wsCleanup =>
    rw [wsCleanup_eq]
    exact .inl ⟨underway_le (update_idle rfl) (.inl rfl), rfl⟩
  | wsFinish => exact .inl ⟨underway_le (update_idle rfl) (.inl rfl), rfl⟩
  | wsWrite => exact .inl ⟨Nat.le_refl _, rfl⟩

/-- An acknowledgement that takes an entry answers its requester or loses the request. -/
theorem answers_le (p : ConnId → Bool) :
    (s.dispatchEvent a).toList.countP (·.answers p) ≤
      (s.dispatchEvent a).toList.countP (·.delivers p) + s.lost a p := by
  unfold lost
  cases s.dispatchEvent a with
  | none => exact Nat.le_refl 0
  | some e =>
    cases e with
    | answered k c delivered => cases delivered
      <;> simp [DispatchEvent.answers, DispatchEvent.delivers]
    | _ => exact Nat.zero_le _

/-- What a requester has been sent, waits for or is underway with grows only when a
    punch of its finds the target. -/
theorem answers_step (h : (machine relayAddr).step s a = some s') (c : ConnId) :
    (s.dispatchEvent a).toList.countP (·.answers (· = c)) + s'.waiting (· = c) + s'.underway c ≤
      (s.dispatchEvent a).toList.countP (·.finds (· = c)) + s.waiting (· = c) + s.underway c := by
  have hcall := underway_step h c
  have hstep := waiting_step h (· = c)
  have hanswers := answers_le (s := s) (a := a) (· = c)
  omega

/-- No requester is sent more `RelayResponse`s than it punched registered targets,
    those it still waits for included. -/
theorem answers_le_finds {as : List Action} {t : Server}
    (hrun : (machine relayAddr).run (machine relayAddr).init as = some t) (c : ConnId) :
    (events relayAddr (machine relayAddr).init as).countP (·.answers (· = c)) + t.waiting (· = c) ≤
        (events relayAddr (machine relayAddr).init as).countP (·.finds (· = c)) ∧
      t.responses c ≤ (events relayAddr (machine relayAddr).init as).countP
        (·.answers (· = c)) := by
  constructor
  · have hbound :=
      (machine relayAddr).journal_invariant dispatchEvent (L := []) (s := (machine relayAddr).init)
      (J := fun L u => L.countP (·.answers (· = c)) + u.waiting (· = c) + u.underway c ≤
        L.countP (·.finds (· = c)))
      (fun L u a v hu hstep => by
        have hgrowth := answers_step hstep c
        simp only [List.countP_append]
        omega)
      (Nat.le_refl 0) hrun
    exact Nat.le_of_add_right_le hbound
  · rw [responses_of_run wellFormed_init hrun]
    refine Nat.le_trans (Nat.le_of_eq (Nat.zero_add _))
      (List.countP_mono_left fun e _ hdelivers => ?_)
    cases e <;> simp_all [DispatchEvent.delivers, DispatchEvent.answers]

/-- Connection 1 punches the id of connection 0, which acknowledges twice. -/
def repeatedAckRun : List Action :=
  [.wsAccept, .wsAccept, .wsReceive 0 (.message (.registerPeer "a")), .wsReply 0,
    .wsReceive 1 (.message (.punchHoleRequest "a")), .wsPunch 1 true, .wsPunch 1 true, .wsPunch 1 true,
    .wsReceive 0 (.message (.relayResponse (some "a"))),
      .wsReceive 0 (.message (.relayResponse none))]

theorem answers_le_finds_repeatedAck :
    (events "relay" (machine "relay").init repeatedAckRun).countP (·.answers (· = 1)) = 1 ∧
      (events "relay" (machine "relay").init repeatedAckRun).countP (·.answers (· = 1)) ≤
        (events "relay" (machine "relay").init repeatedAckRun).countP (·.finds (· = 1)) :=
  ⟨by decide +kernel, Nat.le_of_add_right_le
    (answers_le_finds ((machine "relay").run_getD repeatedAckRun (by decide +kernel)) 1).1⟩

/-! ## One request, one acknowledgement -/

/-- What an acknowledgement reports. -/
theorem ack_cases (h : (machine relayAddr).step s a = some s') {e : DispatchEvent}
    (he : s.dispatchEvent a = some e)
    (hack : e.isAck = true) :
    (e = .idle ∧ s.pending.keys = []) ∨
      ∃ k c, e = .answered k c (s.outbox c).receiving ∧ s.pending.lookup k = some c := by
  cases e with
  | idle => exact .inl ⟨rfl, pending_of_idle h he⟩
  | answered k c delivered =>
    obtain ⟨hk, rfl⟩ := lookup_of_answered he
    exact .inr ⟨k, c, rfl, hk⟩
  | _ => simp [DispatchEvent.isAck] at hack

variable (relayAddr) in
/-- A run with one punch of the target, by the requester, and one acknowledgement after
    the push, from a state in which nobody is pending. -/
structure Exchange (s : Server) (as : List Action) (requester : ConnId) (target : String)
    (t : Server) : Prop where
  reachable : (machine relayAddr).Reachable s
  nobody : s.pending.keys = []
  run : (machine relayAddr).run s as = some t
  order : ∃ ack : DispatchEvent, ack.isAck = true ∧
    (events relayAddr s as =
        [.found requester target, .pushed requester target, .inserted requester target, ack] ∨
      events relayAddr s as =
        [.found requester target, .pushed requester target, ack, .inserted requester target])

/-- The requester was sent exactly one `RelayResponse`, and the target has no entry. -/
def AnsweredOnce (s : Server) (requester : ConnId) (target : String) (t : Server) : Prop :=
  t.responses requester = s.responses requester + 1 ∧ target ∉ t.pending

variable (relayAddr) in
/-- When the acknowledgement is dispatched the requester is pending, and still there. -/
def AckInTime (s : Server) (as : List Action) (requester : ConnId) (target : String) : Prop :=
  ∀ bs a cs u e, as = bs ++ a :: cs → (machine relayAddr).run s bs = some u →
    u.dispatchEvent a = some e →
    e.isAck = true → u.pending.lookup target = some requester ∧
      (u.outbox requester).receiving = true

theorem lookup_single {k target : String} {c requester : ConnId}
    (h : ((∅ : Pending).insert target requester).lookup k = some c) :
    k = target ∧ c = requester := by
  by_cases hk : k = target
  · subst hk
    rw [AList.lookup_insert] at h
    exact ⟨rfl, (Option.some.inj h).symm⟩
  · rw [AList.lookup_insert_ne hk, AList.lookup_empty] at h
    simp at h

/-- The acknowledgement is the last event when the three before it are none. -/
theorem ack_last {x y z e e' : DispatchEvent} {L K : List DispatchEvent}
    (h : [x, y, z, e] = L ++ e' :: K)
    (hx : x.isAck = false) (hy : y.isAck = false) (hz : z.isAck = false) (he' : e'.isAck = true) :
    L = [x, y, z] ∧ e' = e := by
  rcases L with - | ⟨x', - | ⟨y', - | ⟨z', L⟩⟩⟩
  · simp_all
  · simp_all
  · simp_all
  · simp only [List.cons_append, List.cons.injEq] at h
    obtain ⟨rfl, rfl, rfl, h⟩ := h
    rcases L with - | ⟨w, L⟩
    · exact ⟨rfl, (List.cons.inj h).1.symm⟩
    · simp at h

section Orders

variable {t : Server} {as : List Action} {requester : ConnId} {target : String}
  {ack : DispatchEvent}

/-- After the insert the acknowledgement finds the requester and nobody else, so it is
    answered as long as it is there. -/
theorem answeredOnce_iff_of_inserted (hs : WellFormed s) (hempty : s.pending = ∅)
    (hrun : (machine relayAddr).run s as = some t) (hack : ack.isAck = true)
    (horder : events relayAddr s as =
      [.found requester target, .pushed requester target, .inserted requester target, ack]) :
    AnsweredOnce s requester target t ↔ AckInTime relayAddr s as requester target := by
  have hresponses := responses_of_run hs hrun requester
  have hpending := pending_of_run hrun
  rw [horder] at hresponses hpending
  have hfound : ∀ bs u, (machine relayAddr).run s bs = some u →
      events relayAddr s bs =
        [.found requester target, .pushed requester target, .inserted requester target] →
      u.pending = (∅ : Pending).insert target requester := by
    intro bs u hu hbs
    rw [pending_of_run hu, hbs, hempty]
    rfl
  obtain ⟨bs, a, cs, u, v, rfl, hu, hbs, he, hstep, -, -⟩ :=
    (machine relayAddr).journal_split dispatchEvent hrun
      (L := [.found requester target, .pushed requester target, .inserted requester target]) horder
  have hu' := hfound bs u hu hbs
  rcases ack_cases hstep he hack with ⟨-, hkeys⟩ | ⟨k, c, rfl, hk⟩
  · rw [hu', AList.keys_insert] at hkeys
    simp at hkeys
  · rw [hu'] at hk
    obtain ⟨rfl, rfl⟩ := lookup_single hk
    have hanswered : AnsweredOnce s c k t ↔ (u.outbox c).receiving = true := by
      unfold AnsweredOnce
      rw [hresponses, hpending, hempty]
      cases (u.outbox c).receiving <;> simp [DispatchEvent.delivers, DispatchEvent.apply]
    rw [hanswered]
    constructor
    · intro hreceiving bs' a' cs' u' e' hsplit hu'' he' hack'
      rw [hsplit] at hrun horder
      obtain ⟨v', -, hmiddle⟩ := (machine relayAddr).journal_middle dispatchEvent hrun hu'' he'
      obtain ⟨hbs', rfl⟩ := ack_last (horder.symm.trans hmiddle) rfl rfl rfl hack'
      refine ⟨by rw [hfound bs' u' hu'' hbs']; exact AList.lookup_insert _, ?_⟩
      rw [← (lookup_of_answered he').2]
      exact hreceiving
    · intro htime
      exact (htime bs a cs u _ rfl hu he hack).2

/-- Before the insert the acknowledgement finds nobody, and nobody is answered. -/
theorem not_answered_of_early (hs : WellFormed s) (hempty : s.pending = ∅)
    (hrun : (machine relayAddr).run s as = some t) (hack : ack.isAck = true)
    (horder : events relayAddr s as =
      [.found requester target, .pushed requester target, ack, .inserted requester target]) :
    ¬ AnsweredOnce s requester target t ∧ ¬ AckInTime relayAddr s as requester target := by
  have hresponses := responses_of_run hs hrun requester
  rw [horder] at hresponses
  obtain ⟨bs, a, cs, u, v, rfl, hu, hbs, he, hstep, -, -⟩ :=
    (machine relayAddr).journal_split dispatchEvent hrun
      (L := [.found requester target, .pushed requester target]) horder
  have hu' : u.pending = ∅ := by
    rw [pending_of_run hu, events, hbs, hempty]
    rfl
  have hidle : ack = .idle := by
    rcases ack_cases hstep he hack with ⟨hidle, -⟩ | ⟨k, c, -, hk⟩
    · exact hidle
    · rw [hu', AList.lookup_empty] at hk
      simp at hk
  subst hidle
  constructor
  · rintro ⟨hone, -⟩
    rw [hresponses] at hone
    simp [DispatchEvent.delivers] at hone
  · intro htime
    have hlookup := (htime bs a cs u _ rfl hu he hack).1
    rw [hu', AList.lookup_empty] at hlookup
    simp at hlookup

/-- The target's acknowledgement answers its requester exactly when it comes after the
    insert and before the requester is gone. -/
theorem answeredOnce_iff (h : Exchange relayAddr s as requester target t) :
    AnsweredOnce s requester target t ↔ AckInTime relayAddr s as requester target := by
  obtain ⟨hreach, hnobody, hrun, ack, hack, horder⟩ := h
  have hs := wellFormed_reachable relayAddr hreach
  have hempty : s.pending = ∅ := AList.ext (List.map_eq_nil_iff.mp hnobody)
  rcases horder with horder | horder
  · exact answeredOnce_iff_of_inserted hs hempty hrun hack horder
  · obtain ⟨hnot, hlate⟩ := not_answered_of_early hs hempty hrun hack horder
    exact iff_of_false hnot hlate

end Orders

/-- Connection 0 is registered, and connection 1 is about to punch it. -/
def onlineRun : List Action :=
  [.wsAccept, .wsAccept, .wsReceive 0 (.message (.registerPeer "a")), .wsReply 0, .wsWrite 0 true,
    .wsReceive 1 (.message (.punchHoleRequest "a"))]

def online : Server :=
  ((machine "relay").run (machine "relay").init onlineRun).getD (machine "relay").init

def inTimeRun : List Action :=
  [.wsPunch 1 true, .wsPunch 1 true, .wsWrite 0 true, .wsPunch 1 true,
    .wsReceive 0 (.message (.relayResponse (some "a")))]

/-- Connection 0 acknowledges between the push and the insert. -/
def overtakingRun : List Action :=
  [.wsPunch 1 true, .wsPunch 1 true, .wsWrite 0 true,
    .wsReceive 0 (.message (.relayResponse none)), .wsPunch 1 true]

theorem answeredOnce_iff_inTime :
    AnsweredOnce online 1 "a" (((machine "relay").run online inTimeRun).getD online) ↔
      AckInTime "relay" online inTimeRun 1 "a" :=
  answeredOnce_iff
    ⟨(machine "relay").reachable_getD onlineRun, by decide +kernel,
      (machine "relay").run_getD inTimeRun (by decide +kernel), .answered "a" 1 true, rfl,
        .inl (by decide +kernel)⟩

/-- The acknowledgement finds nobody, and the requester waits forever. -/
theorem acknowledgement_overtakes :
    ¬ ∀ relayAddr s as requester target t, Exchange relayAddr s as requester target t →
      AnsweredOnce s requester target t := by
  intro h
  have hanswered := (h "relay" online overtakingRun 1 "a" _
    ⟨(machine "relay").reachable_getD onlineRun, by decide +kernel,
      (machine "relay").run_getD overtakingRun (by decide +kernel), .idle, rfl,
        .inr (by decide +kernel)⟩).1
  revert hanswered
  decide +kernel

end Server

end XyzenRelay.Rendezvous
