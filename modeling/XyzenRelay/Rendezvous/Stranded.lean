-- SUMMARY: Whether a TCP handler that is blocked in recv can still be woken, over whole runs.
import XyzenRelay.Rendezvous.Disconnect
import XyzenRelay.Rendezvous.Registrations

/-!
# Blocked requesters

After its punch `handle_tcp` waits for one push. It keeps its own sender while it
waits, so the channel never closes under it: only an entry of `pending` can bring the
message. An offline target makes no entry, and the insert of a later requester of the
same target takes the entry away.
-/

namespace XyzenRelay.Rendezvous

namespace Server

variable {relayAddr : String} {s s' : Server} {a : Action} {c : ConnId}

/-- The handler of the connection holds a sender of its own outbox: `handle_tcp` until it
    returns, `handle_ws` until it drops `tx`. -/
def ownSender (s : Server) (c : ConnId) : Bool :=
  (s.tcp c).isSome || (s.ws c).any fun conn => conn.phase ≠ .finishing

/-- No sender of the outbox is left, and `rx.recv()` returns `None` once the queue is empty. -/
def SendersDropped (s : Server) (c : ConnId) : Prop :=
  s.ownSender c = false ∧ s.senderHeld c = false

/-- Every TCP handler blocked in `rx.recv()` has a message queued, waits in `pending`, or
    sees its channel closed. -/
def NoneStranded (s : Server) : Prop :=
  ∀ c, s.tcp c = some .waiting →
    (s.outbox c).queued ≠ [] ∨ (∃ k, s.pending.lookup k = some c) ∨ s.SendersDropped c

/-- The punch of a TCP requester finds its target, and no insert takes the key of one. -/
def KeepsBlocked (s : Server) (a : Action) : Prop :=
  match s.dispatchEvent a with
  | some (.missed c _) => s.tcp c = none
  | some (.inserted _ k) => ∀ e, s.pending.lookup k = some e → s.tcp e = none
  | _ => True

/-- A TCP handler never sees its channel closed. -/
theorem not_sendersDropped {phase : TcpPhase} (h : s.tcp c = some phase) :
    ¬ s.SendersDropped c := by
  simp [SendersDropped, ownSender, h]

/-! ## Nobody but a WS connection is pushed to -/

/-- The number was given to a WS connection, or to a TCP connection that is closed. -/
def NoTcp (s : Server) (c : ConnId) : Prop := c < s.accepted ∧ s.tcp c = none

theorem noTcp_step (h : (machine relayAddr).step s a = some s') (hs : s.NoTcp c) : s'.NoTcp c :=
  ⟨Nat.lt_of_lt_of_le hs.1 (accepted_le h), tcp_none_of_step h hs.1 hs.2⟩

theorem noTcp_of_ws (hs : WellFormed s) {conn : WsConn} (h : s.ws c = some conn) : s.NoTcp c :=
  ⟨hs.ws_lt c conn h, (hs.apart c).resolve_left (by simp [h])⟩

/-- A handler inside `dispatch_punch` was there before, has just begun, or has come from
    the stage before. -/
theorem punching_of_step (h : (machine relayAddr).step s a = some s') {d : ConnId}
    {stage : PunchStage}
    (hd : s'.Punching d stage) : s.Punching d stage ∨ (∃ id, stage = .lookup id) ∨
      ∃ ok before, s.Punching d before ∧ (s.dispatchPunch relayAddr d ok before).2 = some stage := by
  rcases hd with htcp | ⟨conn', hconn', hp'⟩
  · cases tcpMove_of_step h d with
    | kept h' => exact .inl (.inl (h'.symm.trans htcp))
    | accepted _ _ h' => simp [h'] at htcp
    | requested _ h' =>
      rw [h'] at htcp
      simp only [Option.some.injEq, TcpPhase.punching.injEq] at htcp
      exact .inr (.inl ⟨_, htcp.symm⟩)
    | @punched before next hbefore ok ha h' =>
      subst ha
      obtain rfl : s.tcpPunch relayAddr d ok before = s' := by simpa [machine, step, hbefore] using h
      rw [tcpPunch_tcp, Function.update_self] at htcp
      refine .inr (.inr ⟨ok, before, .inl hbefore, ?_⟩)
      cases hnext : (s.dispatchPunch relayAddr d ok before).2 with
      | none => simp [hnext] at htcp
      | some next => simpa [hnext] using htcp
    | returned _ _ h' => simp [h'] at htcp
  · have hkept : s'.ws d = s.ws d → s.Punching d stage :=
      fun hws => .inr ⟨conn', hws.symm.trans hconn', hp'⟩
    -- the handler that moves is `d`, or `d` is left alone
    have hset : ∀ {e conn}, s'.ws = Function.update s.ws e (some conn) →
        s.Punching d stage ∨ (d = e ∧ conn.phase = .punching stage) := by
      intro e conn hws
      by_cases hde : d = e
      · subst hde
        rw [hws, Function.update_self] at hconn'
        obtain rfl := Option.some.inj hconn'
        exact .inr ⟨rfl, hp'⟩
      · exact .inl (hkept (by rw [hws, Function.update_of_ne hde]))
    cases effect_of_step h with
    | udp => exact .inl (hkept (congrFun (udp_frame s _ _ _).2.2.1 d))
    | tcpAck hp hack => exact .inl (hkept (congrFun (dispatchRelayAck_frame hack).2.1 d))
    | tcpPunch => exact .inl (hkept (congrFun (dispatchPunch_ws ..) d))
    | wsAccept => exact (hset rfl).imp_right fun hphase => by simp at hphase
    | wsRegisters => exact (hset rfl).imp_right fun hphase => by simp at hphase
    | wsAck hconn hp hack => exact .inl (hkept (congrFun (dispatchRelayAck_frame hack).2.1 d))
    | @wsTurns e conn item phase hconn hp hitem hack hphase =>
      refine (hset rfl).imp_right fun hmoved => .inl ?_
      have hstage := hmoved.2
      rcases hphase with rfl | ⟨id, rfl⟩ | rfl
      · simp at hstage
      · exact ⟨id, by simpa using hstage.symm⟩
      · simp at hstage
    | wsReply => exact (hset rfl).imp_right fun hphase => by simp at hphase
    | @wsPunch e conn ok before hconn hp =>
      refine (hset (wsPunch_ws conn ok before)).imp_right fun hmoved => .inr ?_
      obtain ⟨rfl, hstage⟩ := hmoved
      refine ⟨ok, before, .inr ⟨conn, hconn, hp⟩, ?_⟩
      cases hnext : (s.dispatchPunch relayAddr d ok before).2 with
      | none => simp [hnext] at hstage
      | some next => simpa [hnext] using hstage
    | @wsCleanup e conn hconn hp =>
      rw [wsCleanup_eq] at hset
      exact (hset rfl).imp_right fun hphase => by simp at hphase
    | @wsFinish e conn hconn hp =>
      have hde : d ≠ e := by
        rintro rfl
        simp [setWs] at hconn'
      exact .inl (hkept (Function.update_of_ne hde ..))
    | _ => exact .inl (hkept rfl)

/-- Registered outboxes, and those about to be pushed to, belong to no open TCP connection. -/
structure RoutesToWs (s : Server) : Prop where
  registry : ∀ id c, s.registry.get id = some (.wsPush c) → s.NoTcp c
  pushing : ∀ d id c, s.Punching d (.push id (.wsPush c)) → s.NoTcp c

theorem registry_noTcp_step (h : (machine relayAddr).step s a = some s') (hwf : WellFormed s)
    (hs : ∀ id c, s.registry.get id = some (.wsPush c) → s.NoTcp c) {id : String}
    (hget : s'.registry.get id = some (.wsPush c)) : s.NoTcp c := by
  by_cases hclean : ∃ d, a = .wsCleanup d
  · obtain ⟨d, rfl⟩ := hclean
    exact hs id c (get_of_get_cleanup h hget)
  · rcases get_cases_of_step h (fun d hd => hclean ⟨d, hd⟩) hget with hbefore | hreg
    · exact hs id c hbefore
    · obtain ⟨conn, hconn, -⟩ := alive_of_registers h hreg
      exact noTcp_of_ws hwf hconn

theorem routesToWs_step (h : (machine relayAddr).step s a = some s') (hwf : WellFormed s)
    (hs : s.RoutesToWs) :
    s'.RoutesToWs := by
  refine ⟨fun id c hget => noTcp_step h (registry_noTcp_step h hwf hs.registry hget),
    fun d id c hpush => ?_⟩
  apply noTcp_step h
  rcases punching_of_step h hpush with hbefore | ⟨_, hlookup⟩ | ⟨_, before, hbefore, hnext⟩
  · exact hs.pushing d id c hbefore
  · simp at hlookup
  · -- the target was just looked up
    cases before with
    | lookup id' =>
      simp only [dispatchPunch] at hnext
      cases hget : s.registry.get id' with
      | none => simp [hget] at hnext
      | some reach =>
        simp only [hget, Option.some.injEq, PunchStage.push.injEq] at hnext
        exact hs.registry id' c (hnext.2 ▸ hget)
    | push id' reach => cases reach <;> simp [dispatchPunch] at hnext
    | insert id' => simp [dispatchPunch] at hnext

/-! ## Outboxes of TCP connections -/

theorem dispatchPunch_outbox {d : ConnId} {ok : Bool} {stage : PunchStage}
    (hpush : ∀ id, stage ≠ .push id (.wsPush c)) :
    (s.dispatchPunch relayAddr d ok stage).1.outbox c = s.outbox c := by
  cases stage with
  | lookup id =>
    simp only [dispatchPunch]
    split <;> rfl
  | push id reach =>
    cases reach with
    | udp addr => simp [dispatchPunch, sendUdp_eq]
    | wsPush tx =>
      have hne : c ≠ tx := fun heq => hpush id (by rw [heq])
      exact Function.update_of_ne hne ..
  | insert id => rfl

theorem dispatchRelayAck_outbox {t : Server} {pick : Option String}
    (h : s.dispatchRelayAck relayAddr pick = some t) :
    t.outbox c = s.outbox c ∨ ∃ k delivered, s.ackEvent pick = .answered k c delivered ∧
      t.outbox c = (s.outbox c).send (.relayResponse relayAddr) := by
  rcases dispatchRelayAck_eq h with ⟨-, -, rfl⟩ | ⟨k, requester, rfl, hk, rfl⟩
  · exact .inl rfl
  · by_cases hc : c = requester
    · subst hc
      refine .inr ⟨k, (s.outbox c).receiving, ?_, Function.update_self ..⟩
      simp [ackEvent, hk]
    · exact .inl (Function.update_of_ne hc ..)

/-- What a step makes of the outbox of a TCP connection: an acknowledgement answers it,
    its handler returns, or nothing. -/
theorem outbox_of_step (h : (machine relayAddr).step s a = some s') (hwf : WellFormed s)
    (hroutes : s.RoutesToWs)
    (hc : ¬ s.NoTcp c) :
    s'.outbox c = s.outbox c ∨
      (∃ k delivered, s.dispatchEvent a = some (.answered k c delivered) ∧
        s'.outbox c = (s.outbox c).send (.relayResponse relayAddr)) ∨
      ((∃ phase, s.tcp c = some phase) ∧ s'.tcp c = none) := by
  have hpush : ∀ d id, ¬ s.Punching d (.push id (.wsPush c)) :=
    fun d id hp => hc (hroutes.pushing d id c hp)
  -- another handler updates its own outbox
  have hother : ∀ {d ch}, c ≠ d → s'.outbox = Function.update s.outbox d ch →
      s'.outbox c = s.outbox c :=
    fun hcd hout => by rw [hout, Function.update_of_ne hcd]
  have hws' : ∀ {d conn}, s.ws d = some conn → c ≠ d := by
    rintro d conn hconn rfl
    exact hc (noTcp_of_ws hwf hconn)
  cases effect_of_step h with
  | udp => exact .inl (congrFun (udp_frame s _ _ _).2.1 c)
  | @tcpAck d pick t hp hack =>
    by_cases hcd : c = d
    · subst hcd
      exact .inr (.inr ⟨⟨_, hp⟩, Function.update_self ..⟩)
    · have hkept : (t.tcpReturn d).outbox c = t.outbox c := Function.update_of_ne hcd ..
      rw [hkept]
      rcases dispatchRelayAck_outbox (c := c) hack with hout | ⟨k, delivered, hevent, hout⟩
      · exact .inl hout
      · exact .inr (.inl ⟨k, delivered, congrArg some hevent, hout⟩)
  | @tcpIgnores d m hp hack =>
    by_cases hcd : c = d
    · subst hcd
      exact .inr (.inr ⟨⟨_, hp⟩, Function.update_self ..⟩)
    · exact .inl (hother hcd rfl)
  | @tcpPunch d ok stage hp =>
    exact .inl (dispatchPunch_outbox fun id hstage => hpush d id (.inl (hstage ▸ hp)))
  | @tcpForward d hp =>
    by_cases hcd : c = d
    · subst hcd
      exact .inr (.inr ⟨⟨_, hp⟩, Function.update_self ..⟩)
    · have htake : Function.update s.outbox d (s.outbox d).take c = s.outbox c :=
        Function.update_of_ne hcd ..
      exact .inl ((Function.update_of_ne hcd ..).trans htake)
  | @wsAck d conn pick t hconn hp hack =>
    rcases dispatchRelayAck_outbox (c := c) hack with hout | ⟨k, delivered, hevent, hout⟩
    · exact .inl hout
    · exact .inr (.inl ⟨k, delivered, congrArg some hevent, hout⟩)
  | wsReply hconn => exact .inl (hother (hws' hconn) rfl)
  | @wsPunch d conn ok stage hconn hp =>
    refine .inl (dispatchPunch_outbox fun id hstage => hpush d id (.inr ⟨conn, hconn, ?_⟩))
    rw [hp, hstage]
  | wsCleanup =>
    rw [wsCleanup_eq]
    exact .inl rfl
  | wsFinish hconn => exact .inl (hother (hws' hconn) rfl)
  | @wsWrite d ok =>
    cases hconn : s.ws d with
    | none => simp [machine, step, hconn] at h
    | some conn => exact .inl (hother (hws' hconn) rfl)
  | _ => exact .inl rfl

/-! ## Where a requester stands -/

/-- A TCP connection is not in `pending` before its own insert, has at most one entry
    after it, and none once it is answered. -/
structure Tracked (s : Server) : Prop where
  fresh : ∀ c, s.accepted ≤ c → s.outbox c = .new ∧ s.NotWaiting c
  early : ∀ c phase, s.tcp c = some phase → phase ≠ .waiting → s.outbox c = .new ∧ s.NotWaiting c
  blocked : ∀ c, s.tcp c = some .waiting →
    (s.outbox c = .new ∧ ∀ k k', s.pending.lookup k = some c →
      s.pending.lookup k' = some c → k = k') ∨
      ((s.outbox c).queued ≠ [] ∧ s.NotWaiting c)

/-- A call of a TCP connection is moved on by the connection's own step. -/
theorem tcpPunch_of_punchStep (hwf : WellFormed s) {phase : TcpPhase} {stage : PunchStage}
    (hphase : s.tcp c = some phase)
    (h : s.PunchStep a c stage) : (∃ ok, a = .tcpPunch c ok) ∧ s.tcp c = some (.punching stage) := by
  refine h.resolve_right fun ⟨_, conn, hconn, _⟩ => ?_
  rcases hwf.apart c with hnone | hnone
  · simp [hnone] at hconn
  · simp [hnone] at hphase

/-- The last access of a call leaves the handler blocked. -/
theorem waiting_of_tcpPunch {ok : Bool} {stage : PunchStage}
    (h : (machine relayAddr).step s (.tcpPunch c ok) = some s')
    (hp : s.tcp c = some (.punching stage))
    (hlast : (s.dispatchPunch relayAddr c ok stage).2 = none) :
    s'.tcp c = some .waiting := by
  obtain rfl : s.tcpPunch relayAddr c ok stage = s' := by simpa [machine, step, hp] using h
  rw [tcpPunch_tcp, Function.update_self, hlast]
  rfl

/-- An insert of a TCP connection leaves its handler blocked. -/
theorem waiting_of_inserted (h : (machine relayAddr).step s a = some s')
    (hwf : WellFormed s) {k : String}
    {phase : TcpPhase} (hphase : s.tcp c = some phase)
    (he : s.dispatchEvent a = some (.inserted c k)) :
    s.tcp c = some (.punching (.insert k)) ∧ s'.tcp c = some .waiting := by
  obtain ⟨⟨ok, rfl⟩, hp⟩ := tcpPunch_of_punchStep hwf hphase (punchStep_of_inserted he)
  exact ⟨hp, waiting_of_tcpPunch h hp rfl⟩

theorem not_noTcp {phase : TcpPhase} (h : s.tcp c = some phase) : ¬ s.NoTcp c := by
  rintro ⟨-, hnone⟩
  simp [hnone] at h

/-- A connection that is not in `pending` and makes no insert stays out of it, and is
    pushed nothing. -/
theorem untouched_step (h : (machine relayAddr).step s a = some s') (hwf : WellFormed s)
    (hroutes : s.RoutesToWs)
    (hc : ¬ s.NoTcp c) (hs : s.outbox c = .new ∧ s.NotWaiting c)
    (hopen : s'.tcp c = none → s.tcp c = none)
    (hno : ∀ k, s.dispatchEvent a ≠ some (.inserted c k)) :
    s'.outbox c = .new ∧ s'.NotWaiting c := by
  refine ⟨?_, notWaiting_step h hs.2 hno⟩
  rcases outbox_of_step h hwf hroutes hc
    with hout | ⟨k, delivered, he, -⟩ | ⟨⟨phase, hphase⟩, hnone⟩
  · rw [hout, hs.1]
  · exact absurd (lookup_of_answered he).1 (hs.2 k)
  · simp [hopen hnone] at hphase

theorem fresh_step (h : (machine relayAddr).step s a = some s') (hwf : WellFormed s)
    (hroutes : s.RoutesToWs)
    (hs : s.Tracked) (hc : s.accepted ≤ c) : s'.outbox c = .new ∧ s'.NotWaiting c := by
  have hnone : s.tcp c = none := by
    by_contra hsome
    obtain ⟨phase, hphase⟩ := Option.ne_none_iff_exists'.mp hsome
    exact absurd (hwf.tcp_lt c phase hphase) (Nat.not_lt.mpr hc)
  refine untouched_step h hwf hroutes (fun hlt => absurd hlt.1 (Nat.not_lt.mpr hc)) (hs.fresh c hc)
    (fun _ => hnone) fun k he => ?_
  rcases (punchStep_of_inserted he).punching with htcp | ⟨conn, hconn, -⟩
  · simp [hnone] at htcp
  · exact absurd (hwf.ws_lt c conn hconn) (Nat.not_lt.mpr hc)

theorem early_step (h : (machine relayAddr).step s a = some s') (hwf : WellFormed s)
    (hroutes : s.RoutesToWs)
    (hs : s.Tracked) {phase : TcpPhase} (hphase : s'.tcp c = some phase)
    (hearly : phase ≠ .waiting) :
    s'.outbox c = .new ∧ s'.NotWaiting c := by
  -- a connection that was open before is untouched
  have hopen : ∀ {before : TcpPhase}, s.tcp c = some before → before ≠ .waiting →
      s'.outbox c = .new ∧ s'.NotWaiting c := by
    intro before hbefore hne
    refine untouched_step h hwf hroutes (not_noTcp hbefore) (hs.early c before hbefore hne)
      (by simp [hphase])
      fun k he => hearly ?_
    have hwaiting := (waiting_of_inserted h hwf hbefore he).2
    exact Option.some.inj (hphase.symm.trans hwaiting)
  cases tcpMove_of_step h c with
  | kept h' => exact hopen (h'.symm.trans hphase) hearly
  | accepted _ hc => exact fresh_step h hwf hroutes hs (Nat.le_of_eq hc.symm)
  | requested hbefore => exact hopen hbefore (by simp)
  | punched hbefore => exact hopen hbefore (by simp)
  | returned _ _ h' => simp [h'] at hphase

theorem blocked_step (h : (machine relayAddr).step s a = some s') (hwf : WellFormed s)
    (hroutes : s.RoutesToWs)
    (hs : s.Tracked) (hphase : s'.tcp c = some .waiting) :
    (s'.outbox c = .new ∧ ∀ k k', s'.pending.lookup k = some c →
      s'.pending.lookup k' = some c → k = k') ∨
      ((s'.outbox c).queued ≠ [] ∧ s'.NotWaiting c) := by
  cases tcpMove_of_step h c with
  | kept h' =>
    have hbefore := h'.symm.trans hphase
    have hno : ∀ k, s.dispatchEvent a ≠ some (.inserted c k) := by
      intro k he
      have hpunching := (waiting_of_inserted h hwf hbefore he).1
      simp [hbefore] at hpunching
    have hlookup : ∀ {k}, s'.pending.lookup k = some c → s.pending.lookup k = some c :=
      fun hk => (lookup_of_step h hk).resolve_left (hno _)
    rcases outbox_of_step h hwf hroutes (not_noTcp hbefore)
      with hout | ⟨k, delivered, he, hout⟩ | ⟨-, hnone⟩
    · rw [hout]
      exact (hs.blocked c hbefore).imp
        (fun ⟨hnew, honly⟩ => ⟨hnew, fun k k' hk hk' => honly k k' (hlookup hk) (hlookup hk')⟩)
        (fun ⟨hqueued, hnot⟩ => ⟨hqueued, notWaiting_step h hnot hno⟩)
    · -- its only entry is taken, and the answer is queued
      have hk := (lookup_of_answered he).1
      rcases hs.blocked c hbefore with ⟨hnew, honly⟩ | ⟨-, hnot⟩
      · refine .inr ⟨by simp [hout, hnew, Channel.new, Channel.send, Channel.queued],
          fun k' hk' => ?_⟩
        obtain rfl := honly k k' hk (hlookup hk')
        rw [pending_of_step h, he] at hk'
        simp [DispatchEvent.apply] at hk'
      · exact absurd hk (hnot k)
    · simp [hnone] at hphase
  | accepted _ _ h' => simp [h'] at hphase
  | requested _ h' => simp [h'] at hphase
  | @punched stage next hbefore ha h' =>
    obtain ⟨hnew, hnot⟩ := hs.early c _ hbefore (by simp)
    refine .inl ⟨?_, fun k k' hk hk' => ?_⟩
    · rcases outbox_of_step h hwf hroutes (not_noTcp hbefore)
        with hout | ⟨k, delivered, he, -⟩ | ⟨-, hnone⟩
      · rw [hout, hnew]
      · exact absurd (lookup_of_answered he).1 (hnot k)
      · simp [hnone] at hphase
    · have hk := (lookup_of_step h hk).resolve_right (hnot k)
      have hk' := (lookup_of_step h hk').resolve_right (hnot k')
      simpa using hk.symm.trans hk'
  | returned _ _ h' => simp [h'] at hphase

theorem tracked_step (h : (machine relayAddr).step s a = some s') (hwf : WellFormed s)
    (hroutes : s.RoutesToWs)
    (hs : s.Tracked) : s'.Tracked where
  fresh := fun _ hc => fresh_step h hwf hroutes hs (Nat.le_trans (accepted_le h) hc)
  early := fun _ _ hphase hearly => early_step h hwf hroutes hs hphase hearly
  blocked := fun _ hphase => blocked_step h hwf hroutes hs hphase

/-! ## Blocked and stranded -/

/-- The entry of a blocked requester stays, is answered, or is taken by a later insert. -/
theorem entry_step (h : (machine relayAddr).step s a = some s') (hwf : WellFormed s)
    (hroutes : s.RoutesToWs)
    (hs : s.Tracked) (hbefore : s.tcp c = some .waiting)
    (hafter : s'.tcp c = some .waiting) {k : String}
    (hk : s.pending.lookup k = some c) :
    s'.pending.lookup k = some c ∨ (s'.outbox c).queued ≠ [] ∨ ∃ d,
      s.dispatchEvent a = some (.inserted d k) := by
  obtain ⟨hnew, -⟩ := (hs.blocked c hbefore).resolve_right fun hqueued => hqueued.2 k hk
  cases he : s.dispatchEvent a with
  | none => exact .inl (by rw [pending_of_step h, he]; exact hk)
  | some e =>
    cases e with
    | inserted d k' =>
      by_cases hkk : k = k'
      · subst hkk
        exact .inr (.inr ⟨d, rfl⟩)
      · refine .inl ?_
        rw [pending_of_step h, he]
        exact (AList.lookup_insert_ne hkk).trans hk
    | answered k' d delivered =>
      by_cases hkk : k = k'
      · subst hkk
        obtain ⟨hd, rfl⟩ := lookup_of_answered he
        obtain rfl := Option.some.inj (hk.symm.trans hd)
        -- the answer is the one message its receiver has not taken
        have hcount : s'.responses c = s.responses c + 1 := by
          rw [responses_of_step hwf h, he]
          simp [DispatchEvent.delivers, hnew, Channel.new]
        refine .inr (.inl ?_)
        rcases outbox_of_step h hwf hroutes (not_noTcp hbefore)
          with hout | ⟨_, _, -, hout⟩ | ⟨-, hnone⟩
        · simp [responses, hout] at hcount
        · simp [hout, hnew, Channel.new, Channel.send, Channel.queued]
        · simp [hnone] at hafter
      · refine .inl ?_
        rw [pending_of_step h, he]
        exact (AList.lookup_erase_ne hkk).trans hk
    | _ => exact .inl (by rw [pending_of_step h, he]; exact hk)

theorem noneStranded_step (h : (machine relayAddr).step s a = some s') (hwf : WellFormed s)
    (hroutes : s.RoutesToWs)
    (htracked : s.Tracked) (hs : s.NoneStranded) (ha : s.KeepsBlocked a) : s'.NoneStranded := by
  intro c hphase
  cases tcpMove_of_step h c with
  | kept h' =>
    have hbefore := h'.symm.trans hphase
    rcases hs c hbefore with hqueued | ⟨k, hk⟩ | hdropped
    · -- what is queued stays queued until the handler takes it
      rcases outbox_of_step h hwf hroutes (not_noTcp hbefore)
        with hout | ⟨k, delivered, he, hout⟩ | ⟨-, hnone⟩
      · exact .inl (hout ▸ hqueued)
      · have hk := (lookup_of_answered he).1
        rcases htracked.blocked c hbefore with ⟨hnew, -⟩ | ⟨-, hnot⟩
        · simp [hnew, Channel.new, Channel.queued] at hqueued
        · exact absurd hk (hnot k)
      · simp [hnone] at hphase
    · rcases entry_step h hwf hroutes htracked hbefore hphase hk with hk' | hqueued | ⟨d, he⟩
      · exact .inr (.inl ⟨k, hk'⟩)
      · exact .inl hqueued
      · simp only [KeepsBlocked, he] at ha
        simp [ha c hk] at hbefore
    · exact absurd hdropped (not_sendersDropped hbefore)
  | accepted _ _ h' => simp [h'] at hphase
  | requested _ h' => simp [h'] at hphase
  | @punched stage next hbefore ok hstep h' =>
    subst hstep
    have he : s.dispatchEvent (.tcpPunch c ok) = some (s.punchEvent c stage) :=
      dispatchEvent_tcpPunch hbefore
    obtain rfl : s.tcpPunch relayAddr c ok stage = s' := by simpa [machine, step, hbefore] using h
    cases stage with
    | lookup id =>
      rw [tcpPunch_tcp, Function.update_self] at hphase
      cases hget : s.registry.get id with
      | none => simp [KeepsBlocked, he, punchEvent, hget, hbefore] at ha
      | some reach => simp [dispatchPunch, hget] at hphase
    | push id reach =>
      rw [tcpPunch_tcp, Function.update_self] at hphase
      cases reach <;> simp [dispatchPunch] at hphase
    | insert id =>
      exact .inr (.inl ⟨id, by rw [pending_of_step h, he]; exact AList.lookup_insert _⟩)
  | returned _ _ h' => simp [h'] at hphase

/-- A missed target, and an insert over a TCP requester, leave a handler that nobody can wake. -/
theorem not_noneStranded_step (h : (machine relayAddr).step s a = some s') (hwf : WellFormed s)
    (hroutes : s.RoutesToWs) (hs : s.Tracked) (ha : ¬ s.KeepsBlocked a) : ¬ s'.NoneStranded := by
  have hstranded : ∀ {c}, s'.tcp c = some .waiting → s'.outbox c = .new → s'.NotWaiting c →
      ¬ s'.NoneStranded := by
    intro c hphase hnew hnot hnone
    rcases hnone c hphase with hqueued | ⟨k, hk⟩ | hdropped
    · simp [hnew, Channel.new, Channel.queued] at hqueued
    · exact hnot k hk
    · exact not_sendersDropped hphase hdropped
  unfold KeepsBlocked at ha
  split at ha
  · next c id he =>
    obtain ⟨phase, hphase⟩ := Option.ne_none_iff_exists'.mp ha
    obtain ⟨hstep, hget⟩ := punchStep_of_missed he
    obtain ⟨⟨ok, rfl⟩, hbefore⟩ := tcpPunch_of_punchStep hwf hphase hstep
    have hafter := waiting_of_tcpPunch h hbefore (by simp [dispatchPunch, hget])
    obtain ⟨hnew, hnot⟩ :=
      untouched_step h hwf hroutes (not_noTcp hphase) (hs.early c _ hbefore (by simp))
      (by simp [hafter]) (by simp [he])
    exact hstranded hafter hnew hnot
  · next d k he =>
    push Not at ha
    obtain ⟨e, hk, hsome⟩ := ha
    obtain ⟨phase, hphase⟩ := Option.ne_none_iff_exists'.mp hsome
    have hwaiting : phase = .waiting := by
      by_contra hne
      exact (hs.early e phase hphase hne).2 k hk
    subst hwaiting
    obtain ⟨hnew, honly⟩ := (hs.blocked e hphase).resolve_right fun hqueued => hqueued.2 k hk
    have hde : d ≠ e := by
      rintro rfl
      have hpunching := (waiting_of_inserted h hwf hphase he).1
      simp [hphase] at hpunching
    have hafter : s'.tcp e = some .waiting := by
      cases tcpMove_of_step h e with
      | kept h' => rw [h', hphase]
      | accepted _ hc =>
        exact absurd (hwf.tcp_lt e _ hphase) (Nat.not_lt.mpr (Nat.le_of_eq hc.symm))
      | requested hbefore => simp [hphase] at hbefore
      | punched hbefore => simp [hphase] at hbefore
      | returned _ hreturn =>
        rcases punchStep_of_inserted he with ⟨⟨_, rfl⟩, -⟩ | ⟨⟨_, rfl⟩, -⟩ <;> simp at hreturn
    refine hstranded hafter ?_ fun k' hk' => ?_
    · rcases outbox_of_step h hwf hroutes (not_noTcp hphase)
        with hout | ⟨_, _, hanswered, -⟩ | ⟨-, hnone⟩
      · rw [hout, hnew]
      · simp [he] at hanswered
      · simp [hnone] at hafter
    · -- its one entry now holds the later requester
      rcases lookup_of_step h hk' with hinserted | hbefore
      · simp only [he, Option.some.injEq, DispatchEvent.inserted.injEq] at hinserted
        exact hde hinserted.1
      · obtain rfl := honly k k' hk hbefore
        rw [pending_of_step h, he] at hk'
        simp only [Option.elim_some, DispatchEvent.apply, AList.lookup_insert,
          Option.some.injEq] at hk'
        exact hde hk'
  · exact absurd trivial ha

theorem routesToWs_init : RoutesToWs (machine relayAddr).init :=
  ⟨fun _ _ h => by simp [machine, init, PeerRegistry.get] at h,
    fun _ _ _ h => by simp [machine, init, Punching] at h⟩

theorem tracked_init : Tracked (machine relayAddr).init :=
  ⟨fun _ _ => ⟨rfl, fun _ h => by simp [machine, init] at h⟩,
    fun _ _ h => by simp [machine, init] at h,
    fun _ h => by simp [machine, init] at h⟩

/-- No TCP requester is stranded along a run exactly when the punches of TCP requesters
    find their targets, and no insert takes the key of one of them. -/
theorem noneStranded_iff {as : List Action} {t : Server}
    (hrun : (machine relayAddr).run (machine relayAddr).init as = some t) :
    (∀ u ∈ (machine relayAddr).visits (machine relayAddr).init as, NoneStranded u) ↔
      (machine relayAddr).Meets KeepsBlocked (machine relayAddr).init as := by
  refine (machine relayAddr).forall_visits_iff_meets (A := fun _ _ => True)
    (J := fun s => (WellFormed s ∧ RoutesToWs s ∧ Tracked s) ∧ NoneStranded s)
      (fun s hs => hs.2) ?_ ?_ ?_ hrun
    ((machine relayAddr).meets_true _ _)
  · intro s a s' ⟨⟨hwf, hroutes, htracked⟩, hs⟩ _ hC hstep
    exact ⟨⟨wellFormed_preserved relayAddr s a s' hwf hstep, routesToWs_step hstep hwf hroutes,
      tracked_step hstep hwf hroutes htracked⟩, noneStranded_step hstep hwf hroutes htracked hs hC⟩
  · intro s a s' ⟨⟨hwf, hroutes, htracked⟩, _⟩ _ hC hstep
    exact not_noneStranded_step hstep hwf hroutes htracked hC
  · exact ⟨⟨wellFormed_init, routesToWs_init, tracked_init⟩,
      fun c hc => by simp [machine, init] at hc⟩

/-- A TCP requester punches the id of connection 0, which answers it. -/
def answeredTcpRun : List Action :=
  [.wsAccept, .wsReceive 0 (.message (.registerPeer "a")), .wsReply 0, .tcpAccept,
    .tcpFirst 1 (some (.punchHoleRequest "a")), .tcpPunch 1 true, .tcpPunch 1 true, .tcpPunch 1 true,
    .wsReceive 0 (.message (.relayResponse (some "a"))), .tcpForward 1]

theorem noneStranded_iff_answeredTcp :
    (∀ u ∈ (machine "relay").visits (machine "relay").init answeredTcpRun, NoneStranded u) ↔
      (machine "relay").Meets KeepsBlocked (machine "relay").init answeredTcpRun :=
  noneStranded_iff ((machine "relay").run_getD answeredTcpRun (by decide +kernel))

/-- A TCP requester of an offline target is not dropped: it stays blocked. -/
theorem offline_requester_stranded :
    ¬ ∀ relayAddr s, (machine relayAddr).Reachable s → NoneStranded s := by
  intro h
  obtain ⟨s, hs, hphase, hqueued, hpending⟩ := (machine "relay").exists_reachable_of_run
    [.tcpAccept, .tcpFirst 0 (some (.punchHoleRequest "a")), .tcpPunch 0 true]
    (p := fun s => s.tcp 0 = some .waiting ∧ (s.outbox 0).queued = [] ∧ s.pending.keys = [])
      (by decide +kernel)
  rcases h "relay" s hs 0 hphase with hsome | ⟨k, hk⟩ | hdropped
  · exact hsome hqueued
  · have hmem : k ∈ s.pending.keys := AList.mem_keys.mpr (AList.lookup_isSome.mp (by simp [hk]))
    simp [hpending] at hmem
  · exact not_sendersDropped hphase hdropped

end Server

end XyzenRelay.Rendezvous
