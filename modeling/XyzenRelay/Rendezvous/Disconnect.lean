-- SUMMARY: What is left of a WS connection that has run its cleanup: entries in pending, and a writer task that waits for senders.
import XyzenRelay.Rendezvous.Outputs
import XyzenRelay.Rendezvous.Registrations
import Mathlib.Data.Finset.Card
import Mathlib.Data.Finset.Range

/-!
# Disconnects

`handle_ws` drops its own sender, but a clone of it stays in `pending` when the
connection leaves before its punch is answered, and another one in the registry under
every id but the last that it registered. The first is there until an acknowledgement
takes it, the second until somebody registers the id, and the writer task waits for both.
-/

namespace XyzenRelay.Rendezvous

namespace Channel

theorem receiving_send (ch : Channel) (m : Outgoing) : (ch.send m).receiving = ch.receiving := by
  unfold send
  split <;> rfl

theorem length_queued_send (ch : Channel) (m : Outgoing) :
    (ch.send m).queued.length ≤ ch.queued.length + 1 := by
  unfold send queued
  split
  · simp only [List.length_drop, List.length_append, List.length_singleton]
    omega
  · exact Nat.le_succ _

end Channel

namespace Server

variable {relayAddr : String} {s s' : Server} {a : Action} {c : ConnId}

/-! ## Connections that are gone -/

/-- The connection has run its cleanup. -/
structure Gone (s : Server) (c : ConnId) : Prop where
  accepted : c < s.accepted
  ws : ∀ conn, s.ws c = some conn → conn.phase = .finishing
  tcp : s.tcp c = none
  /-- The handler that has returned has awaited the writer task. -/
  closed : s.ws c = none → (s.outbox c).receiving = false

/-- A receiver that is dropped stays dropped. -/
theorem receiving_of_step (h : (machine relayAddr).step s a = some s')
    (hr : (s'.outbox c).receiving = true) : (s.outbox c).receiving = true :=
  ((sends_of_step h).outbox c).receiving hr

theorem closed_of_finish (h : (machine relayAddr).step s (.wsFinish c) = some s') :
    (s'.outbox c).receiving = false := by
  cases effect_of_step h with
  | wsFinish => simp [Channel.close]

theorem gone_step (h : (machine relayAddr).step s a = some s') (hs : s.Gone c) : s'.Gone c where
  accepted := Nat.lt_of_lt_of_le hs.accepted (accepted_le h)
  ws := by
    intro conn' hconn'
    cases ws_of_step h c with
    | kept h' => exact hs.ws conn' (h'.symm.trans hconn')
    | accepted _ hc => exact absurd hs.accepted (Nat.not_lt.mpr (Nat.le_of_eq hc.symm))
    | moved hconn _ hp => exact absurd (hs.ws _ hconn) hp
    | finished _ _ h' => simp [h'] at hconn'
  tcp := tcp_none_of_step h hs.accepted hs.tcp
  closed := by
    intro hnone
    cases ws_of_step h c with
    | kept h' =>
      have hclosed := hs.closed (h'.symm.trans hnone)
      by_contra hr
      simp [receiving_of_step h (Bool.eq_true_of_not_eq_false hr)] at hclosed
    | accepted _ _ h' => simp [h'] at hnone
    | moved _ h' => simp [h'] at hnone
    | finished _ _ _ ha =>
      subst ha
      exact closed_of_finish h

theorem gone_of_cleanup (hs : WellFormed s)
    (h : (machine relayAddr).step s (.wsCleanup c) = some s') :
    s'.Gone c := by
  obtain ⟨conn, hconn, -⟩ := registry_of_cleanup h
  have hc := hs.ws_lt c conn hconn
  have htcp : s.tcp c = none := (hs.apart c).resolve_left (by simp [hconn])
  cases ws_of_step h c with
  | kept _ ha => exact absurd rfl ha
  | accepted ha => cases ha
  | moved _ h' _ hp =>
    refine ⟨Nat.lt_of_lt_of_le hc (accepted_le h), ?_, tcp_none_of_step h hc htcp, by simp [h']⟩
    intro conn' hconn'
    obtain rfl := Option.some.inj (h'.symm.trans hconn')
    exact hp.mpr rfl
  | finished _ _ _ ha => cases ha

/-- A connection that is gone punches nobody. -/
theorem not_inserted_of_gone (hs : s.Gone c) {k : String} :
    s.dispatchEvent a ≠ some (.inserted c k) := by
  intro he
  rcases (punchStep_of_inserted he).punching with htcp | ⟨conn, hconn, hp⟩
  · simp [hs.tcp] at htcp
  · simp [hs.ws conn hconn] at hp

/-! ## Clones left behind -/

/-- No entry of `pending` holds a sender of the connection. -/
def NotWaiting (s : Server) (c : ConnId) : Prop := ∀ k, s.pending.lookup k ≠ some c

/-- A connection gets into `pending` by its own insert only. -/
theorem lookup_of_step (h : (machine relayAddr).step s a = some s') {k : String}
    (hk : s'.pending.lookup k = some c) :
    s.dispatchEvent a = some (.inserted c k) ∨ s.pending.lookup k = some c := by
  rw [pending_of_step h] at hk
  cases he : s.dispatchEvent a with
  | none =>
    rw [he] at hk
    exact .inr hk
  | some e =>
    rw [he] at hk
    simp only [Option.elim_some] at hk
    cases e with
    | inserted d k' =>
      simp only [DispatchEvent.apply] at hk
      by_cases hkk : k = k'
      · subst hkk
        rw [AList.lookup_insert] at hk
        obtain rfl := Option.some.inj hk
        exact .inl rfl
      · exact .inr ((AList.lookup_insert_ne hkk).symm.trans hk)
    | answered k' d delivered =>
      simp only [DispatchEvent.apply] at hk
      by_cases hkk : k = k'
      · subst hkk
        rw [AList.lookup_erase] at hk
        simp at hk
      · exact .inr ((AList.lookup_erase_ne hkk).symm.trans hk)
    | _ => exact .inr hk

theorem notWaiting_step (h : (machine relayAddr).step s a = some s') (hs : s.NotWaiting c)
    (hno : ∀ k, s.dispatchEvent a ≠ some (.inserted c k)) : s'.NotWaiting c :=
  fun k hk => (lookup_of_step h hk).elim (hno k) (hs k)

theorem pending_of_cleanup (h : (machine relayAddr).step s (.wsCleanup c) = some s') :
    s'.pending = s.pending :=
  pending_of_step h

/-! ## The writer task -/

/-- No entry of the registry holds a sender of the connection. -/
def NotRegistered (s : Server) (c : ConnId) : Prop := ∀ id, s.registry.get id ≠ some (.wsPush c)

/-- A `dispatch_punch` call of `d` is about to push to the connection. -/
def Pushing (s : Server) (c d : ConnId) : Prop := ∃ id, s.Punching d (.push id (.wsPush c))

theorem holds_iff {stage : PunchStage} :
    stage.holds c = true ↔ ∃ id, stage = .push id (.wsPush c) := by
  cases stage with
  | lookup id => simp [PunchStage.holds]
  | push id reach => cases reach <;> simp [PunchStage.holds]
  | insert id => simp [PunchStage.holds]

/-- The places that hold a sender of the outbox. -/
theorem senderHeld_iff :
    s.senderHeld c = true ↔
      ¬ s.NotRegistered c ∨ ¬ s.NotWaiting c ∨ ∃ d < s.accepted, s.Pushing c d := by
  simp only [senderHeld, Bool.or_eq_true, List.any_eq_true, List.mem_range, decide_eq_true_eq,
    or_assoc]
  refine or_congr ?_ (or_congr ?_ (exists_congr fun d => and_congr_right fun _ => ?_))
  · simp only [NotRegistered, not_forall, not_not]
    constructor
    · rintro ⟨⟨id, reach⟩, hmem, rfl⟩
      exact ⟨id, AList.mem_lookup_iff.mpr hmem⟩
    · rintro ⟨id, hget⟩
      exact ⟨⟨id, .wsPush c⟩, AList.mem_lookup_iff.mp hget, rfl⟩
  · simp only [NotWaiting, not_forall, not_not]
    constructor
    · rintro ⟨⟨id, d⟩, hmem, rfl⟩
      exact ⟨id, AList.mem_lookup_iff.mpr hmem⟩
    · rintro ⟨id, hlookup⟩
      exact ⟨⟨id, c⟩, AList.mem_lookup_iff.mp hlookup, rfl⟩
  · simp only [Pushing, Punching, exists_or]
    rw [or_comm]
    refine or_congr ?_ ?_
    · cases s.tcp d with
      | none => simp
      | some phase => cases phase <;> simp [holds_iff]
    · cases s.ws d with
      | none => simp
      | some conn =>
        obtain ⟨phase, myId⟩ := conn
        cases phase <;> simp [holds_iff]

theorem writerEnded_iff :
    s.writerEnded c = true ↔
      (s.outbox c).receiving = false ∨ (s.outbox c).queued = [] ∧ s.senderHeld c = false := by
  simp [writerEnded]

end Server

/-- A step that a task of the server takes by itself: nothing arrives, and nothing fails. -/
def Action.own : Action → Bool
  | .tcpPunch _ _ | .tcpForward _ | .wsReply _ | .wsPunch _ _ | .wsCleanup _ | .wsFinish _
  | .wsWrite _ true => true
  | _ => false

theorem Action.registers_of_own {a : Action} (h : a.own = true) : a.registers = none := by
  cases a <;> first | rfl | simp [own] at h

namespace Server

variable {relayAddr : String} {s s' : Server} {a : Action} {c : ConnId}

variable (relayAddr) in
/-- The tasks of the server can bring the writer task of the connection to its end. -/
def WriterCanEnd (s : Server) (c : ConnId) : Prop :=
  ((machine relayAddr).only Action.own).CanReach s fun t => t.writerEnded c = true

/-- Nobody keeps a sender of the connection that is gone, or its writer task has ended. -/
structure Released (s : Server) (c : ConnId) : Prop where
  gone : s.Gone c
  notWaiting : s.NotWaiting c
  notRegistered : (s.outbox c).receiving = true → s.NotRegistered c

theorem notRegistered_step (h : (machine relayAddr).step s a = some s') (hgone : s.Gone c)
    (hs : s.NotRegistered c) : s'.NotRegistered c := by
  intro id hget
  by_cases hclean : ∃ d, a = .wsCleanup d
  · obtain ⟨d, rfl⟩ := hclean
    exact hs id (get_of_get_cleanup h hget)
  · rcases get_cases_of_step h (fun d hd => hclean ⟨d, hd⟩) hget with hbefore | hreg
    · exact hs id hbefore
    · obtain ⟨conn, hconn, hp⟩ := alive_of_registers h hreg
      exact hp (hgone.ws conn hconn)

theorem released_step (h : (machine relayAddr).step s a = some s') (hs : s.Released c) :
    s'.Released c where
  gone := gone_step h hs.gone
  notWaiting := notWaiting_step h hs.notWaiting fun _ => not_inserted_of_gone hs.gone
  notRegistered := fun hr =>
    notRegistered_step h hs.gone (hs.notRegistered (receiving_of_step h hr))

/-- A call that is about to push does so, and holds the sender no more. -/
theorem push_of_pushing (relayAddr : String) (hwf : WellFormed s) {d : ConnId}
    (hd : s.Pushing c d) :
    ∃ a s', a.own = true ∧ (machine relayAddr).step s a = some s' ∧
      s'.outbox c = (s.outbox c).send (.requestRelay relayAddr) ∧ s'.accepted = s.accepted ∧
      ¬ s'.Pushing c d ∧ ∀ e, s'.Pushing c e → s.Pushing c e := by
  obtain ⟨id, htcp | ⟨conn, hconn, hp⟩⟩ := hd
  · have hws : s.ws d = none := (hwf.apart d).resolve_right (by simp [htcp])
    have hstep : (machine relayAddr).step s (.tcpPunch d true) = some
        ((s.send c (.requestRelay relayAddr)).setTcp d (some (.punching (.insert id)))) := by
      simp [machine, step, htcp, Server.tcpPunch, dispatchPunch]
    refine ⟨_, _, rfl, hstep, Function.update_self .., rfl, ?_, fun e => ?_⟩
    · simp [Pushing, Punching, setTcp, send, hws]
    · by_cases he : e = d
      · subst he
        simp [Pushing, Punching, setTcp, send, hws]
      · simp [Pushing, Punching, setTcp, send, he]
  · have htcp : s.tcp d = none := (hwf.apart d).resolve_left (by simp [hconn])
    have hstep : (machine relayAddr).step s (.wsPunch d true) = some
        ((s.send c (.requestRelay relayAddr)).setWs d
          (some { conn with phase := .punching (.insert id) })) := by
      simp [machine, step, hconn, hp, Server.wsPunch, dispatchPunch]
    refine ⟨_, _, rfl, hstep, Function.update_self .., rfl, ?_, fun e => ?_⟩
    · simp [Pushing, Punching, setWs, send, htcp]
    · by_cases he : e = d
      · subst he
        simp [Pushing, Punching, setWs, send, htcp]
      · simp [Pushing, Punching, setWs, send, he]

open Classical in
/-- The calls that are about to push to the connection. -/
noncomputable def pushers (s : Server) (c : ConnId) : Finset ConnId :=
  (Finset.range s.accepted).filter (s.Pushing c)

theorem mem_pushers {d : ConnId} : d ∈ s.pushers c ↔ d < s.accepted ∧ s.Pushing c d := by
  simp [pushers]

/-- How far the writer task is from its end: every push that is under way is still to be
    made and written, and what is queued is still to be written. -/
noncomputable def untilEnd (s : Server) (c : ConnId) : Nat :=
  2 * (s.pushers c).card + (s.outbox c).queued.length

theorem untilEnd_push (hwf : WellFormed s) {d : ConnId} (hd : s.Pushing c d)
    (haccepted : d < s.accepted) :
    ∃ a s', a.own = true ∧ (machine relayAddr).step s a = some s' ∧
      s'.untilEnd c < s.untilEnd c := by
  obtain ⟨a, s', hown, hstep, houtbox, hsame, hdone, hothers⟩ :=
    push_of_pushing relayAddr hwf hd
  have hlt : (s'.pushers c).card < (s.pushers c).card := by
    refine Finset.card_lt_card ⟨fun e he => ?_, fun hsub => hdone ?_⟩
    · obtain ⟨hlt, he⟩ := mem_pushers.mp he
      exact mem_pushers.mpr ⟨hsame ▸ hlt, hothers e he⟩
    · exact (mem_pushers.mp (hsub (mem_pushers.mpr ⟨haccepted, hd⟩))).2
  have hqueued : (s'.outbox c).queued.length ≤ (s.outbox c).queued.length + 1 := by
    rw [houtbox]
    exact Channel.length_queued_send _ _
  refine ⟨a, s', hown, hstep, ?_⟩
  unfold untilEnd
  omega

theorem untilEnd_write {conn : WsConn} (hconn : s.ws c = some conn)
    (hr : (s.outbox c).receiving = true) (hqueued : (s.outbox c).queued ≠ []) :
    ∃ s', (machine relayAddr).step s (.wsWrite c true) = some s' ∧
      s'.untilEnd c < s.untilEnd c := by
  refine ⟨s.wsWrite c true, by simp [machine, step, hconn, hr, hqueued], ?_⟩
  have hpushers : (s.wsWrite c true).pushers c = s.pushers c := rfl
  have hlt : ((s.wsWrite c true).outbox c).queued.length < (s.outbox c).queued.length := by
    have hpos := List.length_pos_iff.mpr hqueued
    simp only [Server.wsWrite, if_true, Function.update_self, Channel.take, Channel.queued,
      List.length_drop] at hpos ⊢
    omega
  unfold untilEnd
  rw [hpushers]
  omega

/-- Once the calls under way are over and the queue is written, `recv` returns `None`. -/
theorem writerCanEnd_of_released (hwf : WellFormed s) (hs : s.Released c) :
    WriterCanEnd relayAddr s c := by
  refine Machine.CanReach.of_measure ((machine relayAddr).only Action.own)
    (J := fun n t => WellFormed t ∧ t.Released c ∧ t.untilEnd c = n) ?_ ⟨hwf, hs, rfl⟩
  rintro _ t ⟨hwf, hs, rfl⟩
  by_cases hended : t.writerEnded c = true
  · exact .inl hended
  · rw [writerEnded_iff, not_or, Bool.not_eq_false, not_and, Bool.not_eq_false] at hended
    obtain ⟨hr, hheld⟩ := hended
    have move : ∀ {a t'}, a.own = true → (machine relayAddr).step t a = some t' →
        t'.untilEnd c < t.untilEnd c →
        ∃ a t' m, ((machine relayAddr).only Action.own).step t a = some t' ∧ m < t.untilEnd c ∧
          WellFormed t' ∧ t'.Released c ∧ t'.untilEnd c = m :=
      fun {a t'} hown hstep hlt =>
        ⟨a, t', _, (Machine.only_step _).mpr ⟨hown, hstep⟩, hlt,
          wellFormed_preserved relayAddr t a t' hwf hstep, released_step hstep hs, rfl⟩
    by_cases hqueued : (t.outbox c).queued = []
    · -- a call is about to push
      obtain ⟨d, hd, hpushing⟩ := ((senderHeld_iff.mp (hheld hqueued)).resolve_left
        (not_not_intro (hs.notRegistered hr))).resolve_left (not_not_intro hs.notWaiting)
      obtain ⟨a, t', hown, hstep, hlt⟩ := untilEnd_push hwf hpushing hd
      exact .inr (move hown hstep hlt)
    · obtain ⟨conn, hconn⟩ := Option.ne_none_iff_exists'.mp fun hnone => by
        simp [hs.gone.closed hnone] at hr
      obtain ⟨t', hstep, hlt⟩ := untilEnd_write hconn hr hqueued
      exact .inr (move rfl hstep hlt)

/-- The writer task waits for a sender that the registry keeps. -/
structure Stuck (s : Server) (c : ConnId) : Prop where
  finishing : ∃ conn, s.ws c = some conn ∧ conn.phase = .finishing
  receiving : (s.outbox c).receiving = true
  registered : ¬ s.NotRegistered c

theorem Stuck.not_ended (hs : s.Stuck c) : ¬ s.writerEnded c = true := by
  rw [writerEnded_iff]
  rintro (hr | ⟨-, hheld⟩)
  · simp [hs.receiving] at hr
  · simp [senderHeld_iff.mpr (.inl hs.registered)] at hheld

theorem receiving_send (d : ConnId) (m : Outgoing) :
    ((s.send d m).outbox c).receiving = (s.outbox c).receiving := by
  by_cases hc : c = d
  · subst hc
    simp [send, Channel.receiving_send]
  · simp [send, hc]

theorem receiving_update {d : ConnId} {ch : Channel} (hc : c = d → ch.receiving = true)
    (hr : (s.outbox c).receiving = true) :
    (Function.update s.outbox d ch c).receiving = true := by
  by_cases hcd : c = d
  · subst hcd
    rw [Function.update_self]
    exact hc rfl
  · rwa [Function.update_of_ne hcd]

/-- The receiver of a WS connection is dropped by its writer task, when the sink is gone or
    no sender is left. -/
theorem receiving_kept (h : (machine relayAddr).step s a = some s') (htcp : s.tcp c = none)
    (hwrite : a ≠ .wsWrite c false) (hfinish : a ≠ .wsFinish c)
    (hr : (s.outbox c).receiving = true) : (s'.outbox c).receiving = true := by
  have hother : ∀ {d phase}, s.tcp d = some phase → c ≠ d := by
    rintro d phase hp rfl
    simp [htcp] at hp
  have hack : ∀ {pick t}, s.dispatchRelayAck relayAddr pick = some t →
      (t.outbox c).receiving = true := by
    intro pick t hack
    rcases dispatchRelayAck_eq hack with ⟨-, -, rfl⟩ | ⟨k, requester, -, -, rfl⟩
    · exact hr
    · exact (receiving_send requester _).trans hr
  have hpunch : ∀ d ok stage,
      ((s.dispatchPunch relayAddr d ok stage).1.outbox c).receiving = true := by
    intro d ok stage
    cases stage with
    | lookup id => simp only [dispatchPunch]; split <;> exact hr
    | push id reach =>
      cases reach with
      | udp addr => simpa [dispatchPunch, sendUdp_eq] using hr
      | wsPush tx => exact (receiving_send tx _).trans hr
    | insert id => exact hr
  cases effect_of_step h with
  | udp => rwa [(udp_frame s _ _ _).2.1]
  | @tcpAck d pick t hp ht =>
    have houtbox : (t.tcpReturn d).outbox c = t.outbox c := Function.update_of_ne (hother hp) ..
    rw [houtbox]
    exact hack ht
  | tcpIgnores hp => exact receiving_update (fun hc => absurd hc (hother hp)) hr
  | tcpPunch => exact hpunch _ _ _
  | tcpForward hp =>
    refine receiving_update (fun hc => absurd hc (hother hp)) ?_
    exact receiving_update (fun hc => absurd hc (hother hp)) hr
  | wsAck hconn hp ht => exact hack ht
  | wsReply => exact (receiving_send _ _).trans hr
  | wsPunch => exact hpunch _ _ _
  | wsCleanup =>
    rw [wsCleanup_eq]
    exact hr
  | @wsFinish d conn =>
    have hc : c ≠ d := by
      rintro rfl
      exact hfinish rfl
    exact receiving_update (fun heq => absurd heq hc) hr
  | @wsWrite d ok =>
    refine receiving_update (fun hc => ?_) hr
    subst hc
    cases ok with
    | true => exact hr
    | false => exact absurd rfl hwrite
  | _ => exact hr

theorem stuck_step (hwf : WellFormed s) (hown : a.own = true)
    (h : (machine relayAddr).step s a = some s') (hs : s.Stuck c) : s'.Stuck c := by
  obtain ⟨conn, hconn, hp⟩ := hs.finishing
  have htcp : s.tcp c = none := (hwf.apart c).resolve_left (by simp [hconn])
  have hfinish : a ≠ .wsFinish c := by
    rintro rfl
    simp [machine, step, hconn, hp, hs.not_ended] at h
  have hwrite : a ≠ .wsWrite c false := by
    rintro rfl
    cases hown
  refine ⟨?_, receiving_kept h htcp hwrite hfinish hs.receiving, ?_⟩
  · cases ws_of_step h c with
    | kept h' => exact ⟨conn, h'.trans hconn, hp⟩
    | accepted _ hc => exact absurd (hwf.ws_lt c conn hconn) (Nat.not_lt.mpr (Nat.le_of_eq hc.symm))
    | moved h' _ hp' =>
      obtain rfl := Option.some.inj (h'.symm.trans hconn)
      exact absurd hp hp'
    | finished _ _ _ ha => exact absurd ha hfinish
  · intro hnot
    refine hs.registered fun id hget => hnot id ?_
    by_cases hclean : ∃ d, a = .wsCleanup d
    · obtain ⟨d, rfl⟩ := hclean
      have hcd : c ≠ d := by
        rintro rfl
        simp [machine, step, hconn, hp] at h
      rw [get_of_cleanup h (by simpa [hget] using hcd), hget]
    · rw [get_of_step h (fun d hd => hclean ⟨d, hd⟩), Action.registers_of_own hown]
      exact hget

theorem not_writerCanEnd_of_stuck (hwf : WellFormed s) (hs : s.Stuck c) :
    ¬ WriterCanEnd relayAddr s c := by
  rintro ⟨as, t, hrun, hended⟩
  have hkeeps : ((machine relayAddr).only Action.own).Preserves fun t =>
      WellFormed t ∧ t.Stuck c := by
    rintro u a v ⟨hwf, hu⟩ hstep
    obtain ⟨hown, hstep⟩ := (Machine.only_step _).mp hstep
    exact ⟨wellFormed_preserved relayAddr u a v hwf hstep, stuck_step hwf hown hstep hu⟩
  exact (hkeeps.run _ ⟨hwf, hs⟩ hrun).2.not_ended hended

/-! ## Whole runs -/

/-- When the cleanup runs, no punch of the connection is waiting for an answer, and unless
    its writer task has ended, the connection has no entry in the registry but that of its
    last id. -/
def LeavesNothing (s : Server) : Action → Prop
  | .wsCleanup c =>
    s.NotWaiting c ∧ ((s.outbox c).receiving = true → s.OnlyLastId (.wsCleanup c))
  | _ => True

variable (relayAddr) in
/-- No connection that has run its cleanup is left in `pending` in the run. -/
structure NoClones (as : List Action) : Prop where
  dropped : ∀ bs u, bs <+: as → (machine relayAddr).run (machine relayAddr).init bs = some u →
    ∀ c, .wsCleanup c ∈ bs → u.NotWaiting c
  /-- Its writer task's `rx.recv()` can return `None`, without any help from outside. -/
  writerEnds : ∀ bs u, bs <+: as → (machine relayAddr).run (machine relayAddr).init bs = some u →
    ∀ c, .wsCleanup c ∈ bs → WriterCanEnd relayAddr u c
  /-- No later acknowledgement is spent on it. -/
  unspent : ∀ bs cs u, bs ++ cs <+: as →
    (machine relayAddr).run (machine relayAddr).init bs = some u →
    ∀ c, .wsCleanup c ∈ bs → (events relayAddr u cs).countP (·.answers (· = c)) = 0

/-- The cleanup itself takes the entry of the last id. -/
theorem notRegistered_of_cleanup (h : (machine relayAddr).step s (.wsCleanup c) = some s')
    (honly : s.OnlyLastId (.wsCleanup c)) : s'.NotRegistered c := by
  intro id hget
  obtain ⟨conn, hconn, hregistry⟩ := registry_of_cleanup h
  have hbefore := get_of_get_cleanup h hget
  have hid : conn.myId = some id := by
    have hlast := honly id hbefore
    rwa [hconn] at hlast
  rw [hregistry, hid] at hget
  simp [PeerRegistry.get_removeIfWs, hbefore] at hget

/-- An entry of another id outlives the cleanup, and the writer task waits for it. -/
theorem stuck_of_cleanup (hwf : WellFormed s)
    (h : (machine relayAddr).step s (.wsCleanup c) = some s')
    (hr : (s.outbox c).receiving = true) (hnot : ¬ s.OnlyLastId (.wsCleanup c)) :
    s'.Stuck c := by
  obtain ⟨conn, hconn, hregistry⟩ := registry_of_cleanup h
  have htcp : s.tcp c = none := (hwf.apart c).resolve_left (by simp [hconn])
  refine ⟨?_, receiving_kept h htcp (by simp) (by simp) hr, fun hnone => ?_⟩
  · cases ws_of_step h c with
    | kept _ ha => exact absurd rfl ha
    | accepted ha => cases ha
    | moved _ h' _ hp => exact ⟨_, h', hp.mpr rfl⟩
    | finished _ _ _ ha => cases ha
  · refine hnot fun id hget => ?_
    by_contra hid
    refine hnone id ?_
    rw [hconn] at hid
    rw [hregistry]
    cases hmy : conn.myId with
    | none => exact hget
    | some myId =>
      have hne : id ≠ myId := by
        rintro rfl
        exact hid hmy
      exact (PeerRegistry.get_removeIfWs_ne hne).trans hget

/-- The clones of a connection are all dropped along a run, and its writer task can end,
    exactly when each cleanup leaves nothing behind. -/
theorem released_iff {as : List Action} {t : Server}
    (hrun : (machine relayAddr).run (machine relayAddr).init as = some t) :
    (∀ bs u, bs <+: as → (machine relayAddr).run (machine relayAddr).init bs = some u →
      ∀ c, .wsCleanup c ∈ bs → u.NotWaiting c ∧ WriterCanEnd relayAddr u c) ↔
      (machine relayAddr).Meets LeavesNothing (machine relayAddr).init as := by
  refine (machine relayAddr).forall_prefix_iff_meets
    (P := fun bs u => ∀ c, .wsCleanup c ∈ bs → u.NotWaiting c ∧ WriterCanEnd relayAddr u c)
    (J := fun bs u => WellFormed u ∧ ∀ c, .wsCleanup c ∈ bs → u.Released c) ?_ ?_ ?_
    ⟨wellFormed_init, by simp⟩ hrun
  · exact fun bs u ⟨hwf, hJ⟩ c hc => ⟨(hJ c hc).notWaiting, writerCanEnd_of_released hwf (hJ c hc)⟩
  · rintro bs u a v hu ⟨hwf, hJ⟩ hC hstep
    refine ⟨wellFormed_preserved relayAddr u a v hwf hstep, fun c hc => ?_⟩
    rcases List.mem_append.mp hc with hc | hc
    · exact released_step hstep (hJ c hc)
    · obtain rfl := List.mem_singleton.mp hc
      refine ⟨gone_of_cleanup hwf hstep, ?_, fun hr => ?_⟩
      · rw [NotWaiting, pending_of_cleanup hstep]
        exact hC.1
      · exact notRegistered_of_cleanup hstep (hC.2 (receiving_of_step hstep hr))
  · rintro bs u a v hu ⟨hwf, hJ⟩ hC hstep hP
    cases a with
    | wsCleanup c =>
      obtain ⟨hwaiting, hends⟩ := hP c (by simp)
      rw [NotWaiting, pending_of_cleanup hstep] at hwaiting
      refine hC ⟨hwaiting, fun hr => ?_⟩
      by_contra hnot
      exact not_writerCanEnd_of_stuck (wellFormed_preserved relayAddr u _ v hwf hstep)
        (stuck_of_cleanup hwf hstep hr hnot) hends
    | _ => exact hC trivial

/-- No clone of a connection outlives its cleanup, and its writer task can end, exactly when
    none of its punches waits for an answer by then and the registry has no entry of it but
    that of its last id, unless its writer task has ended before. -/
theorem noClones_iff {as : List Action} {t : Server}
    (hrun : (machine relayAddr).run (machine relayAddr).init as = some t) :
    NoClones relayAddr as ↔
      (machine relayAddr).Meets LeavesNothing (machine relayAddr).init as := by
  rw [← released_iff hrun]
  refine ⟨fun h bs u hbs hu c hc => ⟨h.dropped bs u hbs hu c hc, h.writerEnds bs u hbs hu c hc⟩,
    fun h => ⟨fun bs u hbs hu c hc => (h bs u hbs hu c hc).1,
      fun bs u hbs hu c hc => (h bs u hbs hu c hc).2, ?_⟩⟩
  intro bs cs u hbs hu c hc
  rw [List.countP_eq_zero]
  intro e he hanswers
  -- the acknowledgement found the connection in `pending`
  obtain ⟨rest, rfl⟩ := hbs
  rw [List.append_assoc] at hrun
  obtain ⟨u', hu', hrun'⟩ := (machine relayAddr).run_append.mp hrun
  obtain rfl := Option.some.inj (hu.symm.trans hu')
  obtain ⟨v, hv, -⟩ := (machine relayAddr).run_append.mp hrun'
  obtain ⟨L, K, hsplit⟩ := List.append_of_mem he
  obtain ⟨ds, a, es, w, x, rfl, hw, -, hevent, -, -, -⟩ :=
    (machine relayAddr).journal_split dispatchEvent hv hsplit
  cases e with
  | answered k d delivered =>
    obtain rfl : d = c := by simpa [DispatchEvent.answers] using hanswers
    have hbefore : bs ++ ds <+: bs ++ (ds ++ a :: es) ++ rest :=
      ⟨a :: es ++ rest, by simp⟩
    exact (h (bs ++ ds) w hbefore ((machine relayAddr).run_append.mpr ⟨u, hu, hw⟩) d
      (List.mem_append_left _ hc)).1 k (lookup_of_answered hevent).1
  | _ => simp [DispatchEvent.answers] at hanswers

/-- Connection 1 punches the id of connection 0 and disconnects before the answer. -/
def abandonedPunchRun : List Action :=
  [.wsAccept, .wsAccept, .wsReceive 0 (.message (.registerPeer "a")), .wsReply 0,
    .wsReceive 1 (.message (.punchHoleRequest "a")), .wsPunch 1 true, .wsPunch 1 true, .wsPunch 1 true,
    .wsReceive 1 .closed, .wsCleanup 1]

theorem noClones_iff_abandonedPunch :
    NoClones "relay" abandonedPunchRun ↔
      (machine "relay").Meets LeavesNothing (machine "relay").init abandonedPunchRun :=
  noClones_iff ((machine "relay").run_getD abandonedPunchRun (by decide +kernel))

/-- Its outbox is still in `pending` after the cleanup. -/
theorem clone_left_behind :
    ¬ ∀ relayAddr as t, (machine relayAddr).run (machine relayAddr).init as = some t →
      NoClones relayAddr as := by
  intro h
  have hrun := (machine "relay").run_getD abandonedPunchRun (s := (machine "relay").init)
    (by decide +kernel)
  have hdropped :=
    (h "relay" abandonedPunchRun _ hrun).dropped abandonedPunchRun _ (List.prefix_refl _) hrun 1
    (by decide +kernel) "a"
  revert hdropped
  decide +kernel

end Server

end XyzenRelay.Rendezvous
