-- SUMMARY: The accesses of the two dispatch helpers as events of a run, and what they do to pending and to the outboxes.
import XyzenRelay.Rendezvous.Effect
import XyzenRelay.Lib.Journal

/-!
# Dispatch events

The journal of a run lists what its `dispatch_punch` and `dispatch_relay_ack` calls
do, access by access. `pending` changes by these events only, and so does the number
of `RelayResponse`s in an outbox.
-/

namespace XyzenRelay.Rendezvous

/-- One access of a dispatch helper. -/
inductive DispatchEvent where
  /-- The target is not registered, and the call returns. -/
  | missed (requester : ConnId) (targetId : String)
  | found (requester : ConnId) (targetId : String)
  | pushed (requester : ConnId) (targetId : String)
  /-- The requester is pending, and the call returns. -/
  | inserted (requester : ConnId) (targetId : String)
  /-- An acknowledgement finds nobody pending. -/
  | idle
  /-- An acknowledgement takes an entry; the flag is whether the requester's receiver
      was still there. -/
  | answered (targetId : String) (requester : ConnId) (delivered : Bool)
  deriving DecidableEq, Repr

abbrev Pending := AList fun _ : String => ConnId

namespace DispatchEvent

/-- What the event does to `pending`. -/
def apply (m : Pending) : DispatchEvent → Pending
  | .inserted requester targetId => m.insert targetId requester
  | .answered targetId _ _ => m.erase targetId
  | _ => m

/-- A punch of one of the requesters found its target. -/
def finds (p : ConnId → Bool) : DispatchEvent → Bool
  | .found requester _ => p requester
  | _ => false

/-- A punch of one of the requesters was completed. -/
def completes (p : ConnId → Bool) : DispatchEvent → Bool
  | .inserted requester _ => p requester
  | _ => false

/-- An acknowledgement sent a `RelayResponse` to one of the requesters. -/
def answers (p : ConnId → Bool) : DispatchEvent → Bool
  | .answered _ requester _ => p requester
  | _ => false

/-- A `RelayResponse` was put into the outbox of one of the requesters. -/
def delivers (p : ConnId → Bool) : DispatchEvent → Bool
  | .answered _ requester delivered => delivered && p requester
  | _ => false

/-- An acknowledgement was dispatched. -/
def isAck : DispatchEvent → Bool
  | .idle | .answered _ _ _ => true
  | _ => false

end DispatchEvent

/-- The number of `RelayResponse`s put into a channel. -/
def Channel.relayResponses (ch : Channel) : Nat := ch.messages.countP Outgoing.isRelayResponse

@[simp] theorem Channel.relayResponses_take (ch : Channel) :
    ch.take.relayResponses = ch.relayResponses := rfl

@[simp] theorem Channel.relayResponses_close (ch : Channel) :
    ch.close.relayResponses = ch.relayResponses := rfl

theorem Channel.relayResponses_send (ch : Channel) (m : Outgoing) :
    (ch.send m).relayResponses = ch.relayResponses + if ch.receiving && m.isRelayResponse
    then 1 else 0 := by
  unfold Channel.send Channel.relayResponses
  cases ch.receiving <;> simp [List.countP_append, List.countP_cons]

namespace Server

variable {relayAddr : String}

/-- The access `dispatch_punch` makes next. -/
def punchEvent (s : Server) (requester : ConnId) : PunchStage → DispatchEvent
  | .lookup targetId =>
    if (s.registry.get targetId).isSome then .found requester targetId
      else .missed requester targetId
  | .push targetId _ => .pushed requester targetId
  | .insert targetId => .inserted requester targetId

/-- What `dispatch_relay_ack` does when the map yields the picked key. -/
def ackEvent (s : Server) (pick : Option String) : DispatchEvent :=
  match pick with
  | none => .idle
  | some k =>
    match s.pending.lookup k with
    | none => .idle
    | some requester => .answered k requester (s.outbox requester).receiving

/-- What a step does as part of a dispatch helper. -/
def dispatchEvent (s : Server) : Action → Option DispatchEvent
  | .tcpPunch c _ =>
    match s.tcp c with
    | some (.punching stage) => some (s.punchEvent c stage)
    | _ => none
  | .wsPunch c _ =>
    match s.ws c with
    | some { phase := .punching stage, .. } => some (s.punchEvent c stage)
    | _ => none
  | .tcpFirst _ (some (.relayResponse pick)) => some (s.ackEvent pick)
  | .wsReceive _ (.message (.relayResponse pick)) => some (s.ackEvent pick)
  | _ => none

/-! ## The events of a step -/

section Steps

variable {s s' : Server} {a : Action} {c : ConnId}

theorem dispatchEvent_tcpPunch {ok : Bool} {stage : PunchStage}
    (hp : s.tcp c = some (.punching stage)) :
    s.dispatchEvent (.tcpPunch c ok) = some (s.punchEvent c stage) := by
  simp [dispatchEvent, hp]

theorem dispatchEvent_wsPunch {conn : WsConn} {ok : Bool} {stage : PunchStage}
    (hconn : s.ws c = some conn) (hp : conn.phase = .punching stage) :
    s.dispatchEvent (.wsPunch c ok) = some (s.punchEvent c stage) := by
  obtain ⟨phase, myId⟩ := conn
  subst hp
  simp [dispatchEvent, hconn]

theorem dispatchEvent_tcpFirst {m : Option Incoming}
    (hack : ∀ pick, m ≠ some (.relayResponse pick)) :
    s.dispatchEvent (.tcpFirst c m) = none := by
  unfold dispatchEvent
  split <;> simp_all

theorem dispatchEvent_wsReceive {item : WsItem}
    (hack : ∀ pick, item ≠ .message (.relayResponse pick)) :
    s.dispatchEvent (.wsReceive c item) = none := by
  unfold dispatchEvent
  split <;> simp_all

/-- The handler of the connection is inside `dispatch_punch`. -/
def Punching (s : Server) (c : ConnId) (stage : PunchStage) : Prop :=
  s.tcp c = some (.punching stage) ∨ ∃ conn, s.ws c = some conn ∧ conn.phase = .punching stage

/-- The handler of the connection makes the next access of its `dispatch_punch` call. -/
def PunchStep (s : Server) (a : Action) (c : ConnId) (stage : PunchStage) : Prop :=
  ((∃ ok, a = .tcpPunch c ok) ∧ s.tcp c = some (.punching stage)) ∨
    ((∃ ok, a = .wsPunch c ok) ∧ ∃ conn, s.ws c = some conn ∧ conn.phase = .punching stage)

theorem PunchStep.punching {stage : PunchStage} (h : s.PunchStep a c stage) : s.Punching c stage :=
  h.imp And.right And.right

/-- An event is the next access of a punch, or an acknowledgement. -/
theorem dispatchEvent_cases {e : DispatchEvent} (h : s.dispatchEvent a = some e) :
    (∃ c stage, s.PunchStep a c stage ∧ e = s.punchEvent c stage) ∨ ∃ pick,
    e = s.ackEvent pick := by
  unfold dispatchEvent at h
  split at h
  · next c ok =>
    split at h
    · next stage hp => exact .inl ⟨c, stage, .inl ⟨⟨ok, rfl⟩, hp⟩, (Option.some.inj h).symm⟩
    · simp at h
  · next c ok =>
    split at h
    · next stage myId hconn =>
      exact .inl ⟨c, stage, .inr ⟨⟨ok, rfl⟩, _, hconn, rfl⟩, (Option.some.inj h).symm⟩
    · simp at h
  · next pick => exact .inr ⟨pick, (Option.some.inj h).symm⟩
  · next pick => exact .inr ⟨pick, (Option.some.inj h).symm⟩
  · simp at h

theorem punchEvent_isAck (stage : PunchStage) : (s.punchEvent c stage).isAck = false := by
  cases stage with
  | lookup id =>
    simp only [punchEvent]
    split <;> rfl
  | push id reach => rfl
  | insert id => rfl

theorem ackEvent_completes (p : ConnId → Bool) (pick : Option String) :
    (s.ackEvent pick).completes p = false := by
  unfold ackEvent
  split
  · rfl
  · split <;> rfl

theorem ackEvent_ne_missed (pick : Option String) (id : String) :
    s.ackEvent pick ≠ .missed c id := by
  unfold ackEvent
  split
  · simp
  · split <;> simp

/-- An insert is the last access of a punch. -/
theorem punchStep_of_inserted {k : String} (h : s.dispatchEvent a = some (.inserted c k)) :
    s.PunchStep a c (.insert k) := by
  rcases dispatchEvent_cases h with ⟨d, stage, hstep, hpunch⟩ | ⟨pick, hack⟩
  · cases stage with
    | lookup id =>
      simp only [punchEvent] at hpunch
      split at hpunch <;> simp at hpunch
    | push id reach => simp [punchEvent] at hpunch
    | insert id =>
      simp only [punchEvent, DispatchEvent.inserted.injEq] at hpunch
      obtain ⟨rfl, rfl⟩ := hpunch
      exact hstep
  · have hnot := ackEvent_completes (s := s) (fun _ => true) pick
    simp [← hack, DispatchEvent.completes] at hnot

/-- A punch that misses has looked up a target that is not registered. -/
theorem punchStep_of_missed {id : String} (h : s.dispatchEvent a = some (.missed c id)) :
    s.PunchStep a c (.lookup id) ∧ s.registry.get id = none := by
  rcases dispatchEvent_cases h with ⟨d, stage, hstep, hpunch⟩ | ⟨pick, hack⟩
  · cases stage with
    | lookup id' =>
      simp only [punchEvent] at hpunch
      split_ifs at hpunch with hget
      simp only [DispatchEvent.missed.injEq] at hpunch
      obtain ⟨rfl, rfl⟩ := hpunch
      exact ⟨hstep, by simpa using hget⟩
    | push id' reach => simp [punchEvent] at hpunch
    | insert id' => simp [punchEvent] at hpunch
  · exact absurd hack.symm (ackEvent_ne_missed pick id)

/-- The entry an acknowledgement takes, and whether it is answered. -/
theorem lookup_of_answered {k : String} {c : ConnId} {delivered : Bool}
    (h : s.dispatchEvent a = some (.answered k c delivered)) :
    s.pending.lookup k = some c ∧ delivered = (s.outbox c).receiving := by
  rcases dispatchEvent_cases h with ⟨d, stage, -, hpunch⟩ | ⟨pick, hack⟩
  · have hnot := punchEvent_isAck (s := s) (c := d) stage
    simp [← hpunch, DispatchEvent.isAck] at hnot
  · unfold ackEvent at hack
    split at hack
    · simp at hack
    · split at hack
      · simp at hack
      · next hk =>
        simp only [DispatchEvent.answered.injEq] at hack
        obtain ⟨rfl, rfl, rfl⟩ := hack
        exact ⟨hk, rfl⟩

/-- `dispatch_punch` only adds to `pending`. -/
theorem dispatchPunch_pending (ok : Bool) (stage : PunchStage) :
    (s.dispatchPunch relayAddr c ok stage).1.pending = (s.punchEvent c stage).apply s.pending := by
  cases stage with
  | lookup id =>
    simp only [dispatchPunch, punchEvent]
    cases s.registry.get id <;> rfl
  | push id reach =>
    cases reach with
    | udp addr => simp [dispatchPunch, sendUdp_eq, punchEvent, DispatchEvent.apply]
    | wsPush tx => rfl
  | insert id => rfl

theorem dispatchRelayAck_pending {t : Server} {pick : Option String}
    (h : s.dispatchRelayAck relayAddr pick = some t) :
    t.pending = (s.ackEvent pick).apply s.pending := by
  rcases dispatchRelayAck_eq h with ⟨rfl, -, rfl⟩ | ⟨k, requester, rfl, hk, rfl⟩
  · rfl
  · simp [ackEvent, hk, DispatchEvent.apply, send]

/-- Nothing but the dispatch helpers touches `pending`. -/
theorem pending_of_step (h : (machine relayAddr).step s a = some s') :
    s'.pending = (s.dispatchEvent a).elim s.pending fun e => e.apply s.pending := by
  cases effect_of_step h with
  | udp => exact (udp_frame s _ _ _).1
  | @tcpAck c pick t hp hack =>
    show t.pending = _
    exact dispatchRelayAck_pending hack
  | tcpIgnores hp hack =>
    rw [dispatchEvent_tcpFirst hack]
    rfl
  | tcpPunch hp =>
    rw [dispatchEvent_tcpPunch hp]
    exact dispatchPunch_pending ..
  | wsRegisters hconn hp hitem =>
    rw [dispatchEvent_wsReceive]
    · rfl
    · rintro pick rfl
      simp [Action.registers] at hitem
  | wsAck hconn hp hack => exact dispatchRelayAck_pending hack
  | wsIgnores hconn hp hitem hack =>
    rw [dispatchEvent_wsReceive hack]
    rfl
  | wsTurns hconn hp hitem hack =>
    rw [dispatchEvent_wsReceive hack]
    rfl
  | wsPunch hconn hp =>
    rw [dispatchEvent_wsPunch hconn hp]
    exact dispatchPunch_pending ..
  | wsCleanup =>
    rw [wsCleanup_eq]
    rfl
  | _ => rfl

/-! ## Outboxes -/

/-- The number of `RelayResponse`s put into the outbox of a connection. -/
def responses (s : Server) (c : ConnId) : Nat := (s.outbox c).relayResponses

theorem punchEvent_delivers (p : ConnId → Bool) (stage : PunchStage) :
    (s.punchEvent c stage).delivers p = false := by
  have hack := punchEvent_isAck (s := s) (c := c) stage
  cases he : s.punchEvent c stage with
  | answered k d delivered => simp [he, DispatchEvent.isAck] at hack
  | _ => rfl

/-- One outbox is given a channel with as many `RelayResponse`s. -/
theorem responses_of_outbox {d : ConnId} {ch : Channel}
    (h : s'.outbox = Function.update s.outbox d ch)
    (hch : ch.relayResponses = (s.outbox d).relayResponses) (c : ConnId) :
    s'.responses c = s.responses c := by
  unfold responses
  rw [h]
  by_cases hc : c = d
  · subst hc
    rw [Function.update_self, hch]
  · rw [Function.update_of_ne hc]

theorem responses_send {m : Outgoing} (hm : m.isRelayResponse = false) (d : ConnId) :
    (s.send d m).responses c = s.responses c :=
  responses_of_outbox rfl (by simp [Channel.relayResponses_send, hm]) c

theorem responses_tcpReturn (d : ConnId) : (s.tcpReturn d).responses c = s.responses c :=
  responses_of_outbox rfl (Channel.relayResponses_close _) c

theorem dispatchPunch_responses (ok : Bool) (stage : PunchStage) (d : ConnId) :
    (s.dispatchPunch relayAddr d ok stage).1.responses c = s.responses c := by
  cases stage with
  | lookup id =>
    simp only [dispatchPunch]
    split <;> rfl
  | push id reach =>
    cases reach with
    | udp addr => simp [dispatchPunch, sendUdp_eq, responses]
    | wsPush tx => exact responses_send rfl tx
  | insert id => rfl

theorem dispatchRelayAck_responses {t : Server} {pick : Option String}
    (h : s.dispatchRelayAck relayAddr pick = some t) :
    t.responses c = s.responses c + if (s.ackEvent pick).delivers (· = c) then 1 else 0 := by
  rcases dispatchRelayAck_eq h with ⟨rfl, -, rfl⟩ | ⟨k, requester, rfl, hk, rfl⟩
  · rfl
  · have hevent : s.ackEvent (some k) = .answered k requester (s.outbox requester).receiving := by
      simp [ackEvent, hk]
    rw [hevent]
    by_cases hc : c = requester
    · subst hc
      simp [responses, send, Channel.relayResponses_send, DispatchEvent.delivers,
        Outgoing.isRelayResponse]
    · have hne : ¬ requester = c := fun heq => hc heq.symm
      simp [responses, send, Function.update_of_ne hc, DispatchEvent.delivers, hne]

/-- Only an acknowledgement puts a `RelayResponse` into an outbox. -/
theorem responses_of_step (hs : WellFormed s) (h : (machine relayAddr).step s a = some s')
    (c : ConnId) :
    s'.responses c = s.responses c + (s.dispatchEvent a).toList.countP (·.delivers (· = c)) := by
  cases effect_of_step h with
  | udp => exact congrArg Channel.relayResponses (congrFun (udp_frame s _ _ _).2.1 c)
  | @tcpAck d pick t hp hack =>
    rw [responses_tcpReturn, dispatchRelayAck_responses hack]
    simp [dispatchEvent, List.countP_cons]
  | tcpIgnores hp hack =>
    rw [dispatchEvent_tcpFirst hack]
    exact responses_tcpReturn _
  | tcpPunch hp =>
    rw [dispatchEvent_tcpPunch hp]
    simp only [Option.toList_some, List.countP_singleton, punchEvent_delivers]
    exact dispatchPunch_responses ..
  | @tcpForward d hp =>
    have htake : ({ s with outbox := Function.update s.outbox d (s.outbox d).take } :
      Server).responses c =
        s.responses c := responses_of_outbox rfl (Channel.relayResponses_take _) c
    rw [responses_tcpReturn, htake]
    rfl
  | wsRegisters hconn hp hitem =>
    rw [dispatchEvent_wsReceive]
    · rfl
    · rintro pick rfl
      simp [Action.registers] at hitem
  | wsAck hconn hp hack =>
    rw [dispatchRelayAck_responses hack]
    simp [dispatchEvent, List.countP_cons]
  | wsIgnores hconn hp hitem hack =>
    rw [dispatchEvent_wsReceive hack]
    rfl
  | wsTurns hconn hp hitem hack =>
    rw [dispatchEvent_wsReceive hack]
    rfl
  | wsReply hconn hp => exact responses_send (hs.replies _ _ _ hconn hp) _
  | wsPunch hconn hp =>
    rw [dispatchEvent_wsPunch hconn hp]
    simp only [Option.toList_some, List.countP_singleton, punchEvent_delivers]
    exact dispatchPunch_responses ..
  | wsCleanup =>
    rw [wsCleanup_eq]
    rfl
  | @wsFinish d conn => exact responses_of_outbox (d := d) rfl (Channel.relayResponses_close _) c
  | @wsWrite d ok => exact responses_of_outbox (d := d) rfl (by cases ok <;> rfl) c
  | _ => rfl

variable (relayAddr) in
/-- The dispatch events of a run. -/
def events (s : Server) (as : List Action) : List DispatchEvent :=
  (machine relayAddr).journal dispatchEvent s as

/-- `pending` is what the events of the run make of it. -/
theorem pending_of_run {t : Server} {as : List Action}
    (hrun : (machine relayAddr).run s as = some t) :
    t.pending = (events relayAddr s as).foldl DispatchEvent.apply s.pending := by
  have hinv := (machine relayAddr).journal_invariant dispatchEvent (L := []) (s := s)
    (J := fun L u => u.pending = L.foldl DispatchEvent.apply s.pending)
    (fun L u a v hu hstep => by
      rw [pending_of_step hstep, List.foldl_append, ← hu]
      cases u.dispatchEvent a <;> rfl)
    rfl hrun
  exact hinv

/-- Every `RelayResponse` in an outbox is a delivered acknowledgement. -/
theorem responses_of_run {t : Server} {as : List Action} (hs : WellFormed s)
    (hrun : (machine relayAddr).run s as = some t) (c : ConnId) :
    t.responses c = s.responses c + (events relayAddr s as).countP (·.delivers (· = c)) := by
  have hinv := (machine relayAddr).journal_invariant dispatchEvent
    (J := fun L u => WellFormed u ∧ u.responses c = s.responses c + L.countP (·.delivers (· = c)))
    (fun L u a v ⟨hu, hcount⟩ hstep => by
      refine ⟨wellFormed_preserved relayAddr u a v hu hstep, ?_⟩
      rw [responses_of_step hu hstep, hcount, List.countP_append, Nat.add_assoc])
    (L := []) ⟨hs, rfl⟩ hrun
  exact hinv.2

end Steps

end Server

end XyzenRelay.Rendezvous
