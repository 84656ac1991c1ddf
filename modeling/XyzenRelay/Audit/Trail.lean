-- SUMMARY: The audit trail across both services: what a row of the log says about the rendezvous server, and which registrations leave no row.
import XyzenRelay.Audit.Auditor
import XyzenRelay.Control.Authorship
import XyzenRelay.Rendezvous.Accounts

/-!
# The audit trail

An event may be lost on its way, and its insert may fail. So the log need not tell the
whole story, but if the rendezvous server is the only one to post events, what it tells
has happened.
-/

namespace XyzenRelay.Audit

open Control (AuditRow Db Input Request Authorized)
open Rendezvous (Action ConnId Incoming SocketAddr Reachable Registered Punched Acknowledged)

/-- The address a registered peer registered from. -/
def origin (peerAddr : ConnId → SocketAddr) : Reachable → SocketAddr
  | .udp addr => addr
  | .wsPush c => peerAddr c

section Events

variable {peerAddr : ConnId → SocketAddr} {as : List Action} {a : Action} {ev : Event}

end Events

/-! ## What the rows say -/

section Rows

variable {peerAddr : ConnId → SocketAddr} {as : List Action} {auditor : Auditor}
  {url token : String} {s s' : Control.Server} {cs : List (Program.PoolAction Request Input)}

def viaNat (c : ConnId) : SocketAddr := ⟨"10.0.0.2", 40000 + c⟩

def registration : Action := .udp (some (.registerPeer "a")) ⟨"10.0.0.1", 5000⟩ true

def registrationEvent : Event := event "register" (some "a") ⟨"10.0.0.1", 5000⟩ "udp"

def registrationPost : Request :=
  { headers := [(Control.AUTHORIZATION, Control.asBytes "Bearer secret"),
      ("content-type", Control.asBytes "application/json")]
    route := .ingestAudit registrationEvent.body }

def posted : List (Program.PoolAction Request Input) :=
  [.accept 0 registrationPost, .run 0 (Control.quiet 1), .run 0 (Control.quiet 1)]

def stored : Control.Server :=
  ((Control.machine "secret").run (Control.machine "secret").init posted).getD
    (Control.machine "secret").init

end Rows

/-! ## What leaves no row -/

section Complete

variable {peerAddr : ConnId → SocketAddr} {as : List Action} {a : Action} {id : String}
  {c : ConnId} {reach : Reachable} {relayAddr : String} {t : Rendezvous.Server}

/-- The server has emitted such an event. -/
def EmittedIn (peerAddr : ConnId → SocketAddr) (as : List Action) (kind : String)
    (peerId : Option String) (addr : SocketAddr) : Prop :=
  ∃ a ∈ as, ∃ transport, emitted peerAddr a = some (event kind peerId addr transport)

theorem emitted_of_registers (peerAddr : ConnId → SocketAddr)
    (h : a.registers = some (id, reach)) :
    (∃ transport, emitted peerAddr a =
      some (event "register" (some id) (origin peerAddr reach) transport)) ∨
    ∃ c, reach = .wsPush c ∧ id ≠ "" ∧ a = .wsReceive c (.message (.registerPk id)) := by
  unfold Action.registers at h
  split at h
  · obtain ⟨rfl, rfl⟩ := Prod.mk.inj (Option.some.inj h)
    exact .inl ⟨_, rfl⟩
  · obtain ⟨rfl, rfl⟩ := Prod.mk.inj (Option.some.inj h)
    exact .inl ⟨_, rfl⟩
  · next c id' =>
    split_ifs at h with hid
    obtain ⟨rfl, rfl⟩ := Prod.mk.inj (Option.some.inj h)
    exact .inr ⟨c, rfl, hid, rfl⟩
  · simp at h

theorem emitted_of_punched (h : Punched as c id) :
    EmittedIn peerAddr as "punch_request" (some id) (peerAddr c) := by
  obtain ⟨a, ha, hpunches⟩ := h
  refine ⟨a, ha, ?_⟩
  unfold Action.punches at hpunches
  split at hpunches
  · obtain ⟨rfl, rfl⟩ := Prod.mk.inj (Option.some.inj hpunches)
    exact ⟨_, rfl⟩
  · obtain ⟨rfl, rfl⟩ := Prod.mk.inj (Option.some.inj hpunches)
    exact ⟨_, rfl⟩
  · simp at hpunches

theorem emitted_of_acknowledged (h : Acknowledged as) :
    ∃ d, EmittedIn peerAddr as "relay_ack" none (peerAddr d) := by
  obtain ⟨a, ha, ⟨d, pick, rfl⟩ | ⟨d, pick, rfl⟩⟩ := h
  · exact ⟨d, _, ha, _, rfl⟩
  · exact ⟨d, _, ha, _, rfl⟩

/-- Only a requester is told of an acknowledgement. -/
theorem asked_relayResponse {o : Rendezvous.Output} {server : String}
    (h : Rendezvous.Asked relayAddr as o)
    (ho : o = { dest := .conn c, message := .relayResponse server }) :
    (∃ id, Punched as c id) ∧ Acknowledged as := by
  cases h with
  | registration ha hdue =>
    have hreg := Action.due_isRegistration hdue
    simp [ho, Rendezvous.Outgoing.isRegistration] at hreg
  | request hr hp => simp at ho
  | response hp hr hack =>
    obtain ⟨⟨rfl⟩, -⟩ := Rendezvous.Output.mk.inj ho
    exact ⟨⟨_, hp⟩, hack⟩

/-- In every run an id is registered with an event that tells from where, or by the
    `RegisterPk` of a WS connection, which emits none. Whoever is given a `RelayResponse`
    has an event for a punch of theirs, and somebody has one for an acknowledgement. -/
theorem trail_complete
    (hrun : (Rendezvous.Server.machine relayAddr).run
      (Rendezvous.Server.machine relayAddr).init as = some t) :
    (∀ id reach, t.registry.get id = some reach →
      EmittedIn peerAddr as "register" (some id) (origin peerAddr reach) ∨
        ∃ c, reach = .wsPush c ∧ id ≠ "" ∧ .wsReceive c (.message (.registerPk id)) ∈ as) ∧
    ∀ c server, .relayResponse server ∈ (t.outbox c).messages →
      (∃ id, EmittedIn peerAddr as "punch_request" (some id) (peerAddr c)) ∧
        ∃ d, EmittedIn peerAddr as "relay_ack" none (peerAddr d) := by
  obtain ⟨htraced, hasked⟩ := Rendezvous.Server.traced_of_run hrun
  have hshows := Rendezvous.Server.shows_of_run hrun
  refine ⟨fun id reach hget => ?_, fun c server hm => ?_⟩
  · obtain ⟨a, ha, hregisters⟩ := htraced.registry id reach hget
    rcases emitted_of_registers peerAddr hregisters with hemitted | ⟨c, hc, hid, rfl⟩
    · exact .inl ⟨a, ha, hemitted⟩
    · exact .inr ⟨c, hc, hid, ha⟩
  · obtain ⟨o, ho, hout⟩ := List.mem_filterMap.mp ((hshows.outbox c).subset hm)
    obtain ⟨⟨id, hp⟩, hack⟩ :=
      asked_relayResponse (hasked o ho) (Rendezvous.Output.outbox?_eq_some.mp hout)
    exact ⟨⟨id, emitted_of_punched hp⟩, emitted_of_acknowledged hack⟩

theorem trail_complete_udpPunch :
    (∀ id reach, Rendezvous.Server.udpPunched.registry.get id = some reach →
      EmittedIn viaNat Rendezvous.Server.udpPunchRun "register" (some id) (origin viaNat reach) ∨
        ∃ c, reach = .wsPush c ∧ id ≠ "" ∧
          .wsReceive c (.message (.registerPk id)) ∈ Rendezvous.Server.udpPunchRun) ∧
    ∀ c server, .relayResponse server ∈ (Rendezvous.Server.udpPunched.outbox c).messages →
      (∃ id, EmittedIn viaNat Rendezvous.Server.udpPunchRun "punch_request" (some id) (viaNat c)) ∧
        ∃ d, EmittedIn viaNat Rendezvous.Server.udpPunchRun "relay_ack" none (viaNat d) :=
  trail_complete ((Rendezvous.Server.machine "relay").run_getD Rendezvous.Server.udpPunchRun
    (by decide +kernel))

end Complete

end XyzenRelay.Audit
