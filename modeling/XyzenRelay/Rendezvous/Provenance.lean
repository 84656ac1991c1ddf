-- SUMMARY: Why the rendezvous server sends what it sends: every message was asked for, registrations are answered one by one in order, and nobody causes more messages than they have sent.
import XyzenRelay.Rendezvous.Duties
import XyzenRelay.Rendezvous.Registrations
import XyzenRelay.Rendezvous.Stranded

/-!
# Provenance

The server looks at no sender: whoever knows an id may register it or punch it. What it
does guarantee is that nothing is sent out of nowhere. Every message goes to somebody who
asked for it, or who has registered an id that somebody else has punched.
-/

namespace XyzenRelay.Rendezvous

/-- Somebody has registered the id to be reached so. -/
def Registered (as : List Action) (id : String) (reach : Reachable) : Prop :=
  ∃ a ∈ as, a.registers = some (id, reach)

/-- The connection has punched the id. -/
def Punched (as : List Action) (c : ConnId) (id : String) : Prop :=
  ∃ a ∈ as, a.punches = some (c, id)

/-- Some peer has acknowledged. -/
def Acknowledged (as : List Action) : Prop :=
  ∃ a ∈ as, (∃ c pick, a = .tcpFirst c (some (.relayResponse pick))) ∨
    ∃ c pick, a = .wsReceive c (.message (.relayResponse pick))

/-- Why a message is sent. -/
inductive Asked (relayAddr : String) (as : List Action) : Output → Prop where
  | registration {a : Action} {o : Output} (ha : a ∈ as) (ho : a.due = some o) :
    Asked relayAddr as o
  | request {id : String} {reach : Reachable} {requester : ConnId} (hr : Registered as id reach)
      (hp : Punched as requester id) :
    Asked relayAddr as { dest := reach.endpoint, message := .requestRelay relayAddr }
  | response {id : String} {reach : Reachable} {requester : ConnId} (hp : Punched as requester id)
      (hr : Registered as id reach) (hack : Acknowledged as) :
    Asked relayAddr as { dest := .conn requester, message := .relayResponse relayAddr }

section Append

variable {relayAddr : String} {as : List Action} {a : Action} {id : String} {c : ConnId}

theorem Registered.append {reach : Reachable} (h : Registered as id reach) :
    Registered (as ++ [a]) id reach :=
  h.imp fun _ hb => ⟨List.mem_append_left _ hb.1, hb.2⟩

theorem Punched.append (h : Punched as c id) : Punched (as ++ [a]) c id :=
  h.imp fun _ hb => ⟨List.mem_append_left _ hb.1, hb.2⟩

theorem Asked.append {o : Output} (h : Asked relayAddr as o) : Asked relayAddr (as ++ [a]) o := by
  cases h with
  | registration hb ho => exact .registration (List.mem_append_left _ hb) ho
  | request hr hp => exact .request hr.append hp.append
  | response hp hr hack =>
    exact .response hp.append hr.append (hack.imp fun _ hb => ⟨List.mem_append_left _ hb.1, hb.2⟩)

theorem mem_concat_self (as : List Action) (a : Action) : a ∈ as ++ [a] :=
  List.mem_append_right _ (List.mem_singleton_self a)

end Append

/-- Why a duty is there. -/
def Duty.Traced (as : List Action) (c : ConnId) : Duty → Prop
  | .free => True
  | .reply m => ∃ a ∈ as, a.due = some { dest := .conn c, message := m }
  | .punch (.lookup id) => Punched as c id
  | .punch (.push id reach) => Punched as c id ∧ Registered as id reach
  | .punch (.insert id) => Punched as c id ∧ ∃ reach, Registered as id reach

theorem Duty.Traced.append {d : Duty} {as : List Action} {a : Action} {c : ConnId}
    (h : d.Traced as c) : d.Traced (as ++ [a]) c := by
  cases d with
  | free => trivial
  | reply m => exact h.imp fun _ hb => ⟨List.mem_append_left _ hb.1, hb.2⟩
  | punch stage =>
    cases stage with
    | lookup id => exact Punched.append h
    | push id reach => exact ⟨h.1.append, h.2.append⟩
    | insert id => exact ⟨h.1.append, h.2.imp fun _ hr => hr.append⟩

namespace Server

variable {relayAddr : String} {s s' : Server} {a : Action} {as : List Action}

/-- Everything the server remembers goes back to what it was sent. -/
structure Traced (as : List Action) (s : Server) : Prop where
  registry : ∀ id reach, s.registry.get id = some reach → Registered as id reach
  pending : ∀ id c, s.pending.lookup id = some c → Punched as c id ∧ ∃ reach, Registered as id reach
  duty : ∀ c, (s.duty c).Traced as c

theorem duty_of_punching (hwf : WellFormed s) {c : ConnId} {stage : PunchStage}
    (h : s.Punching c stage) : s.duty c = .punch stage := by
  rcases h with htcp | ⟨conn, hconn, hp⟩
  · exact duty_tcp hwf htcp
  · rw [duty_ws hconn, hp]
    rfl

theorem traced_replying (hs : Traced as s) {c : ConnId} {conn : WsConn} {m : Outgoing}
    (hconn : s.ws c = some conn) (hp : conn.phase = .replying m) :
    ∃ a ∈ as, a.due = some { dest := .conn c, message := m } := by
  have htraced := hs.duty c
  rw [duty_ws hconn, hp] at htraced
  exact htraced

/-- A punch only goes on with what it has looked up. -/
theorem traced_advanced (hs : Traced as s) {c : ConnId} {ok : Bool} {stage : PunchStage}
    (h : s.duty c = .punch stage) :
    ((s.dispatchPunch relayAddr c ok stage).2.elim Duty.free .punch).Traced as c := by
  have htraced := hs.duty c
  rw [h] at htraced
  cases stage with
  | lookup id =>
    simp only [dispatchPunch]
    split
    · trivial
    · next reach hget => exact ⟨htraced, hs.registry id reach hget⟩
  | push id reach =>
    have hinsert : Duty.Traced as c (.punch (.insert id)) := ⟨htraced.1, reach, htraced.2⟩
    cases reach with
    | udp addr => exact hinsert
    | wsPush tx => exact hinsert
  | insert id => trivial

theorem traced_step (hwf : WellFormed s) (hs : Traced as s)
    (h : (machine relayAddr).step s a = some s') : Traced (as ++ [a]) s' where
  registry := by
    intro id reach hget
    by_cases hclean : ∃ c, a = .wsCleanup c
    · obtain ⟨c, rfl⟩ := hclean
      exact (hs.registry id reach (get_of_get_cleanup h hget)).append
    · rcases get_cases_of_step h (fun c ha => hclean ⟨c, ha⟩) hget with hget | hreg
      · exact (hs.registry id reach hget).append
      · exact ⟨a, mem_concat_self as a, hreg⟩
  pending := by
    intro id c hlookup
    rcases lookup_of_step h hlookup with hinsert | hlookup
    · have htraced := hs.duty c
      rw [duty_of_punching hwf (punchStep_of_inserted hinsert).punching] at htraced
      exact ⟨htraced.1.append, htraced.2.imp fun _ hr => hr.append⟩
    · obtain ⟨hp, reach, hr⟩ := hs.pending id c hlookup
      exact ⟨hp.append, reach, hr.append⟩
  duty := by
    intro c
    have htraced := hs.duty c
    cases dutyMove_of_step hwf h c with
    | kept h' => rw [h']; exact htraced.append
    | registered hfree ha h' =>
      rw [h']
      exact ⟨a, mem_concat_self as a, ha⟩
    | requested hfree ha h' =>
      rw [h']
      exact ⟨a, mem_concat_self as a, ha⟩
    | replied hreply ha h' =>
      rw [h']
      trivial
    | advanced hpunch ha h' =>
      rw [h']
      exact (traced_advanced hs hpunch).append

/-- What a step sends was asked for by then. -/
theorem asked_of_output (hwf : WellFormed s) (hs : Traced as s) {o : Output}
    (ho : s.output relayAddr a = some o) : Asked relayAddr (as ++ [a]) o := by
  have hack : ∀ pick, s.ackOutput relayAddr pick = some o → Acknowledged (as ++ [a]) →
      Asked relayAddr (as ++ [a]) o := by
    intro pick hack hacknowledged
    obtain ⟨requester, hpick, rfl⟩ := Option.map_eq_some_iff.mp hack
    obtain ⟨k, -, hlookup⟩ := Option.bind_eq_some_iff.mp hpick
    obtain ⟨hp, reach, hr⟩ := hs.pending k requester hlookup
    exact .response hp.append hr.append hacknowledged
  have hpunch : ∀ c ok stage, s.Punching c stage → punchOutput relayAddr ok stage = some o →
      Asked relayAddr (as ++ [a]) o := by
    intro c ok stage hpunching hout
    have htraced := hs.duty c
    rw [duty_of_punching hwf hpunching] at htraced
    cases stage with
    | push id reach =>
      obtain rfl := Output.eq_of_sent hout
      exact .request htraced.2.append htraced.1.append
    | lookup id => simp [punchOutput] at hout
    | insert id => simp [punchOutput] at hout
  have hself := mem_concat_self as a
  unfold output at ho
  split at ho
  · exact .registration hself ho
  · exact .registration hself ho
  · exact hack _ ho ⟨_, hself, .inl ⟨_, _, rfl⟩⟩
  · split at ho
    · next stage hp => exact hpunch _ _ stage (.inl hp) ho
    · simp at ho
  · exact hack _ ho ⟨_, hself, .inr ⟨_, _, rfl⟩⟩
  · split at ho
    · next m myId hconn =>
      obtain rfl := Option.some.inj ho
      obtain ⟨b, hb, hdue⟩ := traced_replying hs hconn rfl
      exact .registration (List.mem_append_left _ hb) hdue
    · simp at ho
  · split at ho
    · next stage myId hconn => exact hpunch _ _ stage (.inr ⟨_, hconn, rfl⟩) ho
    · simp at ho
  · simp at ho

theorem traced_of_run {t : Server}
    (hrun : (machine relayAddr).run (machine relayAddr).init as = some t) :
    Traced as t ∧ ∀ o ∈ outputs relayAddr (machine relayAddr).init as, Asked relayAddr as o := by
  induction as using List.reverseRecOn generalizing t with
  | nil =>
    simp only [Machine.run_nil, Option.some.injEq] at hrun
    subst hrun
    refine ⟨⟨fun id reach h => ?_, fun id c h => ?_, fun c => trivial⟩, by simp [outputs]⟩
    · simp [machine, init, PeerRegistry.get] at h
    · simp [machine, init] at h
  | append_singleton as a ih =>
    obtain ⟨u, hu, hstep⟩ := (machine relayAddr).run_concat.mp hrun
    obtain ⟨htraced, hasked⟩ := ih hu
    have hwf := wellFormed_reachable relayAddr ⟨as, hu⟩
    refine ⟨traced_step hwf htraced hstep, fun o ho => ?_⟩
    rw [outputs, (machine relayAddr).journal_concat (output relayAddr) hu hstep] at ho
    rcases List.mem_append.mp ho with ho | ho
    · exact (hasked o ho).append
    · exact asked_of_output hwf htraced (Option.mem_toList.mp ho)

/-- In every run, each datagram the server has sent and each message it has put into an
    outbox was asked for: it answers a registration of its receiver, it carries a punch of
    an id that its receiver had registered, or it tells its receiver, who had punched an
    id, that somebody has acknowledged. -/
theorem sent_was_asked {t : Server}
    (hrun : (machine relayAddr).run (machine relayAddr).init as = some t) :
    (∀ m addr, (m, addr) ∈ t.udpOut → Asked relayAddr as { dest := .udp addr, message := m }) ∧
      ∀ c, ∀ m ∈ (t.outbox c).messages,
        Asked relayAddr as { dest := .conn c, message := m } := by
  have hasked := (traced_of_run hrun).2
  have hshows := shows_of_run hrun
  refine ⟨fun m addr hm => ?_, fun c m hm => ?_⟩
  · rw [hshows.udp] at hm
    obtain ⟨o, ho, hdatagram⟩ := List.mem_filterMap.mp hm
    exact Output.datagram?_eq_some.mp hdatagram ▸ hasked o ho
  · obtain ⟨o, ho, hout⟩ := List.mem_filterMap.mp ((hshows.outbox c).subset hm)
    exact Output.outbox?_eq_some.mp hout ▸ hasked o ho

/-- A peer registers over UDP, connection 0 punches it over TCP, and it acknowledges. -/
def udpPunchRun : List Action :=
  [.udp (some (.registerPeer "a")) ⟨"10.0.0.1", 5000⟩ true, .tcpAccept,
    .tcpFirst 0 (some (.punchHoleRequest "a")), .tcpPunch 0 true, .tcpPunch 0 true,
    .tcpPunch 0 true, .tcpAccept, .tcpFirst 1 (some (.relayResponse (some "a")))]

def udpPunched : Server := ((machine "relay").run (machine "relay").init udpPunchRun).getD init

theorem sent_was_asked_udpPunch :
    udpPunched.udpOut = [(.registerPeerResponse false, ⟨"10.0.0.1", 5000⟩),
        (.requestRelay "relay", ⟨"10.0.0.1", 5000⟩)] ∧
      (udpPunched.outbox 0).messages = [.relayResponse "relay"] ∧
      (∀ m addr, (m, addr) ∈ udpPunched.udpOut →
        Asked "relay" udpPunchRun { dest := .udp addr, message := m }) ∧
      ∀ c, ∀ m ∈ (udpPunched.outbox c).messages,
        Asked "relay" udpPunchRun { dest := .conn c, message := m } :=
  ⟨by decide +kernel, by decide +kernel,
    sent_was_asked ((machine "relay").run_getD udpPunchRun (by decide +kernel))⟩

end Server

end XyzenRelay.Rendezvous
