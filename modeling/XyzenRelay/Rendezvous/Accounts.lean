-- SUMMARY: Accounting for what the rendezvous server sends: registrations are answered one by one and in order, and nobody makes it send more messages than they have sent it.
import XyzenRelay.Rendezvous.Provenance

/-!
# Accounts

The server keeps no balance, so the books are kept here. A received message causes at
most one message, at once or through the duty it leaves behind.
-/

namespace XyzenRelay.Rendezvous

def Outgoing.isRegistration : Outgoing → Bool
  | .registerPeerResponse _ | .registerPkResponse _ _ => true
  | .requestRelay _ | .relayResponse _ => false

/-- The response that is still to be pushed. -/
def Duty.inHand : Duty → List Outgoing
  | .reply m => [m]
  | _ => []

theorem Action.due_isRegistration {a : Action} {o : Output} (h : a.due = some o) :
    o.message.isRegistration = true := by
  unfold due at h
  split at h
  · exact Output.eq_of_sent h ▸ rfl
  · exact Output.eq_of_sent h ▸ rfl
  · exact Option.some.inj h ▸ rfl
  · exact Option.some.inj h ▸ rfl
  · cases h

theorem Action.due_of_punches {a : Action} {r : ConnId × String} (h : a.punches = some r) :
    a.due = none := by
  unfold punches at h
  split at h
  · rfl
  · rfl
  · simp at h

/-- The responses due on one connection, in order. -/
def dueOn (c : ConnId) (as : List Action) : List Outgoing :=
  as.filterMap fun a => a.due.bind (Output.outbox? c)

/-- The responses due for datagrams, in order. -/
def dueByUdp (as : List Action) : List (Outgoing × SocketAddr) :=
  as.filterMap fun a => a.due.bind Output.datagram?

theorem dueOn_concat (c : ConnId) (as : List Action) (a : Action) :
    dueOn c (as ++ [a]) = dueOn c as ++ (a.due.bind (Output.outbox? c)).toList := by
  unfold dueOn
  rw [List.filterMap_append, List.filterMap_cons, List.filterMap_nil]
  cases a.due.bind (Output.outbox? c) <;> rfl

theorem dueByUdp_concat (as : List Action) (a : Action) :
    dueByUdp (as ++ [a]) = dueByUdp as ++ (a.due.bind Output.datagram?).toList := by
  unfold dueByUdp
  rw [List.filterMap_append, List.filterMap_cons, List.filterMap_nil]
  cases a.due.bind Output.datagram? <;> rfl

/-- Who the step is taken for: the sender of the datagram, or the connection. -/
def Action.source : Action → Option Endpoint
  | .udp _ addr _ => some (.udp addr)
  | a => a.handler.map .conn

namespace Server

variable {relayAddr : String} {s s' t : Server} {a : Action} {as : List Action} {c : ConnId}

/-! ## Responses to registrations -/

/-- A response is sent where it falls due, or is what a WS handler had in hand. -/
theorem output_response {o : Output} (ho : s.output relayAddr a = some o)
    (hm : o.message.isRegistration = true) :
    (a.due = some o ∧ ∃ addr, o.dest = .udp addr) ∨
      ∃ c, a = .wsReply c ∧ o.dest = .conn c ∧ s.duty c = .reply o.message := by
  have hack : ∀ pick, s.ackOutput relayAddr pick ≠ some o := by
    intro pick hack
    obtain ⟨requester, -, rfl⟩ := Option.map_eq_some_iff.mp hack
    simp [Outgoing.isRegistration] at hm
  have hpunch : ∀ ok stage, punchOutput relayAddr ok stage ≠ some o := by
    intro ok stage hout
    cases stage with
    | push id reach =>
      obtain rfl := Output.eq_of_sent hout
      simp [Outgoing.isRegistration] at hm
    | lookup id => simp [punchOutput] at hout
    | insert id => simp [punchOutput] at hout
  unfold output at ho
  split at ho
  · exact .inl ⟨ho, _, congrArg Output.dest (Output.eq_of_sent ho)⟩
  · exact .inl ⟨ho, _, congrArg Output.dest (Output.eq_of_sent ho)⟩
  · exact absurd ho (hack _)
  · split at ho
    · exact absurd ho (hpunch _ _)
    · simp at ho
  · exact absurd ho (hack _)
  · split at ho
    · next c _ m myId hconn =>
      obtain rfl := Option.some.inj ho
      exact .inr ⟨_, rfl, rfl, duty_ws hconn⟩
    · simp at ho
  · split at ho
    · exact absurd ho (hpunch _ _)
    · simp at ho
  · simp at ho

/-- A datagram that registers is answered at once, if the socket takes the answer. -/
theorem output_of_due {o : Output} {addr : SocketAddr} (h : a.due = some o)
    (ho : o.dest = .udp addr) : s.output relayAddr a = some o := by
  unfold Action.due at h
  split at h
  · exact h
  · exact h
  · simp [← Option.some.inj h] at ho
  · simp [← Option.some.inj h] at ho
  · cases h

theorem responses_udp (s : Server) (a : Action) :
    (((s.output relayAddr a).toList.filterMap Output.datagram?).filter fun d =>
      d.1.isRegistration) = (a.due.bind Output.datagram?).toList := by
  cases hdue : a.due.bind Output.datagram? with
  | some d =>
    obtain ⟨m, addr⟩ := d
    obtain ⟨o, ho, hdatagram⟩ := Option.bind_eq_some_iff.mp hdue
    have hreg := Action.due_isRegistration ho
    obtain rfl := Output.datagram?_eq_some.mp hdatagram
    rw [output_of_due ho rfl]
    simpa [Output.datagram?] using hreg
  | none =>
    rw [Option.toList_none, List.filter_eq_nil_iff]
    rintro ⟨m, addr⟩ hd hreg
    obtain ⟨o, ho, hdatagram⟩ := List.mem_filterMap.mp hd
    obtain rfl := Output.datagram?_eq_some.mp hdatagram
    rcases output_response (Option.mem_toList.mp ho) hreg with ⟨hnow, -⟩ | ⟨c, -, hdest, -⟩
    · simp [hnow, Output.datagram?] at hdue
    · simp at hdest

/-- Everything in hand is a response to a registration. -/
theorem isRegistration_of_reply (hs : Traced as s) {m : Outgoing} (h : s.duty c = .reply m) :
    m.isRegistration = true := by
  have htraced := hs.duty c
  rw [h] at htraced
  obtain ⟨a, -, hdue⟩ := htraced
  exact Action.due_isRegistration hdue

theorem output_replied (h : (machine relayAddr).step s (.wsReply c) = some s') {m : Outgoing}
    (hreply : s.duty c = .reply m) :
    s.output relayAddr (.wsReply c) = some { dest := .conn c, message := m } := by
  cases effect_of_step h with
  | wsReply hconn hp =>
    rw [duty_ws hconn, hp] at hreply
    obtain rfl := Duty.reply.inj hreply
    exact output_wsReply hconn hp

/-- A handler sends what it has in hand before it reads on. -/
theorem responses_conn (hwf : WellFormed s) (hs : Traced as s)
    (h : (machine relayAddr).step s a = some s') (c : ConnId) :
    (((s.output relayAddr a).toList.filterMap (Output.outbox? c)).filter Outgoing.isRegistration) ++
        (s'.duty c).inHand =
      (s.duty c).inHand ++ (a.due.bind (Output.outbox? c)).toList := by
  have hnone : a ≠ .wsReply c →
      ((s.output relayAddr a).toList.filterMap (Output.outbox? c)).filter
        Outgoing.isRegistration = [] := by
    intro hne
    rw [List.filter_eq_nil_iff]
    intro m hm hreg
    obtain ⟨o, ho, hout⟩ := List.mem_filterMap.mp hm
    obtain rfl := Output.outbox?_eq_some.mp hout
    rcases output_response (Option.mem_toList.mp ho) hreg with ⟨-, addr, hdest⟩ | ⟨d, rfl, hd, -⟩
    · simp at hdest
    · exact hne (by simpa using hd.symm)
  have hdue : (∀ m, a.due ≠ some { dest := .conn c, message := m }) →
      a.due.bind (Output.outbox? c) = none := by
    intro hno
    rw [Option.bind_eq_none_iff]
    intro o ho
    rw [Option.eq_none_iff_forall_not_mem]
    intro m hm
    exact hno m (Output.outbox?_eq_some.mp hm ▸ ho)
  cases dutyMove_of_step hwf h c with
  | kept h' hspares =>
    rw [hnone fun ha => hspares.serves (.inl ha), hdue hspares.due, h']
    simp
  | @registered m hfree ha h' =>
    rw [hnone (by rintro rfl; simp [Action.due] at ha), hfree, h', ha]
    simp [Duty.inHand, Output.outbox?]
  | @requested id hfree ha h' =>
    have hno := Action.due_of_punches ha
    rw [hnone (by rintro rfl; simp [Action.punches] at ha), hfree, h', hno]
    rfl
  | @replied m hreply ha h' =>
    subst ha
    have hreg := isRegistration_of_reply hs hreply
    rw [output_replied h hreply, hreply, h']
    simp [Duty.inHand, Output.outbox?, Action.due, hreg]
  | @advanced ok stage hpunch ha h' =>
    have hno : a.due = none := by rcases ha with rfl | rfl <;> rfl
    rw [hnone (by rcases ha with rfl | rfl <;> simp), hpunch, h', hno]
    cases (s.dispatchPunch relayAddr c ok stage).2 <;> rfl

/-- The journal of a run, and what is in hand, hold the responses due. -/
theorem registrations_of_run (hrun : (machine relayAddr).run (machine relayAddr).init as = some t) :
    (((outputs relayAddr (machine relayAddr).init as).filterMap Output.datagram?).filter fun d =>
        d.1.isRegistration) = dueByUdp as ∧
      ∀ c, (((outputs relayAddr (machine relayAddr).init as).filterMap (Output.outbox? c)).filter
        Outgoing.isRegistration) ++ (t.duty c).inHand = dueOn c as := by
  induction as using List.reverseRecOn generalizing t with
  | nil =>
    simp only [Machine.run_nil, Option.some.injEq] at hrun
    subst hrun
    exact ⟨rfl, fun c => rfl⟩
  | append_singleton as a ih =>
    obtain ⟨u, hu, hstep⟩ := (machine relayAddr).run_concat.mp hrun
    obtain ⟨hudp, hconn⟩ := ih hu
    have hwf := wellFormed_reachable relayAddr ⟨as, hu⟩
    have hjournal : outputs relayAddr (machine relayAddr).init (as ++ [a]) =
        outputs relayAddr (machine relayAddr).init as ++ (u.output relayAddr a).toList :=
      (machine relayAddr).journal_concat (output relayAddr) hu hstep
    rw [hjournal]
    simp only [List.filterMap_append, List.filter_append]
    refine ⟨?_, fun c => ?_⟩
    · rw [responses_udp, hudp, dueByUdp_concat]
    · rw [List.append_assoc, responses_conn hwf (traced_of_run hu).1 hstep c, ← List.append_assoc,
        hconn c, dueOn_concat]

/-- Every registration over UDP or WS is answered once and in order, over UDP unless the socket
    refuses the answer. A WS handler may have the last response due in its hand, and a
    connection that is gone misses what comes after. -/
theorem registrations_answered
    (hrun : (machine relayAddr).run (machine relayAddr).init as = some t) :
    (t.udpOut.filter fun d => d.1.isRegistration) = dueByUdp as ∧
      ∀ c, (t.outbox c).messages.filter Outgoing.isRegistration <+: dueOn c as ∧
        ((t.outbox c).receiving = true →
          (t.outbox c).messages.filter Outgoing.isRegistration ++ (t.duty c).inHand =
            dueOn c as) := by
  obtain ⟨hudp, hconn⟩ := registrations_of_run hrun
  have hshows := shows_of_run hrun
  refine ⟨by rw [hshows.udp, hudp], fun c => ⟨?_, fun hr => ?_⟩⟩
  · rw [← hconn c]
    exact ((hshows.outbox c).filter _).trans (List.prefix_append _ _)
  · rw [hshows.receiving c hr, hconn c]

/-- Registrations over both transports. The socket refuses the first answer, and the last
    registration is not answered yet. -/
def registrationsRun : List Action :=
  [.udp (some (.registerPk "a")) ⟨"10.0.0.1", 5000⟩ false, .wsAccept,
    .wsReceive 0 (.message (.registerPeer "b")),
    .udp (some (.registerPeer "a")) ⟨"10.0.0.1", 5000⟩ true, .wsReply 0, .wsReceive 0 .ignored,
    .wsReceive 0 (.message (.registerPk ""))]

def registrations : Server := ((machine "relay").run (machine "relay").init registrationsRun).getD
  init

theorem registrations_answered_both :
    dueOn 0 registrationsRun = [.registerPeerResponse false, .registerPkResponse 0 0] ∧
      (registrations.udpOut.filter fun d => d.1.isRegistration) = dueByUdp registrationsRun ∧
      ∀ c, (registrations.outbox c).messages.filter Outgoing.isRegistration <+:
          dueOn c registrationsRun ∧
        ((registrations.outbox c).receiving = true →
          (registrations.outbox c).messages.filter Outgoing.isRegistration ++
            (registrations.duty c).inHand = dueOn c registrationsRun) :=
  ⟨by decide,
    registrations_answered ((machine "relay").run_getD registrationsRun (by decide +kernel))⟩

/-! ## Who causes a message -/

end Server

end XyzenRelay.Rendezvous
