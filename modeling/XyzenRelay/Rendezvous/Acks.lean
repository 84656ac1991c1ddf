-- SUMMARY: An acknowledgement answers the requester of its own target exactly as long as no other target's requester is pending.
import XyzenRelay.Rendezvous.Effect

/-!
# Relay acknowledgements

`pending` is keyed by target id, but `dispatch_relay_ack` is not told who
acknowledged: it takes whatever key the map yields first. An acknowledgement is
therefore correlated with its target only while the map holds no other key.
-/

namespace XyzenRelay.Rendezvous

namespace Server

variable (relayAddr : String)

/-! ## What an acknowledgement does -/

/-- Any pending entry can be the one that is picked. -/
theorem dispatchRelayAck_of_pending {s : Server} {k : String} {requester : ConnId}
    (h : s.pending.lookup k = some requester) :
    s.dispatchRelayAck relayAddr (some k) =
      some ({ s with pending := s.pending.erase k }.send requester (.relayResponse relayAddr)) := by
  simp [dispatchRelayAck, h]

/-! ## Correlation -/

/-- An acknowledgement from the target touches nothing but the target's own entry. -/
structure Correlated (s : Server) (target : String) (s' : Server) : Prop where
  /-- No requester waiting for another target is removed. -/
  others : ∀ k, k ≠ target → s'.pending.lookup k = s.pending.lookup k
  /-- Only the requester waiting for the target is answered. -/
  answered : ∀ c, s'.outbox c ≠ s.outbox c → s.pending.lookup target = some c
  /-- Without such a requester nothing happens. -/
  silent : s.pending.lookup target = none → s'.pending = s.pending ∧ s'.outbox = s.outbox

/-- Whatever key the map yields, the acknowledgement is correlated with every id its
    connection is registered as. -/
def AckCorrelated (s : Server) : Action → Prop
  | .wsReceive c (.message (.relayResponse _)) =>
    ∀ target, s.registry.get target = some (.wsPush c) → ∀ pick s',
      (machine relayAddr).step s (.wsReceive c (.message (.relayResponse pick))) = some s' →
        Correlated s target s'
  | _ => True

/-- When the acknowledgement of a target arrives, no other target has a pending
    requester. -/
def OnlyOwnPending (s : Server) : Action → Prop
  | .wsReceive c (.message (.relayResponse _)) =>
    ∀ target, s.registry.get target = some (.wsPush c) → ∀ k ∈ s.pending, k = target
  | _ => True

/-- With no other key in the map the picked key is the target's. -/
theorem correlated_of_only {s s' : Server} {target : String} {pick : Option String}
    (honly : ∀ k ∈ s.pending, k = target) (h : s.dispatchRelayAck relayAddr pick = some s') :
    Correlated s target s' := by
  rcases dispatchRelayAck_eq h with ⟨-, -, rfl⟩ | ⟨k, requester, -, hk, rfl⟩
  · exact ⟨fun _ _ => rfl, fun c hc => absurd rfl hc, fun _ => ⟨rfl, rfl⟩⟩
  · obtain rfl : k = target := honly k (AList.lookup_isSome.mp (by simp [hk]))
    constructor
    case others =>
      intro k' hne
      exact AList.lookup_erase_ne hne
    case answered =>
      intro c hc
      have heq : c = requester := by
        by_contra hne
        exact hc (Function.update_of_ne hne ..)
      rw [heq, hk]
    case silent =>
      intro hnone
      rw [hnone] at hk
      simp at hk

/-- A foreign key in the map can be picked, and its requester is lost. -/
theorem not_correlated_of_foreign {s : Server} {target k : String} (hk : k ∈ s.pending)
    (hne : k ≠ target) :
    ∃ s', s.dispatchRelayAck relayAddr (some k) = some s' ∧ ¬ Correlated s target s' := by
  obtain ⟨requester, hlookup⟩ := Option.isSome_iff_exists.mp (AList.lookup_isSome.mpr hk)
  refine ⟨_, dispatchRelayAck_of_pending relayAddr hlookup, fun hs' => ?_⟩
  have hkept := hs'.others k hne
  rw [hlookup] at hkept
  simp [send] at hkept

/-- A WS handler dispatches an acknowledgement only while it reads. -/
theorem step_relayResponse {s s' : Server} {c : ConnId} {pick : Option String}
    (h : (machine relayAddr).step s (.wsReceive c (.message (.relayResponse pick))) = some s')
    (pick' : Option String) :
    (machine relayAddr).step s (.wsReceive c (.message (.relayResponse pick'))) =
      s.dispatchRelayAck relayAddr pick' := by
  simp only [machine, step, wsReceive] at h ⊢
  split at h
  · next conn hconn =>
    split at h
    · simp
    · simp at h
  · simp at h

/-- Throughout a run the acknowledgements are correlated, whatever the map yields,
    exactly when none arrives while a requester of another target is pending. -/
theorem ackCorrelated_iff {as : List Action} {t : Server}
    (hrun : (machine relayAddr).run (machine relayAddr).init as = some t) :
    (machine relayAddr).Meets (AckCorrelated relayAddr) (machine relayAddr).init as ↔
      (machine relayAddr).Meets OnlyOwnPending (machine relayAddr).init as := by
  refine (machine relayAddr).meets_congr ?_ hrun
  intro s a s' hstep
  unfold AckCorrelated OnlyOwnPending
  split
  · next c pick =>
    have hack := step_relayResponse relayAddr hstep
    constructor
    · intro hall target htarget k hk
      by_contra hne
      obtain ⟨u, hu, hnot⟩ := not_correlated_of_foreign relayAddr hk hne
      exact hnot (hall target htarget (some k) u ((hack _).trans hu))
    · intro honly target htarget pick' u hu
      exact correlated_of_only relayAddr (honly target htarget) ((hack pick').symm.trans hu)
  · exact Iff.rfl

/-- Two targets on WS connections 0 and 1, and a punch of the first from connection 2. -/
def punchRun : List Action :=
  [.wsAccept, .wsAccept, .wsAccept, .wsAccept,
    .wsReceive 0 (.message (.registerPeer "a")), .wsReply 0,
    .wsReceive 1 (.message (.registerPeer "b")), .wsReply 1,
    .wsReceive 2 (.message (.punchHoleRequest "a")), .wsPunch 2 true, .wsPunch 2 true, .wsPunch 2 true]

theorem ackCorrelated_punchRun :
    (machine "relay").Meets (AckCorrelated "relay") (machine "relay").init
        (punchRun ++ [.wsReceive 0 (.message (.relayResponse (some "a")))]) ↔
      (machine "relay").Meets OnlyOwnPending (machine "relay").init
        (punchRun ++ [.wsReceive 0 (.message (.relayResponse (some "a")))]) :=
  ackCorrelated_iff "relay" ((machine "relay").run_getD _ (by decide +kernel))

/-- With a second punch in flight, the first target's acknowledgement can answer the
    requester of the second. -/
theorem foreign_requester_answered :
    ¬ ∀ relayAddr s, (machine relayAddr).Reachable s → ∀ c target pick s',
      s.registry.get target = some (.wsPush c) →
      (machine relayAddr).step s (.wsReceive c (.message (.relayResponse pick))) = some s' →
        Correlated s target s' := by
  intro h
  obtain ⟨s, hs, htarget, hpending, hanswered⟩ :=
    (machine "relay").exists_reachable_of_run
      (punchRun ++ [.wsReceive 3 (.message (.punchHoleRequest "b")), .wsPunch 3 true,
        .wsPunch 3 true, .wsPunch 3 true])
      (p := fun s => s.registry.get "a" = some (.wsPush 0) ∧ s.pending.lookup "a" = some 2 ∧
        ((machine "relay").step s (.wsReceive 0 (.message (.relayResponse (some "b"))))).any
          (fun s' => s'.outbox 3 ≠ s.outbox 3) = true)
      (by decide +kernel)
  obtain ⟨s', hs', hchanged⟩ := (Option.any_eq_true _ _).mp hanswered
  have hrequester :=
    (h "relay" s hs 0 "a" (some "b") s' htarget hs').answered 3 (by simpa using hchanged)
  rw [hpending] at hrequester
  simp at hrequester

end Server

end XyzenRelay.Rendezvous
