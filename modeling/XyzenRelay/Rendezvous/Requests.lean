-- SUMMARY: Accounting for completed punches over whole runs: what waits in pending, what is answered, and what is lost.
import XyzenRelay.Rendezvous.Events

/-!
# Requests

A completed punch is an entry of `pending` and, once an acknowledgement takes the
entry, a `RelayResponse`. Two steps lose a request: an `insert` drops the entry it
replaces, and an acknowledgement taken for a requester that is gone answers nobody.
-/

namespace XyzenRelay.Rendezvous

namespace Pending

variable {m : Pending} {k : String} {c : ConnId} {p : ConnId → Bool}

/-- The number of entries that hold one of the requesters. -/
def held (m : Pending) (p : ConnId → Bool) : Nat := m.entries.countP fun e => p e.2

theorem held_erase_of_lookup (h : m.lookup k = some c) :
    held (m.erase k) p + (if p c then 1 else 0) = held m p := by
  have hk : k ∈ m.entries.keys := AList.lookup_isSome.mp (by simp [h])
  obtain ⟨b, l₁, l₂, hl₁, hentries, herase⟩ := List.exists_of_kerase hk
  have hb : b = c := by
    have hmem : (⟨k, b⟩ : Sigma fun _ : String => ConnId) ∈ m.entries := by simp [hentries]
    exact Option.some.inj ((AList.mem_lookup_iff.mpr hmem).symm.trans h)
  subst hb
  unfold held
  rw [show (m.erase k).entries = l₁ ++ l₂ from herase, hentries]
  simp only [List.countP_append, List.countP_cons]
  omega

theorem held_erase_of_notMem (h : k ∉ m) : held (m.erase k) p = held m p := by
  unfold held
  rw [show (m.erase k).entries = m.entries from List.kerase_of_notMem_keys h]

theorem held_insert : held (m.insert k c) p = held (m.erase k) p + if p c then 1 else 0 := by
  unfold held
  rw [AList.entries_insert, List.countP_cons]
  rfl

/-- All entries together. -/
theorem held_true : held m (fun _ => true) = m.keys.length := by
  simp [held, AList.keys, List.keys]

theorem held_eq_zero (h : m.keys.length = 0) : held m p = 0 := by
  have hle : held m p ≤ held m fun _ => true := List.countP_mono_left (by simp)
  rw [held_true] at hle
  omega

end Pending

namespace Server

variable {relayAddr : String} {s s' : Server} {a : Action}

/-! ## What a step does to the books -/

/-- The pending entries of some requesters. -/
def waiting (s : Server) (p : ConnId → Bool) : Nat := Pending.held s.pending p

/-- The requests of some requesters a step loses: the entry an insert replaces, and the
    entry of a requester that is gone. -/
def lost (s : Server) (a : Action) (p : ConnId → Bool) : Nat :=
  match s.dispatchEvent a with
  | some (.inserted _ k) => (s.pending.lookup k).elim 0 fun c => if p c then 1 else 0
  | some (.answered _ c delivered) => if !delivered && p c then 1 else 0
  | _ => 0

/-- Every completed punch waits until it is answered or lost. -/
theorem waiting_step (h : (machine relayAddr).step s a = some s') (p : ConnId → Bool) :
    s'.waiting p + (s.dispatchEvent a).toList.countP (·.delivers p) + s.lost a p =
      s.waiting p + (s.dispatchEvent a).toList.countP (·.completes p) := by
  have hpending := pending_of_step h
  unfold waiting lost
  rw [hpending]
  cases he : s.dispatchEvent a with
  | none => rfl
  | some e =>
    simp only [Option.elim_some, Option.toList_some, List.countP_singleton]
    cases e with
    | inserted c k =>
      show Pending.held (s.pending.insert k c) p + 0 +
          ((s.pending.lookup k).elim 0 fun d => if p d then 1 else 0) =
        Pending.held s.pending p + if p c then 1 else 0
      rw [Pending.held_insert]
      cases hk : s.pending.lookup k with
      | none =>
        rw [Pending.held_erase_of_notMem (AList.lookup_eq_none.mp hk)]
        rfl
      | some d =>
        have herase := Pending.held_erase_of_lookup (p := p) hk
        simp only [Option.elim_some]
        omega
    | answered k c delivered =>
      have herase := Pending.held_erase_of_lookup (p := p) (lookup_of_answered he).1
      simp only [DispatchEvent.apply, DispatchEvent.delivers, DispatchEvent.completes]
      cases delivered <;> simp_all
    | _ => rfl

/-! ## No requester is lost -/

/-- An insert finds the key free, and an acknowledgement finds the requester still
    there. -/
def KeepsRequests (s : Server) (a : Action) : Prop :=
  match s.dispatchEvent a with
  | some (.inserted _ k) => k ∉ s.pending
  | some (.answered _ c _) => (s.outbox c).receiving = true
  | _ => True

/-- The completed punches of some requesters are the pending and the answered ones. -/
def Balanced (p : ConnId → Bool) (L : List DispatchEvent) (s : Server) : Prop :=
  s.waiting p + L.countP (·.delivers p) = L.countP (·.completes p)

theorem lost_eq_zero (h : s.KeepsRequests a) (p : ConnId → Bool) : s.lost a p = 0 := by
  unfold KeepsRequests at h
  unfold lost
  cases he : s.dispatchEvent a with
  | none => rfl
  | some e =>
    rw [he] at h
    cases e with
    | inserted c k =>
      have hk : s.pending.lookup k = none := AList.lookup_eq_none.mpr h
      simp [hk]
    | answered k c delivered =>
      have hdelivered : delivered = true := (lookup_of_answered he).2.trans h
      simp [hdelivered]
    | _ => rfl

theorem lost_pos (h : ¬ s.KeepsRequests a) : 0 < s.lost a fun _ => true := by
  unfold KeepsRequests at h
  unfold lost
  cases he : s.dispatchEvent a with
  | none => simp [he] at h
  | some e =>
    rw [he] at h
    cases e with
    | inserted c k =>
      obtain ⟨d, hd⟩ := Option.isSome_iff_exists.mp (AList.lookup_isSome.mpr (not_not.mp h))
      simp [hd]
    | answered k c delivered =>
      have hdelivered : delivered = false := by
        rw [(lookup_of_answered he).2]
        simpa using h
      simp [hdelivered]
    | _ => exact absurd trivial h

theorem balanced_step {p : ConnId → Bool} {L : List DispatchEvent} (hL : Balanced p L s)
    (hC : s.KeepsRequests a) (h : (machine relayAddr).step s a = some s') :
    Balanced p (L ++ (s.dispatchEvent a).toList) s' := by
  have hstep := waiting_step h p
  rw [lost_eq_zero hC] at hstep
  unfold Balanced at hL ⊢
  rw [List.countP_append, List.countP_append]
  omega

theorem not_balanced_step {L : List DispatchEvent} (hL : Balanced (fun _ => true) L s)
    (hC : ¬ s.KeepsRequests a) (h : (machine relayAddr).step s a = some s') :
    ¬ Balanced (fun _ => true) (L ++ (s.dispatchEvent a).toList) s' := by
  have hstep := waiting_step h fun _ => true
  have hlost := lost_pos hC
  unfold Balanced at hL ⊢
  rw [List.countP_append, List.countP_append]
  omega

/-- An acknowledgement that finds nobody pending was dispatched on an empty map. -/
theorem pending_of_idle (h : (machine relayAddr).step s a = some s')
    (he : s.dispatchEvent a = some .idle) :
    s.pending.keys = [] := by
  have hack : ∀ pick t, s.dispatchRelayAck relayAddr pick = some t → s.ackEvent pick = .idle →
      s.pending.keys = [] := by
    intro pick t ht hidle
    rcases dispatchRelayAck_eq ht with ⟨-, hkeys, -⟩ | ⟨k, c, rfl, hk, -⟩
    · exact hkeys
    · simp [ackEvent, hk] at hidle
  have hpunch : ∀ d stage, s.punchEvent d stage ≠ .idle := by
    intro d stage hidle
    have hnot := punchEvent_isAck (s := s) (c := d) stage
    simp [hidle, DispatchEvent.isAck] at hnot
  cases effect_of_step h with
  | tcpAck hp ht => exact hack _ _ ht (Option.some.inj he)
  | tcpIgnores hp hno => simp [dispatchEvent_tcpFirst hno] at he
  | tcpPunch hp =>
    rw [dispatchEvent_tcpPunch hp] at he
    exact absurd (Option.some.inj he) (hpunch _ _)
  | wsRegisters hconn hp hitem =>
    rw [dispatchEvent_wsReceive (by rintro pick rfl; simp [Action.registers] at hitem)] at he
    simp at he
  | wsAck hconn hp ht => exact hack _ _ ht (Option.some.inj he)
  | wsIgnores hconn hp hitem hno => simp [dispatchEvent_wsReceive hno] at he
  | wsTurns hconn hp hitem hno => simp [dispatchEvent_wsReceive hno] at he
  | wsPunch hconn hp =>
    rw [dispatchEvent_wsPunch hconn hp] at he
    exact absurd (Option.some.inj he) (hpunch _ _)
  | _ => simp [dispatchEvent] at he

/-- While no punch completes every acknowledgement takes an entry, if there is one. -/
theorem drain_step (h : (machine relayAddr).step s a = some s')
    (hnone : (s.dispatchEvent a).toList.countP (·.completes fun _ => true) = 0) :
    s'.pending.keys.length =
      s.pending.keys.length - (s.dispatchEvent a).toList.countP (·.isAck) := by
  have hstep := waiting_step h fun _ => true
  rw [hnone] at hstep
  unfold waiting at hstep
  rw [Pending.held_true, Pending.held_true] at hstep
  unfold lost at hstep
  cases he : s.dispatchEvent a with
  | none =>
    rw [he] at hstep
    simpa using hstep
  | some e =>
    rw [he] at hstep hnone
    cases e with
    | idle => simp_all [pending_of_idle h he, DispatchEvent.delivers]
    | inserted c k => simp [DispatchEvent.completes] at hnone
    | answered k c delivered =>
      cases delivered <;> simp_all [DispatchEvent.delivers, DispatchEvent.isAck] <;> omega
    | _ => simpa [DispatchEvent.delivers, DispatchEvent.isAck] using hstep

theorem drain {t : Server} {as : List Action} (hrun : (machine relayAddr).run s as = some t)
    (hnone : (events relayAddr s as).countP (·.completes fun _ => true) = 0) :
    t.pending.keys.length = s.pending.keys.length - (events relayAddr s as).countP (·.isAck) := by
  induction as generalizing s with
  | nil =>
    simp only [Machine.run_nil, Option.some.injEq] at hrun
    subst hrun
    rfl
  | cons a as ih =>
    obtain ⟨s', hstep, hrest⟩ := (machine relayAddr).run_cons.mp hrun
    rw [events, (machine relayAddr).journal_cons dispatchEvent hstep, List.countP_append] at hnone ⊢
    obtain ⟨hfirst, hothers⟩ := Nat.add_eq_zero_iff.mp hnone
    rw [ih hrest hothers, drain_step hstep hfirst, Nat.sub_sub]
    rfl

variable (relayAddr) in
/-- No request is lost in the run. -/
structure NoneLost (as : List Action) : Prop where
  /-- At every moment the pending entries are the completed punches without an answer. -/
  conserved : ∀ bs u, bs <+: as → (machine relayAddr).run (machine relayAddr).init bs = some u →
    u.pending.keys.length + (events relayAddr (machine relayAddr).init bs).countP
      (·.delivers fun _ => true) =
      (events relayAddr (machine relayAddr).init bs).countP (·.completes fun _ => true)
  /-- After as many acknowledgements as there are completed punches, every requester
      has all its answers. -/
  answered : ∀ bs cs u v, bs ++ cs <+: as →
    (machine relayAddr).run (machine relayAddr).init bs = some u →
    (machine relayAddr).run u cs = some v →
    (events relayAddr u cs).countP (·.completes fun _ => true) = 0 →
    (events relayAddr (machine relayAddr).init bs).countP (·.completes fun _ => true) ≤
      (events relayAddr u cs).countP (·.isAck) →
    ∀ c, v.responses c = (events relayAddr (machine relayAddr).init bs).countP (·.completes (· = c))

/-- The books are balanced along a run exactly when no step loses a request. -/
theorem balanced_iff {as : List Action} {t : Server}
    (hrun : (machine relayAddr).run (machine relayAddr).init as = some t) :
    (∀ bs u, bs <+: as → (machine relayAddr).run (machine relayAddr).init bs = some u →
      Balanced (fun _ => true) (events relayAddr (machine relayAddr).init bs) u) ↔
      (machine relayAddr).Meets KeepsRequests (machine relayAddr).init as := by
  refine (machine relayAddr).forall_prefix_iff_meets (fun _ _ h => h)
    (fun bs u a v hu hbs hC hstep => ?_) (fun bs u a v hu hbs hC hstep => ?_) rfl hrun
  · rw [events, (machine relayAddr).journal_concat dispatchEvent hu hstep]
    exact balanced_step hbs hC hstep
  · rw [events, (machine relayAddr).journal_concat dispatchEvent hu hstep]
    exact not_balanced_step hbs hC hstep

theorem balanced_of_meets {p : ConnId → Bool} {as : List Action} {t : Server}
    (hmeets : (machine relayAddr).Meets KeepsRequests (machine relayAddr).init as)
    (hrun : (machine relayAddr).run (machine relayAddr).init as = some t) :
    Balanced p (events relayAddr (machine relayAddr).init as) t :=
  Machine.Meets.journal (machine relayAddr) dispatchEvent (L := [])
    (fun _ _ _ _ hL hC hstep => balanced_step hL hC hstep) rfl hmeets hrun

/-- Without losses, as many acknowledgements as there are completed punches answer all
    of them. -/
theorem responses_of_drained {bs cs : List Action} {u v : Server}
    (hu : (machine relayAddr).run (machine relayAddr).init bs = some u)
    (hv : (machine relayAddr).run u cs = some v)
    (hmeets : (machine relayAddr).Meets KeepsRequests (machine relayAddr).init (bs ++ cs))
    (hnone : (events relayAddr u cs).countP (·.completes fun _ => true) = 0)
    (hacks : (events relayAddr (machine relayAddr).init bs).countP (·.completes fun _ => true) ≤
      (events relayAddr u cs).countP (·.isAck)) (c : ConnId) :
    v.responses c = (events relayAddr (machine relayAddr).init bs).countP
      (·.completes (· = c)) := by
  have hend : (machine relayAddr).run (machine relayAddr).init (bs ++ cs) = some v :=
    (machine relayAddr).run_append.mpr ⟨u, hu, hv⟩
  have hall := balanced_of_meets (p := fun _ => true)
    (((machine relayAddr).meets_append hu cs).mp hmeets).1 hu
  have hc := balanced_of_meets (p := (· = c)) hmeets hend
  unfold Balanced waiting at hall hc
  rw [Pending.held_true] at hall
  have hempty : v.pending.keys.length = 0 := by
    rw [drain hv hnone]
    omega
  have hrest : (events relayAddr u cs).countP (·.completes (· = c)) = 0 := by
    rw [List.countP_eq_zero] at hnone ⊢
    intro e he hcompletes
    apply hnone e he
    cases e <;> simp_all [DispatchEvent.completes]
  have hsplit : events relayAddr (machine relayAddr).init (bs ++ cs) =
      events relayAddr (machine relayAddr).init bs ++ events relayAddr u cs :=
    (machine relayAddr).journal_append dispatchEvent hu cs
  have hstart : (machine relayAddr).init.responses c = 0 := rfl
  rw [Pending.held_eq_zero hempty, Nat.zero_add] at hc
  rw [responses_of_run wellFormed_init hend, hstart, Nat.zero_add, hc, hsplit,
    List.countP_append, hrest]
  rfl

/-- No request is lost along a run exactly when every insert finds its key free and
    every acknowledgement its requester still there. -/
theorem noneLost_iff {as : List Action} {t : Server}
    (hrun : (machine relayAddr).run (machine relayAddr).init as = some t) :
    NoneLost relayAddr as ↔
      (machine relayAddr).Meets KeepsRequests (machine relayAddr).init as := by
  constructor
  · intro h
    apply (balanced_iff hrun).mp
    intro bs u hbs hu
    have hconserved := h.conserved bs u hbs hu
    rw [← Pending.held_true] at hconserved
    exact hconserved
  · intro hmeets
    constructor
    case conserved =>
      intro bs u hbs hu
      rw [← Pending.held_true]
      exact (balanced_iff hrun).mpr hmeets bs u hbs hu
    case answered =>
      intro bs cs u v hbs hu hv hnone hacks c
      obtain ⟨rest, rfl⟩ := hbs
      have hend := (machine relayAddr).run_append.mpr ⟨u, hu, hv⟩
      exact responses_of_drained hu hv
        (((machine relayAddr).meets_append hend rest).mp hmeets).1 hnone hacks c

/-- Connections 1 and 2 punch the id of connection 0, which then answers once. -/
def twoPunchesRun : List Action :=
  [.wsAccept, .wsAccept, .wsAccept, .wsReceive 0 (.message (.registerPeer "a")), .wsReply 0,
    .wsReceive 1 (.message (.punchHoleRequest "a")), .wsPunch 1 true, .wsPunch 1 true, .wsPunch 1 true,
    .wsReceive 2 (.message (.punchHoleRequest "a")), .wsPunch 2 true, .wsPunch 2 true, .wsPunch 2 true]

theorem noneLost_iff_twoPunches :
    NoneLost "relay" twoPunchesRun ↔
      (machine "relay").Meets KeepsRequests (machine "relay").init twoPunchesRun :=
  noneLost_iff ((machine "relay").run_getD twoPunchesRun (by decide +kernel))

/-- Two requesters of one target leave a single entry. -/
theorem requester_overwritten :
    ¬ ∀ relayAddr as t, (machine relayAddr).run (machine relayAddr).init as = some t →
      NoneLost relayAddr as := by
  intro h
  have hrun := (machine "relay").run_getD twoPunchesRun (s := (machine "relay").init)
    (by decide +kernel)
  have hconserved :=
    (h "relay" twoPunchesRun _ hrun).conserved twoPunchesRun _ (List.prefix_refl _) hrun
  revert hconserved
  decide +kernel

end Server

end XyzenRelay.Rendezvous
