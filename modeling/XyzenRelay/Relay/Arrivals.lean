-- SUMMARY: The relay pairs whoever arrives next: the pairs are the arrivals two by two, and when they are of one session.
import XyzenRelay.Lib.Journal
import XyzenRelay.Lib.TwoByTwo
import XyzenRelay.Relay.System

/-!
# Who is paired with whom

The relay takes the next two connections for a pair, whatever they are there for. A
connection arrives when its call of `pair_or_wait` finds another one in the slot, or else
puts it there. As long as no connection gets lost, the pairs are the arrivals two by two,
so that clients meet the client of their own session as long as the sessions arrive one
behind the other.
-/

namespace XyzenRelay.Relay

open TwoByTwo

/-- The pair that an accept loop is about to hand to `pump`. -/
def LoopPhase.matched : LoopPhase → List (Side × Side)
  | .took side (some other) => [(side, other)]
  | _ => []

namespace State

variable {s s' : State} {a : Action} {as : List Action}

/-- The pairs made so far. -/
def matched (s : State) : List (Side × Side) :=
  s.pairs ++ (s.loop .tcp).matched ++ (s.loop .ws).matched

/-- The connection that arrives in a step. -/
def arrival (s : State) : Action → Option Side
  | .take tr =>
    match s.loop tr, s.waiting with
    | .called side, some _ => some side
    | _, _ => none
  | .settle tr =>
    match s.loop tr with
    | .took side none => some side
    | _ => none
  | _ => none

def arrivals (as : List Action) : List Side := machine.journal arrival init as

instance decidableRefillsEmpty (s : State) : ∀ a, Decidable (RefillsEmpty s a)
  | .settle tr =>
    match h : s.loop tr with
    | .took side none =>
      decidable_of_iff (s.waiting = none) ⟨fun hempty _ _ => hempty, fun hC => hC side h⟩
    | .took _ (some _) | .called _ | .handshaking | .accepting =>
      .isTrue fun _ hloop => by simp [h] at hloop
  | .accept _ _ | .handshake _ | .take _ => .isTrue trivial

/-- The pairs are what has arrived, two by two, and the slot holds who is left over. -/
structure ByArrival (arrived : List Side) (s : State) : Prop where
  waiting : s.waiting = leftover arrived
  matched : s.matched.Perm ((twos arrived).map Prod.swap)

theorem count_matched (s : State) (p : Side × Side) : s.matched.count p =
    s.pairs.count p + (s.loop .tcp).matched.count p + (s.loop .ws).matched.count p := by
  simp only [State.matched, List.count_append]

/-- A loop that moves on exchanges the pair it holds. -/
theorem count_matched_setLoop (s : State) (tr : Transport) (phase : LoopPhase) (p : Side × Side) :
    (s.setLoop tr phase).matched.count p + (s.loop tr).matched.count p =
      s.matched.count p + phase.matched.count p := by
  rw [count_matched, count_matched]
  cases tr <;> simp [setLoop] <;> omega

/-- A loop that moves on without a pair, or with the same one. -/
theorem ByArrival.setLoop {arrived : List Side} (hs : ByArrival arrived s) {tr : Transport}
    {phase : LoopPhase} (h : phase.matched = (s.loop tr).matched) :
    ByArrival arrived (s.setLoop tr phase) where
  waiting := hs.waiting
  matched := by
    refine (List.perm_iff_count.mpr fun p => ?_).trans hs.matched
    have hcount := s.count_matched_setLoop tr phase p
    rw [h] at hcount
    omega

theorem ByArrival.call {arrived : List Side} (hs : ByArrival arrived s) {tr : Transport}
    (h : (s.loop tr).matched = []) : ByArrival arrived (s.call tr) := by
  have hcalled : LoopPhase.matched (.called ⟨tr, s.handed.length⟩) = (s.loop tr).matched := h.symm
  exact ⟨hs.waiting, (hs.setLoop hcalled).matched⟩

theorem ByArrival.take {arrived : List Side} (hs : ByArrival arrived s) {tr : Transport}
    {side other : Side} (hloop : s.loop tr = .called side) (hwaiting : s.waiting = some other) :
    ByArrival (arrived ++ [side])
      { s.setLoop tr (.took side (some other)) with waiting := none } := by
  obtain ⟨htwos, hleft⟩ := concat_of_some (hs.waiting.symm.trans hwaiting) side
  refine ⟨hleft.symm, ?_⟩
  rw [htwos, List.map_append]
  refine .trans (List.perm_iff_count.mpr fun p => ?_) (hs.matched.append_right _)
  have hcount := s.count_matched_setLoop tr (.took side (some other)) p
  rw [hloop] at hcount
  rw [List.count_append]
  exact hcount

theorem ByArrival.refill {arrived : List Side} (hs : ByArrival arrived s) {tr : Transport}
    {side : Side} (hloop : s.loop tr = .took side none) (hempty : s.waiting = none) :
    ByArrival (arrived ++ [side]) { s.setLoop tr .accepting with waiting := some side } := by
  obtain ⟨htwos, hleft⟩ := concat_of_none (hs.waiting.symm.trans hempty) side
  refine ⟨hleft.symm, ?_⟩
  rw [htwos]
  exact (hs.setLoop (by rw [hloop]; rfl)).matched

theorem ByArrival.pair {arrived : List Side} (hs : ByArrival arrived s) {tr : Transport}
    {side other : Side} (hloop : s.loop tr = .took side (some other)) :
    ByArrival arrived { s.setLoop tr .accepting with pairs := s.pairs ++ [(side, other)] } where
  waiting := hs.waiting
  matched := by
    refine (List.perm_iff_count.mpr fun p => ?_).trans hs.matched
    have hcount := s.count_matched_setLoop tr .accepting p
    rw [hloop] at hcount
    rw [count_matched] at hcount ⊢
    simp only [LoopPhase.matched, List.count_nil, List.count_append, State.setLoop] at hcount ⊢
    omega

theorem byArrival_step {arrived : List Side} (hs : ByArrival arrived s)
    (hrefill : RefillsEmpty s a) (h : machine.step s a = some s') :
    ByArrival (arrived ++ (arrival s a).toList) s' := by
  simp only [machine] at h
  cases a with
  | accept tr ok =>
    simp only [arrival, Option.toList_none, List.append_nil]
    simp only [step] at h
    split at h
    · next hloop =>
      cases ok with
      | false => exact Option.some.inj h ▸ hs
      | true =>
        cases tr with
        | tcp => exact Option.some.inj h ▸ hs.call (by rw [hloop]; rfl)
        | ws => exact Option.some.inj h ▸ hs.setLoop (by rw [hloop]; rfl)
    · simp at h
  | handshake ok =>
    simp only [arrival, Option.toList_none, List.append_nil]
    simp only [step] at h
    split at h
    · next hloop =>
      cases ok with
      | true => exact Option.some.inj h ▸ hs.call (by rw [hloop]; rfl)
      | false => exact Option.some.inj h ▸ hs.setLoop (by rw [hloop]; rfl)
    · simp at h
  | take tr =>
    simp only [step] at h
    split at h
    · next side hloop =>
      rw [← Option.some.inj h]
      cases hwaiting : s.waiting with
      | none =>
        simp only [arrival, hloop, hwaiting, Option.toList_none, List.append_nil]
        have hnone : LoopPhase.matched (.took side none) = (s.loop tr).matched := by
          rw [hloop]
          rfl
        exact ⟨hwaiting.symm.trans hs.waiting, (hs.setLoop hnone).matched⟩
      | some other =>
        simp only [arrival, hloop, hwaiting]
        exact hs.take hloop hwaiting
    · simp at h
  | settle tr =>
    simp only [step] at h
    split at h
    · next side other hloop =>
      simp only [arrival, hloop, Option.toList_none, List.append_nil]
      exact Option.some.inj h ▸ hs.pair hloop
    · next side hloop =>
      simp only [arrival, hloop]
      exact Option.some.inj h ▸ hs.refill hloop (hrefill side hloop)
    · simp at h

theorem byArrival_run (hrun : machine.run init as = some s)
    (hrefill : machine.Meets RefillsEmpty init as) : ByArrival (arrivals as) s := by
  have hinit : ByArrival [] init := ⟨rfl, .refl _⟩
  exact Machine.Meets.journal machine arrival (J := ByArrival)
    (fun _ _ _ _ hs hC h => byArrival_step hs hC h) hinit hrefill hrun

end State

/-- The connections arrive session by session, both of one behind each other. -/
def SessionBySession {κ : Type} (session : Side → κ) (arrived : List Side) : Prop :=
  ∀ p ∈ twos arrived, session p.1 = session p.2

instance {κ : Type} [DecidableEq κ] (session : Side → κ) (arrived : List Side) :
    Decidable (SessionBySession session arrived) :=
  inferInstanceAs (Decidable (∀ p ∈ twos arrived, session p.1 = session p.2))

namespace System

variable {s : System} {as : List SystemAction}

/-- What the accept loops do in a step of the relay. -/
def pairingOf : SystemAction → Option Action
  | .pairing a => some a
  | _ => none

theorem pairing_step {s' : System} {a : SystemAction} (h : machine.step s a = some s') :
    State.machine.run s.pairing (pairingOf a).toList = some s'.pairing := by
  cases a with
  | pairing a =>
    obtain ⟨pairing, hpairing, rfl⟩ := Option.map_eq_some_iff.mp h
    exact State.machine.run_cons.mpr ⟨_, hpairing, rfl⟩
  | send x xs =>
    simp only [machine, step, Option.ite_none_left_eq_some, Option.some.injEq] at h
    obtain ⟨-, rfl⟩ := h
    rfl
  | finish x =>
    simp only [machine, step, Option.ite_none_left_eq_some, Option.some.injEq] at h
    obtain ⟨-, rfl⟩ := h
    rfl
  | pump p act =>
    simp only [machine, step, Option.ite_none_right_eq_some, Option.map_eq_some_iff] at h
    obtain ⟨-, pump, -, rfl⟩ := h
    rfl

/-- The accept loops of the relay run as they do alone. -/
theorem pairing_run (hrun : machine.run machine.init as = some s) :
    State.machine.run State.init (as.filterMap pairingOf) = some s.pairing := by
  refine machine.invariant_run
    (I := fun as s => State.machine.run State.init (as.filterMap pairingOf) = some s.pairing) rfl
    (fun as u a t _ hu h => ?_) hrun
  rw [List.filterMap_append]
  refine State.machine.run_append.mpr ⟨u.pairing, hu, ?_⟩
  rw [show [a].filterMap pairingOf = (pairingOf a).toList by cases a <;> rfl]
  exact pairing_step h

/-- While no connection gets lost, the relay makes pairs of one session exactly if the
    connections arrive session by session. A client is given nothing then but what another
    client of its session has sent. -/
theorem sessions_apart {κ : Type} (session : Side → κ)
    (hrun : machine.run machine.init as = some s)
    (hrefill : State.machine.Meets State.RefillsEmpty State.init (as.filterMap pairingOf)) :
    ((∀ p ∈ s.pairing.matched, session p.1 = session p.2) ↔
      SessionBySession session (State.arrivals (as.filterMap pairingOf))) ∧
    (SessionBySession session (State.arrivals (as.filterMap pairingOf)) →
      ∀ x, s.received x = [] ∨
        ∃ y, y ≠ x ∧ session y = session x ∧ s.received x <+: s.bytes y) := by
  have hs : Inv s := inv_preserved.run _ inv_init hrun
  have harrived := State.byArrival_run (pairing_run hrun) hrefill
  have hiff : (∀ p ∈ s.pairing.matched, session p.1 = session p.2) ↔
      SessionBySession session (State.arrivals (as.filterMap pairingOf)) := by
    constructor
    · intro h p hp
      exact (h p.swap (harrived.matched.mem_iff.mpr (List.mem_map_of_mem hp))).symm
    · intro h p hp
      obtain ⟨q, hq, rfl⟩ := List.mem_map.mp (harrived.matched.mem_iff.mp hp)
      exact (h q hq).symm
  refine ⟨hiff, fun hsessions x => ?_⟩
  by_cases hx : s.Paired x
  · obtain ⟨p, hp, hside⟩ := hx
    have hsession : session p.1 = session p.2 := by
      refine hiff.mpr hsessions p ?_
      rw [State.matched, List.append_assoc]
      exact List.mem_append_left _ hp
    rcases hside with rfl | rfl
    · have hpipe := hs.pipeFrom hp .b
      exact .inr ⟨p.2, hpipe.distinct, hsession.symm, hpipe.inOrder⟩
    · have hpipe := hs.pipeFrom hp .a
      exact .inr ⟨p.1, hpipe.distinct, hsession, hpipe.inOrder⟩
  · exact .inl (received_unpaired hx)

/-- The first two connections are of one session. -/
theorem sessions_apart_early :
    ((∀ p ∈ forwarded.pairing.matched, p.1.conn / 2 = p.2.conn / 2) ↔
      SessionBySession (·.conn / 2) (State.arrivals (earlyRun.filterMap pairingOf))) ∧
    (SessionBySession (·.conn / 2) (State.arrivals (earlyRun.filterMap pairingOf)) →
      ∀ x, forwarded.received x = [] ∨
        ∃ y, y ≠ x ∧ y.conn / 2 = x.conn / 2 ∧ forwarded.received x <+: forwarded.bytes y) :=
  sessions_apart (·.conn / 2) (machine.run_getD earlyRun (by decide +kernel)) (by decide +kernel)

end System

end XyzenRelay.Relay
