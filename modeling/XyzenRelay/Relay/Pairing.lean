-- SUMMARY: The two accept loops of the relay around one wait slot, and when pairing conserves the connections.
import XyzenRelay.Lib.Machine
import XyzenRelay.Lib.Numbered
import Mathlib.Logic.Function.Basic
import Mathlib.Data.List.Perm.Basic

/-!
# Pairing connections

Model of `main` and `pair_or_wait` in `crates/relay/src/main.rs`. The TCP loop and
the WS loop each handle one connection at a time. `pair_or_wait` takes the wait
slot in one section under its lock, and puts its own connection there in a
second one if there was nobody to pair with; the machine lets the other loop in
between.
-/

namespace XyzenRelay.Relay

inductive Transport where
  | tcp
  | ws
  deriving DecidableEq, Repr

/-- A connection, numbered in the order in which they are handed to `pair_or_wait`. -/
structure Side where
  transport : Transport
  conn : Nat
  deriving DecidableEq, Repr

/-- How far an accept loop has come with its connection. -/
inductive LoopPhase where
  | accepting
  /-- A WS socket is accepted and its handshake running. -/
  | handshaking
  /-- `pair_or_wait` is called. -/
  | called (side : Side)
  /-- The slot has been taken, with what was in it. -/
  | took (side : Side) (partner : Option Side)
  deriving DecidableEq, Repr

/-- The connections in the hands of an accept loop. -/
def LoopPhase.held : LoopPhase → List Side
  | .called side => [side]
  | .took side partner => side :: partner.toList
  | _ => []

structure State where
  /-- The `WaitSlot`. -/
  waiting : Option Side
  loop : Transport → LoopPhase
  /-- The pump tasks spawned so far. -/
  pairs : List (Side × Side)
  /-- The connections handed to `pair_or_wait` so far. No step reads them, except to
      number the next one. -/
  handed : List Side

inductive Action where
  /-- `accept` returns; the flag is whether it succeeded. -/
  | accept (tr : Transport) (ok : Bool)
  /-- The WS handshake ends. -/
  | handshake (ok : Bool)
  /-- The first section of `pair_or_wait`. -/
  | take (tr : Transport)
  /-- The rest of `pair_or_wait`: the pump is spawned, or the slot refilled. -/
  | settle (tr : Transport)
  deriving DecidableEq, Repr

namespace State

def init : State where
  waiting := none
  loop := fun _ => .accepting
  pairs := []
  handed := []

def setLoop (s : State) (tr : Transport) (phase : LoopPhase) : State :=
  { s with loop := Function.update s.loop tr phase }

/-- A loop calls `pair_or_wait` with its connection. -/
def call (s : State) (tr : Transport) : State :=
  let side := ⟨tr, s.handed.length⟩
  { s.setLoop tr (.called side) with handed := s.handed ++ [side] }

def step (s : State) : Action → Option State
  | .accept tr ok =>
    match s.loop tr with
    | .accepting =>
      if ok then
        match tr with
        | .tcp => some (s.call .tcp)
        | .ws => some (s.setLoop .ws .handshaking)
      else some s
    | _ => none
  | .handshake ok =>
    match s.loop .ws with
    | .handshaking => some (if ok then s.call .ws else s.setLoop .ws .accepting)
    | _ => none
  | .take tr =>
    match s.loop tr with
    | .called side => some { s.setLoop tr (.took side s.waiting) with waiting := none }
    | _ => none
  | .settle tr =>
    match s.loop tr with
    | .took side (some other) =>
      some { s.setLoop tr .accepting with pairs := s.pairs ++ [(side, other)] }
    -- `replace` drops whatever the slot holds by now
    | .took side none => some { s.setLoop tr .accepting with waiting := some side }
    | _ => none

def machine : Machine State Action := { init := init, step := step }

/-! ## Conservation -/

/-- The connections, place by place. -/
def places (s : State) : List Side :=
  (s.loop .tcp).held ++ (s.loop .ws).held ++ s.waiting.toList ++ s.pairs.flatMap fun p => [p.1, p.2]

/-- Every connection handed over is in exactly one place. -/
structure Conserved (s : State) : Prop where
  distinct : s.handed.Nodup
  place : s.places.Perm s.handed
  count : s.handed.length =
    (s.loop .tcp).held.length + (s.loop .ws).held.length + s.waiting.toList.length +
      2 * s.pairs.length

/-- A call that found the slot empty finds it empty still when it puts its own
    connection there. -/
def RefillsEmpty (s : State) : Action → Prop
  | .settle tr => ∀ side, s.loop tr = .took side none → s.waiting = none
  | _ => True

theorem length_places (s : State) : s.places.length =
    (s.loop .tcp).held.length +
    (s.loop .ws).held.length + s.waiting.toList.length + 2 * s.pairs.length := by
  have hpairs : (s.pairs.flatMap fun p => [p.1, p.2]).length = 2 * s.pairs.length := by
    induction s.pairs with
    | nil => rfl
    | cons p ps ih => simp [ih]; omega
  simp [places, hpairs, Nat.add_assoc]

/-- The invariant of the runs that never refill a full slot. -/
structure Inv (s : State) : Prop where
  numbered : Numbered Side.conn s.handed
  place : s.places.Perm s.handed

theorem Inv.conserved {s : State} (hs : Inv s) : Conserved s where
  distinct := hs.numbered.nodup
  place := hs.place
  count := by rw [← s.length_places, hs.place.length_eq]

/-! ## What a step does to the places -/

theorem count_places (s : State) (x : Side) : s.places.count x =
    (s.loop .tcp).held.count x + (s.loop .ws).held.count x + s.waiting.toList.count x +
      (s.pairs.flatMap fun p => [p.1, p.2]).count x := by
  simp only [places, List.count_append]

/-- A loop that moves on exchanges what it holds. -/
theorem count_places_setLoop (s : State) (tr : Transport) (phase : LoopPhase) (x : Side) :
    (s.setLoop tr phase).places.count x + (s.loop tr).held.count x =
      s.places.count x + phase.held.count x := by
  rw [count_places, count_places]
  cases tr <;> simp [setLoop] <;> omega

/-- A loop that moves on with the same connections in hand. -/
theorem Inv.setLoop {s : State} (hs : Inv s) {tr : Transport} {phase : LoopPhase}
    (hheld : phase.held = (s.loop tr).held) : Inv (s.setLoop tr phase) where
  numbered := hs.numbered
  place := by
    apply (List.perm_iff_count.mpr fun x => ?_).trans hs.place
    have h := s.count_places_setLoop tr phase x
    rw [hheld] at h
    omega

theorem Inv.call {s : State} (hs : Inv s) {tr : Transport} (hheld : (s.loop tr).held = []) :
    Inv (s.call tr) where
  numbered := hs.numbered.concat rfl
  place := by
    have hplaces : (s.call tr).places.Perm (s.places ++ [⟨tr, s.handed.length⟩]) := by
      apply List.perm_iff_count.mpr
      intro x
      have h := s.count_places_setLoop tr (.called ⟨tr, s.handed.length⟩) x
      rw [hheld, List.count_nil, Nat.add_zero] at h
      rw [List.count_append]
      exact h
    exact hplaces.trans (hs.place.append_right _)

/-- Taking the slot moves its connection into the hands of the call. -/
theorem Inv.take {s : State} (hs : Inv s) {tr : Transport} {side : Side}
    (hloop : s.loop tr = .called side) :
    Inv { s.setLoop tr (.took side s.waiting) with waiting := none } where
  numbered := hs.numbered
  place := by
    apply (List.perm_iff_count.mpr fun x => ?_).trans hs.place
    have h := s.count_places_setLoop tr (.took side s.waiting) x
    rw [hloop] at h
    rw [count_places] at h ⊢
    simp only [LoopPhase.held, List.count_cons, List.count_nil, Option.toList_none] at h ⊢
    simp only [State.setLoop] at h ⊢
    omega

theorem Inv.pair {s : State} (hs : Inv s) {tr : Transport} {side other : Side}
    (hloop : s.loop tr = .took side (some other)) :
    Inv { s.setLoop tr .accepting with pairs := s.pairs ++ [(side, other)] } where
  numbered := hs.numbered
  place := by
    apply (List.perm_iff_count.mpr fun x => ?_).trans hs.place
    have h := s.count_places_setLoop tr .accepting x
    rw [hloop] at h
    rw [count_places] at h ⊢
    simp only [LoopPhase.held, List.count_cons, List.count_nil, Option.toList_some,
      List.flatMap_append,
      List.count_append, List.flatMap_cons, List.flatMap_nil] at h ⊢
    simp only [State.setLoop] at h ⊢
    omega

/-- What refilling the slot does to the places: the old content is gone. -/
theorem count_places_refill {s : State} {tr : Transport} {side : Side}
    (hloop : s.loop tr = .took side none) (x : Side) :
    ({ s.setLoop tr .accepting with waiting := some side } : State).places.count x +
      s.waiting.toList.count x = s.places.count x := by
  have h := s.count_places_setLoop tr .accepting x
  rw [hloop] at h
  rw [count_places] at h ⊢
  simp only [LoopPhase.held, List.count_cons, List.count_nil, Option.toList_none,
    Option.toList_some] at h ⊢
  simp only [State.setLoop] at h ⊢
  omega

/-- Refilling an empty slot moves the connection there. -/
theorem Inv.refill {s : State} (hs : Inv s) {tr : Transport} {side : Side}
    (hloop : s.loop tr = .took side none) (hempty : s.waiting = none) :
    Inv { s.setLoop tr .accepting with waiting := some side } where
  numbered := hs.numbered
  place := by
    apply (List.perm_iff_count.mpr fun x => ?_).trans hs.place
    have hcount := count_places_refill hloop x
    rw [hempty] at hcount
    exact hcount

theorem inv_step {s s' : State} {a : Action} (hs : Inv s) (hrefill : RefillsEmpty s a)
    (h : machine.step s a = some s') : Inv s' := by
  simp only [machine] at h
  cases a with
  | accept tr ok =>
    simp only [step] at h
    split at h
    · next hloop =>
      cases ok with
      | false => exact Option.some.inj h ▸ hs
      | true =>
        cases tr with
        | tcp =>
          simp only [if_true, Option.some.injEq] at h
          exact h ▸ hs.call (by rw [hloop]; rfl)
        | ws =>
          simp only [if_true, Option.some.injEq] at h
          exact h ▸ hs.setLoop (by rw [hloop]; rfl)
    · simp at h
  | handshake ok =>
    simp only [step] at h
    split at h
    · next hloop =>
      simp only [Option.some.injEq] at h
      subst h
      cases ok with
      | true => exact hs.call (by rw [hloop]; rfl)
      | false => exact hs.setLoop (by rw [hloop]; rfl)
    · simp at h
  | take tr =>
    simp only [step] at h
    split at h
    · next side hloop =>
      simp only [Option.some.injEq] at h
      exact h ▸ hs.take hloop
    · simp at h
  | settle tr =>
    simp only [step] at h
    split at h
    · next side other hloop =>
      simp only [Option.some.injEq] at h
      exact h ▸ hs.pair hloop
    · next side hloop =>
      simp only [Option.some.injEq] at h
      exact h ▸ hs.refill hloop (hrefill side hloop)
    · simp at h

/-- Refilling a full slot loses a connection. -/
theorem not_conserved_of_refill {s s' : State} {a : Action} (hs : Inv s) (hnot : ¬ RefillsEmpty s a)
    (h : machine.step s a = some s') : ¬ Conserved s' := by
  cases a with
  | settle tr =>
    simp only [RefillsEmpty, not_forall] at hnot
    obtain ⟨side, hloop, hfull⟩ := hnot
    obtain ⟨lost, hlost⟩ := Option.ne_none_iff_exists'.mp hfull
    simp only [machine, step, hloop, Option.some.injEq] at h
    subst h
    intro hconserved
    have hcount := count_places_refill hloop lost
    have hplace : _ = s.handed.count lost := hconserved.place.count_eq lost
    rw [hplace, ← hs.place.count_eq lost, hlost] at hcount
    simp at hcount
  | accept | handshake | take => exact absurd trivial hnot

/-- Every connection handed over stays in exactly one place, throughout exactly the
    runs in which no call refills a slot that has been filled since it looked. -/
theorem conserved_iff {as : List Action} {t : State} (hrun : machine.run machine.init as = some t) :
    (∀ u ∈ machine.visits machine.init as, u.Conserved) ↔
      machine.Meets RefillsEmpty machine.init as :=
  machine.forall_visits_iff_meets (J := Inv) (A := fun _ _ => True) (fun _ hs => hs.conserved)
    (fun _ _ _ hs _ hrefill h => inv_step hs hrefill h)
    (fun _ _ _ hs _ hnot h => not_conserved_of_refill hs hnot h)
    ⟨.nil, .refl _⟩ hrun (machine.meets_true _ _)

/-- A TCP connection waits and a WS connection is paired with it. -/
def pairedRun : List Action :=
  [.accept .tcp true, .take .tcp, .settle .tcp, .accept .ws true, .handshake true,
    .take .ws, .settle .ws]

theorem conserved_pairedRun :
    (∀ u ∈ machine.visits machine.init pairedRun, u.Conserved) ↔
      machine.Meets RefillsEmpty machine.init pairedRun :=
  conserved_iff (machine.run_getD _ (by decide))

/-- Two calls find the slot empty, and the second one to refill it drops the
    connection of the first. -/
theorem connection_dropped : ¬ ∀ s, machine.Reachable s → s.Conserved := by
  intro h
  obtain ⟨s, hs, hlength⟩ :=
    machine.exists_reachable_of_run
      [.accept .tcp true, .accept .ws true, .handshake true, .take .tcp, .take .ws,
        .settle .tcp, .settle .ws]
      (p := fun s => s.places.length ≠ s.handed.length)
      (by decide)
  exact hlength (h s hs).place.length_eq

end State

end XyzenRelay.Relay
