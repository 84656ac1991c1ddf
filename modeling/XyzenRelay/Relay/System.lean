-- SUMMARY: The whole relay: pairing and all its pumps at once, and that every connection has one pipe to one partner.
import XyzenRelay.Relay.Pump
import Mathlib.Data.List.Nodup
import Mathlib.Data.List.Pairwise

/-!
# The relay

The accept loops of `Pairing` and the pumps of `Pump` in one machine. A client may send
from the start. What has come by the time its connection is paired waits in the socket,
and the pump starts with it.
-/

namespace XyzenRelay.Relay

open Pump (Endpoint Item reading)

/-- The connections of a pair. `pair_or_wait` passes its own to `pump` first. -/
@[reducible] def sideOf (p : Side × Side) : Endpoint → Side
  | .a => p.1
  | .b => p.2

@[reducible] def ends (p : Side × Side) (e : Endpoint) : Transport := (sideOf p e).transport

/-- The relay and its clients. -/
structure System where
  pairing : State
  /-- What the client of a connection has sent. -/
  sent : (x : Side) → List (Item x.transport)
  /-- The client has ended its stream before the connection was paired. -/
  ended : Side → Bool
  /-- The pumps of the pairs. -/
  pumps : (p : Side × Side) → Pump.State (ends p)

inductive SystemAction where
  | pairing (a : Action)
  /-- The client of a connection that is not paired sends. -/
  | send (x : Side) (xs : List (Item x.transport))
  | finish (x : Side)
  | pump (p : Side × Side) (act : Pump.Action (ends p))

namespace System

def init : System where
  pairing := .init
  sent := fun _ => []
  ended := fun _ => false
  pumps := fun _ => .init

/-- The connection has been given to a pump. -/
def Paired (s : System) (x : Side) : Prop := ∃ p ∈ s.pairing.pairs, p.1 = x ∨ p.2 = x

instance (s : System) (x : Side) : Decidable (s.Paired x) :=
  inferInstanceAs (Decidable (∃ p ∈ s.pairing.pairs, p.1 = x ∨ p.2 = x))

/-- A pump before its first read. -/
def started (s : System) (p : Side × Side) : Pump.State (ends p) where
  leg := fun e => { Leg.init with unread := s.sent (sideOf p e), ended := s.ended (sideOf p e) }
  failed := false

/-- What the clients have sent after a step of a pump. -/
def heard (s : System) (p : Side × Side) :
    Pump.Action (ends p) → (x : Side) → List (Item x.transport)
  | .move e m => Function.update s.sent (sideOf p e) (s.sent (sideOf p e) ++ m.sends)
  | .refuse _ | .fail => s.sent

def step (s : System) : SystemAction → Option System
  | .pairing a =>
    (s.pairing.step a).map fun pairing =>
      { s with
        pairing
        pumps := fun p => if p ∈ s.pairing.pairs then s.pumps p else s.started p }
  | .send x xs =>
    if s.Paired x ∨ s.ended x = true then none
    else some { s with sent := Function.update s.sent x (s.sent x ++ xs) }
  | .finish x =>
    if s.Paired x then none else some { s with ended := Function.update s.ended x true }
  | .pump p act =>
    if p ∈ s.pairing.pairs then
      ((s.pumps p).step act).map fun pump =>
        { s with sent := s.heard p act, pumps := Function.update s.pumps p pump }
    else none

def machine : Machine System SystemAction := { init := init, step := step }

/-- All the bytes that a connection has been given, by whichever pumps. -/
def received (s : System) (x : Side) : List UInt8 :=
  s.pairing.pairs.flatMap fun p =>
    (if p.1 = x then (s.pumps p).arrived .b else []) ++
      (if p.2 = x then (s.pumps p).arrived .a else [])

/-- The bytes that the client of a connection has sent. -/
def bytes (s : System) (x : Side) : List UInt8 := (reading x.transport).view (s.sent x)

/-- The loop that reads from a connection is over. -/
def Over (s : System) (x : Side) : Prop :=
  ∃ p ∈ s.pairing.pairs, ∃ e, sideOf p e = x ∧ ((s.pumps p).leg e).done = true

/-- A pump runs between two connections. -/
def Partners (s : System) (x y : Side) : Prop :=
  (x, y) ∈ s.pairing.pairs ∨ (y, x) ∈ s.pairing.pairs

/-- What `x` is given is what the client of `y` has sent, from the beginning and in order,
    and all of it once the loop between them is over. -/
structure PipeFrom (s : System) (y x : Side) : Prop where
  distinct : y ≠ x
  partners : s.Partners x y
  only : ∀ z, s.Partners x z → z = y
  inOrder : s.received x <+: s.bytes y
  whole : s.Over y → s.received x = s.bytes y

end System

/-! ## No connection is in two places -/

namespace State

variable {s s' : State} {a : Action}

/-- Connections get lost where the slot is refilled, but none is ever doubled. -/
structure Single (s : State) : Prop where
  numbered : Numbered Side.conn s.handed
  placed : ∀ x, s.places.count x ≤ s.handed.count x

theorem Single.nodup (hs : Single s) : (s.pairs.flatMap fun p => [p.1, p.2]).Nodup := by
  refine List.nodup_iff_count_le_one.mpr fun x => ?_
  have hplaces := s.count_places x
  have hplaced := hs.placed x
  have hone := List.nodup_iff_count_le_one.mp hs.numbered.nodup x
  omega

theorem Single.setLoop (hs : Single s) {tr : Transport} {phase : LoopPhase}
    (hheld : phase.held = (s.loop tr).held) : Single (s.setLoop tr phase) where
  numbered := hs.numbered
  placed := by
    intro x
    have hcount := s.count_places_setLoop tr phase x
    rw [hheld] at hcount
    have hplaced := hs.placed x
    show (s.setLoop tr phase).places.count x ≤ s.handed.count x
    omega

theorem Single.call (hs : Single s) {tr : Transport} (hheld : (s.loop tr).held = []) :
    Single (s.call tr) where
  numbered := hs.numbered.concat rfl
  placed := by
    intro x
    have hcount := s.count_places_setLoop tr (.called ⟨tr, s.handed.length⟩) x
    rw [hheld, List.count_nil, Nat.add_zero] at hcount
    have hplaced := hs.placed x
    show (s.setLoop tr (.called ⟨tr, s.handed.length⟩)).places.count x ≤
      (s.handed ++ [(⟨tr, s.handed.length⟩ : Side)]).count x
    rw [List.count_append, hcount]
    exact Nat.add_le_add_right hplaced _

/-- A step that only moves or drops connections. -/
theorem Single.of_le (hs : Single s) (hhanded : s'.handed = s.handed)
    (h : ∀ x, s'.places.count x ≤ s.places.count x) : Single s' := by
  refine ⟨hhanded ▸ hs.numbered, fun x => ?_⟩
  rw [hhanded]
  exact (h x).trans (hs.placed x)

theorem Single.take (hs : Single s) {tr : Transport} {side : Side}
    (hloop : s.loop tr = .called side) :
    Single { s.setLoop tr (.took side s.waiting) with waiting := none } := by
  refine hs.of_le rfl fun x => ?_
  have hcount := s.count_places_setLoop tr (.took side s.waiting) x
  rw [hloop] at hcount
  rw [count_places] at hcount ⊢
  simp only [LoopPhase.held, List.count_cons, List.count_nil, Option.toList_none] at hcount ⊢
  simp only [State.setLoop] at hcount ⊢
  omega

theorem Single.pair (hs : Single s) {tr : Transport} {side other : Side}
    (hloop : s.loop tr = .took side (some other)) :
    Single { s.setLoop tr .accepting with pairs := s.pairs ++ [(side, other)] } := by
  refine hs.of_le rfl fun x => ?_
  have hcount := s.count_places_setLoop tr .accepting x
  rw [hloop] at hcount
  rw [count_places] at hcount ⊢
  simp only [LoopPhase.held, List.count_cons, List.count_nil, Option.toList_some,
    List.flatMap_append, List.count_append, List.flatMap_cons, List.flatMap_nil] at hcount ⊢
  simp only [State.setLoop] at hcount ⊢
  omega

theorem Single.refill (hs : Single s) {tr : Transport} {side : Side}
    (hloop : s.loop tr = .took side none) :
    Single { s.setLoop tr .accepting with waiting := some side } :=
  hs.of_le rfl fun x => Nat.le_of_add_right_le (Nat.le_of_eq (count_places_refill hloop x))

theorem single_step (hs : Single s) (h : s.step a = some s') : Single s' := by
  cases a with
  | accept tr ok =>
    simp only [step] at h
    split at h
    · next hloop =>
      cases ok with
      | false => exact Option.some.inj h ▸ hs
      | true =>
        cases tr with
        | tcp => exact Option.some.inj h ▸ hs.call (by rw [hloop]; rfl)
        | ws => exact Option.some.inj h ▸ hs.setLoop (by rw [hloop]; rfl)
    · simp at h
  | handshake ok =>
    simp only [step] at h
    split at h
    · next hloop =>
      cases ok with
      | true => exact Option.some.inj h ▸ hs.call (by rw [hloop]; rfl)
      | false => exact Option.some.inj h ▸ hs.setLoop (by rw [hloop]; rfl)
    · simp at h
  | take tr =>
    simp only [step] at h
    split at h
    · next side hloop => exact Option.some.inj h ▸ hs.take hloop
    · simp at h
  | settle tr =>
    simp only [step] at h
    split at h
    · next side other hloop => exact Option.some.inj h ▸ hs.pair hloop
    · next side hloop => exact Option.some.inj h ▸ hs.refill hloop
    · simp at h

/-- Pairs are for good. -/
theorem pairs_step (h : s.step a = some s') : ∃ new, s'.pairs = s.pairs ++ new := by
  cases a with
  | accept tr ok =>
    refine ⟨[], ?_⟩
    simp only [step] at h
    split at h
    · cases ok with
      | false => rw [← Option.some.inj h, List.append_nil]
      | true => cases tr <;> rw [← Option.some.inj h, List.append_nil] <;> rfl
    · simp at h
  | handshake ok =>
    refine ⟨[], ?_⟩
    simp only [step] at h
    split at h
    · cases ok <;> rw [← Option.some.inj h, List.append_nil] <;> rfl
    · simp at h
  | take tr =>
    refine ⟨[], ?_⟩
    simp only [step] at h
    split at h
    · rw [← Option.some.inj h, List.append_nil]
      rfl
    · simp at h
  | settle tr =>
    simp only [step] at h
    split at h
    · next side other _ => exact ⟨[(side, other)], by rw [← Option.some.inj h]⟩
    · refine ⟨[], ?_⟩
      rw [← Option.some.inj h, List.append_nil]
      rfl
    · simp at h

end State

/-- Two pairs share no connection. -/
theorem eq_of_sideOf {ps : List (Side × Side)} (hps : (ps.flatMap fun p => [p.1, p.2]).Nodup)
    {p q : Side × Side} (hp : p ∈ ps) (hq : q ∈ ps) {e f : Endpoint}
    (h : sideOf p e = sideOf q f) : p = q ∧ e = f := by
  obtain ⟨hown, hpairs⟩ := List.nodup_flatMap.mp hps
  have hmem (r : Side × Side) (g : Endpoint) : sideOf r g ∈ [r.1, r.2] := by
    cases g <;> simp
  have hpq : p = q := by
    by_contra hne
    have : Std.Symm (Function.onFun List.Disjoint fun p : Side × Side => [p.1, p.2]) :=
      ⟨fun _ _ hdisjoint _ hx hy => hdisjoint hy hx⟩
    exact hpairs.forall hp hq hne (hmem p e) (h ▸ hmem q f)
  subst hpq
  refine ⟨rfl, ?_⟩
  have hdistinct : p.1 ≠ p.2 := by simpa using hown p hp
  cases e with
  | a =>
    cases f with
    | a => rfl
    | b => exact absurd h hdistinct
  | b =>
    cases f with
    | a => exact absurd h.symm hdistinct
    | b => rfl

/-! ## The relay keeps the pipes -/

namespace System

variable {s s' t : System} {a : SystemAction} {as : List SystemAction}

/-- Every pump forwards what the clients of its two connections have sent. -/
structure Inv (s : System) : Prop where
  single : s.pairing.Single
  pump : ∀ p ∈ s.pairing.pairs, (s.pumps p).Inv
  heard : ∀ p ∈ s.pairing.pairs, ∀ e, ((s.pumps p).leg e).sent = s.sent (sideOf p e)

theorem inv_init : Inv init where
  single := ⟨.nil, fun _ => Nat.le_refl _⟩
  pump := by simp [init, State.init]
  heard := by simp [init, State.init]

theorem started_inv (s : System) (p : Side × Side) : (s.started p).Inv := by
  intro e
  exact
    { balance := rfl
      plain := by simp [Reading.Open, started, Leg.init]
      running := by simp [Reading.Open, started, Leg.init]
      finished := by simp [started, Leg.init]
      farewell := by simp [Reading.Open, started, Leg.init] }

theorem Inv.pairing (hs : Inv s) {a : Action} {pairing : State}
    (h : s.pairing.step a = some pairing) :
    Inv { s with
      pairing
      pumps := fun p => if p ∈ s.pairing.pairs then s.pumps p else s.started p } where
  single := State.single_step hs.single h
  pump := by
    intro p _
    dsimp only
    split
    · next hp => exact hs.pump p hp
    · exact s.started_inv p
  heard := by
    intro p _ e
    dsimp only
    split
    · next hp => exact hs.heard p hp e
    · rfl

/-- A client whose connection is in no pump. -/
theorem Inv.send (hs : Inv s) {x : Side} (hx : ¬ s.Paired x) (xs : List (Item x.transport)) :
    Inv { s with sent := Function.update s.sent x (s.sent x ++ xs) } where
  single := hs.single
  pump := hs.pump
  heard := by
    intro p hp e
    have hne : sideOf p e ≠ x := by
      rintro rfl
      exact hx ⟨p, hp, by cases e <;> simp⟩
    exact (hs.heard p hp e).trans (Function.update_of_ne hne ..).symm

/-- A step of a pump adds to what its clients have sent what they send in it. -/
theorem heard_eq {p : Side × Side} {act : Pump.Action (ends p)} {pump : Pump.State (ends p)}
    (hdistinct : ∀ e, sideOf p e.other ≠ sideOf p e)
    (hp : ∀ e, ((s.pumps p).leg e).sent = s.sent (sideOf p e))
    (h : (s.pumps p).step act = some pump) (e : Endpoint) :
    (pump.leg e).sent = s.heard p act (sideOf p e) := by
  cases act with
  | move f m =>
    obtain ⟨-, u, hu, rfl⟩ := Pump.State.step_move h
    rcases f.eq_or_eq_other e with rfl | rfl
    · rw [Pump.State.setLeg_leg, Leg.sent_step hu, hp, heard, Function.update_self]
    · rw [Pump.State.setLeg_leg_other, hp, heard, Function.update_of_ne (hdistinct f)]
  | refuse f | fail =>
    rcases Pump.State.leg_step h e with hleg | ⟨m, hact, -⟩
    · rw [hleg, hp]
      rfl
    · cases hact

/-- A step of a pump leaves alone what the others have sent. -/
theorem heard_of_ne {p : Side × Side} (act : Pump.Action (ends p)) {x : Side}
    (h : ∀ e, x ≠ sideOf p e) : s.heard p act x = s.sent x := by
  cases act with
  | move e m => exact Function.update_of_ne (h e) ..
  | refuse | fail => rfl

theorem Inv.distinct (hs : Inv s) {p : Side × Side} (hp : p ∈ s.pairing.pairs) (e : Endpoint) :
    sideOf p e.other ≠ sideOf p e :=
  fun h => e.other_ne (eq_of_sideOf hs.single.nodup hp hp h).2

theorem Inv.pumped (hs : Inv s) {p : Side × Side} (hp : p ∈ s.pairing.pairs)
    {act : Pump.Action (ends p)} {pump : Pump.State (ends p)}
    (h : (s.pumps p).step act = some pump) :
    Inv { s with sent := s.heard p act, pumps := Function.update s.pumps p pump } where
  single := hs.single
  pump := by
    intro q hq
    by_cases hqp : q = p
    · subst hqp
      simpa using Pump.State.inv_step (hs.pump q hq) h
    · simpa [hqp] using hs.pump q hq
  heard := by
    intro q hq e
    by_cases hqp : q = p
    · subst hqp
      simpa using heard_eq (hs.distinct hq) (hs.heard q hq) h e
    · have hother : ∀ f, sideOf q e ≠ sideOf p f := fun f heq =>
        hqp (eq_of_sideOf hs.single.nodup hq hp heq).1
      simpa [hqp, heard_of_ne act hother] using hs.heard q hq e

theorem inv_step (hs : Inv s) (h : machine.step s a = some s') : Inv s' := by
  cases a with
  | pairing a =>
    obtain ⟨pairing, hpairing, rfl⟩ := Option.map_eq_some_iff.mp h
    exact hs.pairing hpairing
  | send x xs =>
    simp only [machine, step, Option.ite_none_left_eq_some, Option.some.injEq, not_or] at h
    obtain ⟨⟨hx, -⟩, rfl⟩ := h
    exact hs.send hx xs
  | finish x =>
    simp only [machine, step, Option.ite_none_left_eq_some, Option.some.injEq] at h
    obtain ⟨-, rfl⟩ := h
    exact ⟨hs.single, hs.pump, hs.heard⟩
  | pump p act =>
    simp only [machine, step, Option.ite_none_right_eq_some, Option.map_eq_some_iff] at h
    obtain ⟨hp, pump, hpump, rfl⟩ := h
    exact hs.pumped hp hpump

theorem inv_preserved : machine.Preserves Inv := fun _ _ _ hs h => inv_step hs h

/-! ## What a connection is given -/

/-- Only the pump of its own pair gives a connection anything. -/
theorem received_eq (hs : Inv s) {p : Side × Side} (hp : p ∈ s.pairing.pairs) (e : Endpoint) :
    s.received (sideOf p e.other) = (s.pumps p).arrived e := by
  have hnodup := hs.single.nodup
  obtain ⟨before, behind, hpairs⟩ := List.append_of_mem hp
  have hps : (before ++ p :: behind).Nodup := by
    rw [← hpairs]
    refine (List.nodup_flatMap.mp hnodup).2.imp fun hdisjoint heq => ?_
    subst heq
    exact hdisjoint (List.mem_cons_self ..) (List.mem_cons_self ..)
  have hsilent (q : Side × Side) (hq : q ∈ before ∨ q ∈ behind) :
      q.1 ≠ sideOf p e.other ∧ q.2 ≠ sideOf p e.other := by
    have hmem : q ∈ s.pairing.pairs := by
      rw [hpairs]
      rcases hq with hq | hq <;> simp [hq]
    have hne : q ≠ p := by
      rintro rfl
      exact (List.nodup_cons.mp (List.nodup_middle.mp hps)).1 (List.mem_append.mpr hq)
    exact ⟨fun heq => hne (eq_of_sideOf hnodup hmem hp (e := .a) heq).1,
      fun heq => hne (eq_of_sideOf hnodup hmem hp (e := .b) heq).1⟩
  have hbefore := fun q hq => hsilent q (.inl hq)
  have hbehind := fun q hq => hsilent q (.inr hq)
  have hown := (hs.distinct hp e).symm
  rw [received, hpairs, List.flatMap_append, List.flatMap_cons,
    List.flatMap_eq_nil_iff.mpr fun q hq => by simp [hbefore q hq],
    List.flatMap_eq_nil_iff.mpr fun q hq => by simp [hbehind q hq]]
  cases e with
  | a => simp_all [Endpoint.other]
  | b => simp_all [Endpoint.other]

/-- A connection in no pump is given nothing. -/
theorem received_unpaired {x : Side} (h : ¬ s.Paired x) : s.received x = [] := by
  refine List.flatMap_eq_nil_iff.mpr fun p hp => ?_
  have hne : ¬ (p.1 = x ∨ p.2 = x) := fun heq => h ⟨p, hp, heq⟩
  rw [not_or] at hne
  simp [hne]

theorem partners_iff {x y : Side} :
    s.Partners x y ↔
      ∃ p ∈ s.pairing.pairs, ∃ e : Endpoint, sideOf p e.other = x ∧ sideOf p e = y := by
  constructor
  · rintro (h | h)
    · exact ⟨_, h, .b, rfl, rfl⟩
    · exact ⟨_, h, .a, rfl, rfl⟩
  · rintro ⟨p, hp, e, rfl, rfl⟩
    cases e with
    | a => exact .inr hp
    | b => exact .inl hp

theorem Inv.pipeFrom (hs : Inv s) {p : Side × Side} (hp : p ∈ s.pairing.pairs) (e : Endpoint) :
    s.PipeFrom (sideOf p e) (sideOf p e.other) := by
  have hnodup := hs.single.nodup
  have hbytes : s.bytes (sideOf p e) = (s.pumps p).sent e := by
    rw [bytes, ← hs.heard p hp e]
    rfl
  refine ⟨(hs.distinct hp e).symm, partners_iff.mpr ⟨p, hp, e, rfl, rfl⟩, fun z hz => ?_, ?_,
    fun hover => ?_⟩
  · obtain ⟨q, hq, f, heq, rfl⟩ := partners_iff.mp hz
    obtain ⟨rfl, hother⟩ := eq_of_sideOf hnodup hq hp heq
    rw [← f.other_other, hother, e.other_other]
  · rw [received_eq hs hp e, hbytes]
    exact (hs.pump p hp e).view_delivered
  · obtain ⟨q, hq, f, heq, hdone⟩ := hover
    obtain ⟨rfl, rfl⟩ := eq_of_sideOf hnodup hq hp heq
    rw [received_eq hs hp, hbytes]
    exact (hs.pump q hp f).view_eq hdone

/-- Pairs stay paired, and what has been given to them is not taken back. -/
theorem pair_step (hs : Inv s) (h : machine.step s a = some s') {p : Side × Side}
    (hp : p ∈ s.pairing.pairs) :
    p ∈ s'.pairing.pairs ∧ ∀ e, (s.pumps p).arrived e <+: (s'.pumps p).arrived e := by
  cases a with
  | pairing a =>
    obtain ⟨pairing, hpairing, rfl⟩ := Option.map_eq_some_iff.mp h
    obtain ⟨new, hnew⟩ := State.pairs_step hpairing
    refine ⟨hnew ▸ List.mem_append_left new hp, fun e => ?_⟩
    simp only [if_pos hp]
    exact List.prefix_refl _
  | send x xs =>
    simp only [machine, step, Option.ite_none_left_eq_some, Option.some.injEq] at h
    obtain ⟨-, rfl⟩ := h
    exact ⟨hp, fun e => List.prefix_refl _⟩
  | finish x =>
    simp only [machine, step, Option.ite_none_left_eq_some, Option.some.injEq] at h
    obtain ⟨-, rfl⟩ := h
    exact ⟨hp, fun e => List.prefix_refl _⟩
  | pump q act =>
    simp only [machine, step, Option.ite_none_right_eq_some, Option.map_eq_some_iff] at h
    obtain ⟨hq, pump, hpump, rfl⟩ := h
    refine ⟨hp, fun e => ?_⟩
    by_cases hpq : p = q
    · subst hpq
      simp only [Function.update_self]
      exact ((hs.pump p hp).advances (Pump.State.inv_step (hs.pump p hp) hpump) hpump e).got
    · simp only [Function.update_of_ne hpq]
      exact List.prefix_refl _

theorem pair_run (hs : Inv s) (h : machine.run s as = some t) {p : Side × Side}
    (hp : p ∈ s.pairing.pairs) :
    p ∈ t.pairing.pairs ∧ ∀ e, (s.pumps p).arrived e <+: (t.pumps p).arrived e := by
  induction as generalizing s with
  | nil =>
    obtain rfl := Option.some.inj h
    exact ⟨hp, fun e => List.prefix_refl _⟩
  | cons a as ih =>
    obtain ⟨u, hstep, hrest⟩ := machine.run_cons.mp h
    obtain ⟨hu, hfirst⟩ := pair_step hs hstep hp
    obtain ⟨ht, hrest⟩ := ih (inv_step hs hstep) hrest hu
    exact ⟨ht, fun e => (hfirst e).trans (hrest e)⟩

/-- In every run, also where the accept loops race, a connection has one partner for good
    and a pipe from it, or no partner, and is given nothing. -/
theorem one_partner (hrun : machine.run machine.init as = some s) :
    (∀ x, (∃ y, s.PipeFrom y x) ∨ (∀ y, ¬ s.Partners x y) ∧ s.received x = []) ∧
    ∀ bs t, machine.run s bs = some t → ∀ x y, s.Partners x y →
      t.Partners x y ∧ s.received x <+: t.received x := by
  have hs : Inv s := inv_preserved.run _ inv_init hrun
  constructor
  · intro x
    by_cases hx : s.Paired x
    · obtain ⟨p, hp, hside⟩ := hx
      obtain ⟨e, rfl⟩ : ∃ e : Endpoint, sideOf p e.other = x := by
        rcases hside with rfl | rfl
        · exact ⟨.b, rfl⟩
        · exact ⟨.a, rfl⟩
      exact .inl ⟨_, hs.pipeFrom hp e⟩
    · refine .inr ⟨fun y hy => ?_, received_unpaired hx⟩
      obtain ⟨p, hp, e, rfl, -⟩ := partners_iff.mp hy
      exact hx ⟨p, hp, by cases e <;> simp [Endpoint.other]⟩
  · intro bs t ht x y hxy
    have hit : Inv t := inv_preserved.run _ hs ht
    obtain ⟨p, hp, e, rfl, rfl⟩ := partners_iff.mp hxy
    obtain ⟨hpt, harrived⟩ := pair_run hs ht hp
    refine ⟨partners_iff.mpr ⟨p, hpt, e, rfl, rfl⟩, ?_⟩
    rw [received_eq hs hp, received_eq hit hpt]
    exact harrived e

/-! A TCP client sends while it waits, and a WS client is paired with it. -/

@[reducible] def early : Side := ⟨.tcp, 0⟩

@[reducible] def late : Side := ⟨.ws, 1⟩

def earlyRun : List SystemAction :=
  [.pairing (.accept .tcp true), .pairing (.take .tcp), .send early ([1, 2] : List UInt8),
    .pairing (.settle .tcp), .pairing (.accept .ws true), .pairing (.handshake true),
    .pairing (.take .ws), .pairing (.settle .ws),
    .pump (late, early) (.move .b (.send ([3] : List UInt8))),
    .pump (late, early) (.move .b (.read 2)), .pump (late, early) (.move .b (.write 1))]

def forwarded : System := (machine.run machine.init earlyRun).getD machine.init

theorem one_partner_early :
    forwarded.received late = [1, 2] ∧
      (∀ x, (∃ y, forwarded.PipeFrom y x) ∨
        (∀ y, ¬ forwarded.Partners x y) ∧ forwarded.received x = []) ∧
      ∀ bs t, machine.run forwarded bs = some t → ∀ x y, forwarded.Partners x y →
        t.Partners x y ∧ forwarded.received x <+: t.received x :=
  ⟨by decide +kernel, one_partner (machine.run_getD earlyRun (by decide +kernel))⟩

end System

end XyzenRelay.Relay
