-- SUMMARY: The xyzen-capturer process: the two channels between the encoder callback and the socket, what they keep in order, and what they do not bound.
import XyzenRelay.Lib.Endian
import XyzenRelay.Lib.Machine
import Mathlib.Data.List.Basic
import Mathlib.Tactic.SplitIfs

/-!
# The capturer process

Model of `main` in `crates/capturer/src/main.rs` and of `on_nal` in
`crates/mac-capturer/src/lib.rs`. The encoder calls `on_nal` on a queue of its
own, which sends into an unbounded `std` channel. A bridge thread moves the NALs
to a `tokio` channel of 256 places, and the loop of `main` writes them to the
socket. Every receive and every send is a step of its own. `emitted` only
remembers the slices the callback was given, but for the empty ones it ignores.
-/

namespace XyzenRelay.Capture

/-- The places of the `tokio` channel. -/
def CHANNEL_CAPACITY : Nat := 256

/-- How far `main` has come. -/
inductive MainPhase where
  /-- In the loop, at `recv` or at `send`. -/
  | forwarding
  /-- The loop is left, `close` not yet done. -/
  | closing
  /-- `main` has returned, and its receiver is gone. -/
  | returned
  deriving DecidableEq, Repr

structure Pipeline where
  /-- The `std` channel. -/
  nals : List Bytes
  /-- The bridge thread runs. -/
  bridge : Bool
  /-- What the bridge has received and not yet sent on. -/
  bridging : Option Bytes
  /-- The `tokio` channel. -/
  queue : List Bytes
  main : MainPhase
  /-- What the loop has received and not yet written. -/
  writing : Option Bytes
  /-- What the socket has taken. -/
  sent : List Bytes
  emitted : List Bytes

inductive PipelineAction where
  /-- The callback, with the slice it is given; `none` is a null pointer. -/
  | onNal (data : Option Bytes)
  | bridgeRecv
  | bridgeSend
  | mainRecv
  /-- The flag is whether the socket takes the message. -/
  | mainSend (ok : Bool)
  | mainClose
  deriving DecidableEq, Repr

namespace Pipeline

def init : Pipeline where
  nals := []
  bridge := true
  bridging := none
  queue := []
  main := .forwarding
  writing := none
  sent := []
  emitted := []

/-- `on_nal`: empty slices are ignored, and so is a channel without a receiver. -/
def onNal (s : Pipeline) : Option Bytes → Pipeline
  | none => s
  | some data =>
    if data.length ≤ 0 then s
    else
      { s with
        nals := if s.bridge then s.nals ++ [data] else s.nals
        emitted := s.emitted ++ [data] }

def step (s : Pipeline) : PipelineAction → Option Pipeline
  | .onNal data => some (s.onNal data)
  | .bridgeRecv =>
    match s.bridge, s.bridging, s.nals with
    | true, none, nal :: rest => some { s with bridging := some nal, nals := rest }
    | _, _, _ => none
  | .bridgeSend =>
    match s.bridging with
    | none => none
    | some nal =>
      -- `blocking_send` fails once the receiver is dropped, and the thread ends
      if s.main = .returned then some { s with bridge := false, bridging := none, nals := [] }
      else if s.queue.length < CHANNEL_CAPACITY then
        some { s with bridging := none, queue := s.queue ++ [nal] }
      else none
  | .mainRecv =>
    match s.main, s.writing with
    | .forwarding, none =>
      match s.queue with
      | nal :: rest => some { s with writing := some nal, queue := rest }
      | [] => if s.bridge then none else some { s with main := .closing }
    | _, _ => none
  | .mainSend ok =>
    match s.main, s.writing with
    | .forwarding, some nal =>
      some (if ok then { s with writing := none, sent := s.sent ++ [nal] }
        else { s with writing := none, main := .closing })
    | _, _ => none
  | .mainClose =>
    if s.main = .closing then some { s with main := .returned, queue := [] } else none

def machine : Machine Pipeline PipelineAction := { init := init, step := step }

/-! ## Nothing is lost or reordered on the way -/

/-- What is on the way to the socket, the oldest first. -/
def inFlight (s : Pipeline) : List Bytes :=
  s.writing.toList ++ s.queue ++ s.bridging.toList ++ s.nals

/-- While the loop runs, everything the callback was given is sent or on the way. Later,
    what was sent is where the stream was cut. -/
structure Inv (s : Pipeline) : Prop where
  conserved : s.main = .forwarding → s.bridge = true ∧ s.emitted = s.sent ++ s.inFlight
  cut : s.sent <+: s.emitted
  bounded : s.queue.length ≤ CHANNEL_CAPACITY

theorem inv_init : Inv init where
  conserved := fun _ => ⟨rfl, rfl⟩
  cut := List.nil_prefix
  bounded := Nat.zero_le _

variable {s s' : Pipeline}

theorem onNal_empty : s.onNal (some []) = s := rfl

theorem onNal_some {data : Bytes} (h : data ≠ []) :
    s.onNal (some data) =
      { s with
        nals := if s.bridge then s.nals ++ [data] else s.nals
        emitted := s.emitted ++ [data] } := by
  cases data with
  | nil => exact absurd rfl h
  | cons b data => rfl

theorem inv_onNal (hs : Inv s) (data : Option Bytes) : Inv (s.onNal data) := by
  cases data with
  | none => exact hs
  | some data =>
    by_cases hdata : data = []
    · rw [hdata, onNal_empty]
      exact hs
    · rw [onNal_some hdata]
      refine ⟨fun hmain => ?_, hs.cut.trans (List.prefix_append _ _), hs.bounded⟩
      obtain ⟨hbridge, hemitted⟩ := hs.conserved hmain
      simp [inFlight, hbridge, hemitted]

theorem inv_step {a : PipelineAction} (hs : Inv s) (h : step s a = some s') : Inv s' := by
  cases a with
  | onNal data =>
    obtain rfl := Option.some.inj h
    exact inv_onNal hs data
  | bridgeRecv =>
    simp only [step] at h
    split at h
    · next nal rest hbridge hbridging hnals =>
      obtain rfl := Option.some.inj h
      refine ⟨fun hmain => ?_, hs.cut, hs.bounded⟩
      obtain ⟨-, hemitted⟩ := hs.conserved hmain
      exact ⟨hbridge, by simp [hemitted, inFlight, hbridging, hnals]⟩
    · simp at h
  | bridgeSend =>
    simp only [step] at h
    split at h
    · simp at h
    · next nal hbridging =>
      split_ifs at h with hmain hroom
      · obtain rfl := Option.some.inj h
        exact ⟨fun hforwarding => by simp [hmain] at hforwarding, hs.cut, hs.bounded⟩
      · obtain rfl := Option.some.inj h
        refine ⟨fun hmain => ?_, hs.cut, by simp; omega⟩
        obtain ⟨hbridge, hemitted⟩ := hs.conserved hmain
        exact ⟨hbridge, by simp [hemitted, inFlight, hbridging]⟩
  | mainRecv =>
    simp only [step] at h
    split at h
    · next hmain hwriting =>
      split at h
      · next nal rest hqueue =>
        obtain rfl := Option.some.inj h
        have hlen := hs.bounded
        rw [hqueue, List.length_cons] at hlen
        refine ⟨fun _ => ?_, hs.cut, Nat.le_of_succ_le hlen⟩
        obtain ⟨hbridge, hemitted⟩ := hs.conserved hmain
        exact ⟨hbridge, by simp [hemitted, inFlight, hwriting, hqueue]⟩
      · simp [(hs.conserved hmain).1] at h
    · simp at h
  | mainSend ok =>
    simp only [step] at h
    split at h
    · next nal hmain hwriting =>
      obtain rfl := Option.some.inj h
      obtain ⟨hbridge, hemitted⟩ := hs.conserved hmain
      cases ok with
      | true =>
        have hnext : s.emitted = (s.sent ++ [nal]) ++ (s.queue ++ s.bridging.toList ++ s.nals) := by
          simp [hemitted, inFlight, hwriting]
        exact ⟨fun _ => ⟨hbridge, by simp [hnext, inFlight]⟩, ⟨_, hnext.symm⟩, hs.bounded⟩
      | false => exact ⟨fun hforwarding => by simp at hforwarding, hs.cut, hs.bounded⟩
    · simp at h
  | mainClose =>
    simp only [step] at h
    split_ifs at h
    obtain rfl := Option.some.inj h
    exact ⟨fun hforwarding => by simp at hforwarding, hs.cut, Nat.zero_le _⟩

theorem inv_reachable (h : machine.Reachable s) : Inv s :=
  Machine.Preserves.reachable machine (fun _ _ _ hs hstep => inv_step hs hstep) inv_init h

/-- What the socket has taken is the beginning of what the callback was given. While the
    loop runs, the rest is on the way and in order, and the channel keeps its bound. -/
theorem sent_in_order (h : machine.Reachable s) :
    s.sent <+: s.emitted ∧ (s.main = .forwarding → s.emitted = s.sent ++ s.inFlight) ∧
      s.queue.length ≤ CHANNEL_CAPACITY :=
  ⟨(inv_reachable h).cut, fun hmain => ((inv_reachable h).conserved hmain).2,
    (inv_reachable h).bounded⟩

/-- Three NALs, of which one is sent, one waits in the channel and one for the bridge. -/
def threeNals : List PipelineAction :=
  [.onNal (some [1]), .onNal none, .onNal (some [2]), .bridgeRecv, .bridgeSend, .bridgeRecv,
    .onNal (some [3]), .mainRecv, .bridgeSend, .mainSend true]

theorem sent_in_order_threeNals :
    ((machine.run machine.init threeNals).getD machine.init).sent <+: [[1], [2], [3]] ∧
      [[1], [2], [3]] = [[1]] ++ ((machine.run machine.init threeNals).getD machine.init).inFlight ∧
      ((machine.run machine.init threeNals).getD machine.init).queue.length ≤ CHANNEL_CAPACITY := by
  obtain ⟨hcut, hconserved, hbounded⟩ := sent_in_order (machine.reachable_getD threeNals)
  exact ⟨hcut, hconserved rfl, hbounded⟩

/-! ## The way to the socket -/

/-- The moves that are left until everything is sent. -/
def weight (s : Pipeline) : Nat :=
  4 * s.nals.length + 3 * s.bridging.toList.length + 2 * s.queue.length +
    s.writing.toList.length

/-- The loop runs, with the invariant, and the callback was given `emitted`. -/
def Forwards (emitted : List Bytes) (n : Nat) (s : Pipeline) : Prop :=
  Inv s ∧ s.main = .forwarding ∧ s.emitted = emitted ∧ s.weight = n

section Moves

variable {nal : Bytes} {rest : List Bytes}

theorem step_mainSend (hmain : s.main = .forwarding) (hwriting : s.writing = some nal) :
    step s (.mainSend true) = some { s with writing := none, sent := s.sent ++ [nal] } := by
  simp [step, hmain, hwriting]

theorem step_mainRecv (hmain : s.main = .forwarding) (hwriting : s.writing = none)
    (hqueue : s.queue = nal :: rest) :
    step s .mainRecv = some { s with writing := some nal, queue := rest } := by
  simp [step, hmain, hwriting, hqueue]

theorem step_bridgeSend (hmain : s.main = .forwarding) (hbridging : s.bridging = some nal)
    (hroom : s.queue.length < CHANNEL_CAPACITY) :
    step s .bridgeSend = some { s with bridging := none, queue := s.queue ++ [nal] } := by
  simp [step, hmain, hbridging, hroom]

theorem step_bridgeRecv (hbridge : s.bridge = true) (hbridging : s.bridging = none)
    (hnals : s.nals = nal :: rest) :
    step s .bridgeRecv = some { s with bridging := some nal, nals := rest } := by
  simp [step, hbridge, hbridging, hnals]

end Moves

/-- As long as something is on the way, a thread can move it on. -/
theorem forwards_step {emitted : List Bytes} {n : Nat} (h : Forwards emitted n s) :
    (s.main = .forwarding ∧ s.emitted = emitted ∧ s.sent = emitted) ∨
      ∃ a s' m, machine.step s a = some s' ∧ m < n ∧ Forwards emitted m s' := by
  obtain ⟨hs, hmain, hemitted, rfl⟩ := h
  obtain ⟨hbridge, hconserved⟩ := hs.conserved hmain
  have move : ∀ {a s'}, step s a = some s' → s'.main = .forwarding → s'.emitted = emitted →
      s'.weight < s.weight →
      ∃ a s' m, machine.step s a = some s' ∧ m < s.weight ∧ Forwards emitted m s' :=
    fun {a s'} hstep hmain' hemitted' hlt =>
      ⟨a, s', s'.weight, hstep, hlt, inv_step hs hstep, hmain', hemitted', rfl⟩
  cases hwriting : s.writing with
  | some nal =>
    exact .inr (move (step_mainSend hmain hwriting) hmain hemitted (by simp [weight, hwriting]))
  | none =>
    cases hqueue : s.queue with
    | cons nal rest =>
      exact .inr (move (step_mainRecv hmain hwriting hqueue) hmain hemitted
        (by simp [weight, hwriting, hqueue]; omega))
    | nil =>
      cases hbridging : s.bridging with
      | some nal =>
        have hroom : s.queue.length < CHANNEL_CAPACITY := by simp [hqueue, CHANNEL_CAPACITY]
        exact .inr (move (step_bridgeSend hmain hbridging hroom) hmain hemitted
          (by simp [weight, hwriting, hqueue, hbridging]))
      | none =>
        cases hnals : s.nals with
        | cons nal rest =>
          exact .inr (move (step_bridgeRecv hbridge hbridging hnals) hmain hemitted
            (by simp [weight, hwriting, hqueue, hbridging, hnals]; omega))
        | nil =>
          have hflight : s.inFlight = [] := by
            simp [inFlight, hwriting, hqueue, hbridging, hnals]
          rw [hflight, List.append_nil] at hconserved
          exact .inl ⟨hmain, hemitted, hconserved ▸ hemitted⟩

/-- The pipeline never jams: from every state in which the loop runs, the threads can
    bring everything that was emitted to the socket. -/
theorem everything_can_be_sent (h : machine.Reachable s) (hmain : s.main = .forwarding) :
    machine.CanReach s fun t =>
      t.main = .forwarding ∧ t.emitted = s.emitted ∧ t.sent = s.emitted :=
  Machine.CanReach.of_measure machine (J := Forwards s.emitted) (fun _ _ ht => forwards_step ht)
    ⟨inv_reachable h, hmain, rfl, rfl⟩

theorem threeNals_can_be_sent :
    machine.CanReach ((machine.run machine.init threeNals).getD machine.init) fun t =>
      t.main = .forwarding ∧ t.emitted = [[1], [2], [3]] ∧ t.sent = [[1], [2], [3]] :=
  everything_can_be_sent (machine.reachable_getD threeNals) rfl

/-- The 256 places do not bound what waits: the callback never blocks. -/
theorem backlog_unbounded (n : Nat) :
    ∃ s, machine.Reachable s ∧ s.main = .forwarding ∧ s.nals.length = n := by
  induction n with
  | zero => exact ⟨init, .init machine, rfl, rfl⟩
  | succ n ih =>
    obtain ⟨s, ⟨as, hrun⟩, hmain, hlen⟩ := ih
    have hbridge := ((inv_reachable ⟨as, hrun⟩).conserved hmain).1
    refine ⟨s.onNal (some [0]), ⟨as ++ [.onNal (some [0])],
      machine.run_concat.mpr ⟨s, hrun, rfl⟩⟩, hmain, ?_⟩
    simp [onNal_some, hbridge, hlen]

end Pipeline

end XyzenRelay.Capture
