-- SUMMARY: One publisher and one joining viewer on the same room, in every interleaving of their steps, and the invariant of that machine.
import XyzenRelay.Lib.Machine
import XyzenRelay.Lib.Numbered
import XyzenRelay.Stream.Room

/-!
# A viewer joins

The publisher loop of `handle_publisher` records each frame and then sends it.
The viewer of `handle_viewer` subscribes, takes the snapshot, writes the replay
to its sink and then forwards what it receives. The machine below interleaves
the two, one atomic access to the room at a time.

Frames carry their publish index, so that the statements can tell apart two
frames with equal bytes. `recorded`, `sent`, `subscribedAt`, `snapshotAt` and
`replay` only remember what happened: no step reads them.
-/

namespace XyzenRelay.Stream

/-- A frame with its position among the frames of the publisher. -/
structure Published where
  index : Nat
  bytes : Bytes
  deriving DecidableEq, Repr

instance : Frame Published := ⟨Published.bytes⟩

structure Join where
  room : RoomState Published
  /-- The frame the publisher has recorded and not yet sent. -/
  pending : Option Published
  phase : ViewerPhase Published
  /-- Everything written to the viewer's sink. -/
  out : List Published
  /-- `rx.recv()` has reported a lag. -/
  lagged : Bool
  recorded : List Published
  sent : List Published
  subscribedAt : Nat
  snapshotAt : Nat
  replay : List Published

inductive JoinAction where
  /-- The publisher receives a binary message and records it. -/
  | record (frame : Bytes)
  /-- The publisher sends the frame it has recorded. -/
  | send
  | subscribe
  | snapshot
  /-- The viewer writes the next replay frame, or leaves the replay loop. -/
  | replayNext
  /-- `rx.recv()` returns. -/
  | recv
  deriving DecidableEq, Repr

namespace Join

/-- The only viewer. -/
def viewer : ViewerId := 0

def init : Join where
  room := .new
  pending := none
  phase := .joined
  out := []
  lagged := false
  recorded := []
  sent := []
  subscribedAt := 0
  snapshotAt := 0
  replay := []

def step (s : Join) : JoinAction → Option Join
  | .record frame =>
    match s.pending with
    | some _ => none
    | none =>
      let f := ⟨s.recorded.length, frame⟩
      some { s with room := s.room.record f, pending := some f, recorded := s.recorded ++ [f] }
  | .send =>
    match s.pending with
    | none => none
    | some f => some { s with room := s.room.send f, pending := none, sent := s.sent ++ [f] }
  | .subscribe =>
    match s.phase with
    | .joined =>
      some { s with
        room := s.room.subscribe viewer, phase := .subscribed, subscribedAt := s.sent.length }
    | _ => none
  | .snapshot =>
    match s.phase with
    | .subscribed =>
      let frames := s.room.warmup.snapshot
      some { s with phase := .replaying frames, replay := frames, snapshotAt := s.recorded.length }
    | _ => none
  | .replayNext =>
    match s.phase with
    | .replaying (f :: rest) => some { s with out := s.out ++ [f], phase := .replaying rest }
    | .replaying [] => some { s with phase := .live }
    | _ => none
  | .recv =>
    match s.phase with
    | .live =>
      match s.room.recv viewer with
      | (.value f, room) => some { s with room := room, out := s.out ++ [f] }
      | (.lagged _, room) => some { s with room := room, lagged := true }
      | (.empty, _) => none
    | _ => none

def machine : Machine Join JoinAction := { init := init, step := step }

/-- What the viewer has not received yet. -/
def backlog (s : Join) : List Published := s.room.tx.backlog viewer

/-- What was broadcast after the viewer subscribed. -/
def sentAfterSubscribe (s : Join) : List Published := s.sent.drop s.subscribedAt

/-- The codec the room is locked to. -/
def codec (s : Join) : Option Codec := s.room.warmup.codec

/-! ## What a step does -/

/-- The effect of a step, one constructor for each way it can go. -/
inductive Effect (s : Join) : JoinAction → Join → Prop where
  | record {frame : Bytes} (hp : s.pending = none) :
    Effect s (.record frame) { s with
      room := s.room.record ⟨s.recorded.length, frame⟩
      pending := some ⟨s.recorded.length, frame⟩
      recorded := s.recorded ++ [⟨s.recorded.length, frame⟩] }
  | send {f : Published} (hp : s.pending = some f) :
    Effect s .send { s with room := s.room.send f, pending := none, sent := s.sent ++ [f] }
  | subscribe (hp : s.phase = .joined) :
    Effect s .subscribe { s with
      room := s.room.subscribe viewer, phase := .subscribed, subscribedAt := s.sent.length }
  | snapshot (hp : s.phase = .subscribed) :
    Effect s .snapshot { s with
      phase := .replaying s.room.warmup.snapshot
      replay := s.room.warmup.snapshot
      snapshotAt := s.recorded.length }
  | replayWrites {f : Published} {rest : List Published} (hp : s.phase = .replaying (f :: rest)) :
    Effect s .replayNext { s with out := s.out ++ [f], phase := .replaying rest }
  | replayEnds (hp : s.phase = .replaying []) : Effect s .replayNext { s with phase := .live }
  | receives {f : Published} (hp : s.phase = .live) (hval : (s.room.tx.recv viewer).1 = .value f) :
    Effect s .recv { s with room := (s.room.recv viewer).2, out := s.out ++ [f] }
  | lags (hp : s.phase = .live) :
    Effect s .recv { s with room := (s.room.recv viewer).2, lagged := true }

theorem effect_of_step {s s' : Join} {a : JoinAction} (h : step s a = some s') : Effect s a s' := by
  cases a with
  | record frame =>
    simp only [step] at h
    split at h
    · simp at h
    · next hp =>
      simp only [Option.some.injEq] at h
      subst h
      exact .record hp
  | send =>
    simp only [step] at h
    split at h
    · simp at h
    · next f hp =>
      simp only [Option.some.injEq] at h
      subst h
      exact .send hp
  | subscribe =>
    simp only [step] at h
    split at h
    · next hp =>
      simp only [Option.some.injEq] at h
      subst h
      exact .subscribe hp
    · simp at h
  | snapshot =>
    simp only [step] at h
    split at h
    · next hp =>
      simp only [Option.some.injEq] at h
      subst h
      exact .snapshot hp
    · simp at h
  | replayNext =>
    simp only [step] at h
    split at h
    · next f rest hp =>
      simp only [Option.some.injEq] at h
      subst h
      exact .replayWrites hp
    · next hp =>
      simp only [Option.some.injEq] at h
      subst h
      exact .replayEnds hp
    · simp at h
  | recv =>
    simp only [step] at h
    split at h
    · next hp =>
      split at h
      · next f room hrecv =>
        simp only [Option.some.injEq] at h
        subst h
        obtain ⟨hval, rfl⟩ := Prod.mk.inj hrecv
        exact .receives hp hval
      · next n room hrecv =>
        simp only [Option.some.injEq] at h
        subst h
        obtain ⟨-, rfl⟩ := Prod.mk.inj hrecv
        exact .lags hp
      · simp at h
    · simp at h

/-! ## The invariant -/

/-- What the snapshot step left behind. -/
structure Snapshotted (s : Join) : Prop where
  order : s.subscribedAt ≤ s.snapshotAt
  replay : s.replay = (WarmupWindow.default.recordAll (s.recorded.take s.snapshotAt)).snapshot

/-- What the viewer has been sent, phase by phase. -/
def Shape (s : Join) : Prop :=
  match s.phase with
  | .joined => s.out = [] ∧ s.replay = [] ∧ s.lagged = false
  | .subscribed =>
    s.out = [] ∧ s.replay = [] ∧ s.lagged = false ∧ s.backlog = s.sentAfterSubscribe
  | .replaying rest =>
    s.Snapshotted ∧ s.out ++ rest = s.replay ∧ s.lagged = false ∧ s.backlog = s.sentAfterSubscribe
  | .live =>
    s.Snapshotted ∧ ∃ delivered, s.out = s.replay ++ delivered ∧
      (s.lagged = false → delivered ++ s.backlog = s.sentAfterSubscribe)

structure Inv (s : Join) : Prop where
  window : s.room.warmup = WarmupWindow.default.recordAll s.recorded
  numbered : Numbered Published.index s.recorded
  pending : s.recorded = s.sent ++ s.pending.toList
  cursors : s.room.tx.CursorsLe
  receiver : s.phase ≠ .joined → viewer ∈ s.room.tx.cursors
  subscribedLe : s.subscribedAt ≤ s.sent.length
  snapshotLe : s.snapshotAt ≤ s.recorded.length
  shape : s.Shape

theorem inv_init : Inv init where
  window := rfl
  numbered := .nil
  pending := rfl
  cursors := .channel 256
  receiver := fun h => absurd rfl h
  subscribedLe := Nat.le_refl _
  snapshotLe := Nat.le_refl _
  shape := ⟨rfl, rfl, rfl⟩

theorem Snapshotted.mono {s s' : Join} (h : s.Snapshotted) (hle : s.snapshotAt ≤ s.recorded.length)
    {fs : List Published} (hrec : s'.recorded = s.recorded ++ fs)
    (hsub : s'.subscribedAt = s.subscribedAt)
    (hat : s'.snapshotAt = s.snapshotAt) (hrep : s'.replay = s.replay) : s'.Snapshotted where
  order := by rw [hsub, hat]; exact h.order
  replay := by
    rw [hrep, hat, hrec, List.take_append_of_le_length hle]
    exact h.replay

/-- The shape only looks at what the viewer has and at what was sent to it. -/
theorem Shape.mono {s s' : Join} (h : s.Shape) (hle : s.snapshotAt ≤ s.recorded.length)
    (fs gs : List Published)
    (hrec : s'.recorded = s.recorded ++ fs) (hsub : s'.subscribedAt = s.subscribedAt)
    (hat : s'.snapshotAt = s.snapshotAt) (hrep : s'.replay = s.replay)
    (hphase : s'.phase = s.phase) (hout : s'.out = s.out) (hlag : s'.lagged = s.lagged)
    (hback : s.phase ≠ .joined → s'.backlog = s.backlog ++ gs)
    (hsent : s'.sentAfterSubscribe = s.sentAfterSubscribe ++ gs) : s'.Shape := by
  unfold Shape at h ⊢
  rw [hphase]
  cases hp : s.phase with
  | joined =>
    rw [hp] at h
    rw [hout, hrep, hlag]
    exact h
  | subscribed =>
    rw [hp] at h
    obtain ⟨ho, hr, hl, hb⟩ := h
    rw [hout, hrep, hlag, hback (by simp [hp]), hsent, hb]
    exact ⟨ho, hr, hl, rfl⟩
  | replaying rest =>
    rw [hp] at h
    obtain ⟨hsnap, ho, hl, hb⟩ := h
    refine ⟨hsnap.mono hle hrec hsub hat hrep, ?_, ?_, ?_⟩
    · rw [hout, hrep]; exact ho
    · rw [hlag]; exact hl
    · rw [hback (by simp [hp]), hsent, hb]
  | live =>
    rw [hp] at h
    obtain ⟨hsnap, delivered, ho, hl⟩ := h
    refine ⟨hsnap.mono hle hrec hsub hat hrep, delivered, ?_, fun hfalse => ?_⟩
    · rw [hout, hrep]; exact ho
    · rw [hback (by simp [hp]), hsent, ← List.append_assoc, hl (hlag ▸ hfalse)]

section Steps

variable {s s' : Join}

theorem inv_record (hs : Inv s) {frame : Bytes} (h : Effect s (.record frame) s') : Inv s' := by
  cases h with
  | record hp =>
    have hsent : s.recorded = s.sent := by
      have := hs.pending
      rwa [hp, Option.toList_none, List.append_nil] at this
    refine ⟨?_, ?_, ?_, hs.cursors, hs.receiver, hs.subscribedLe, ?_, ?_⟩
    · show (s.room.warmup.record _).2 = _
      rw [hs.window, WarmupWindow.recordAll_append]
      rfl
    · exact hs.numbered.concat rfl
    · simp [hsent]
    · exact Nat.le_trans hs.snapshotLe (by simp)
    · exact hs.shape.mono hs.snapshotLe [_] [] rfl rfl rfl rfl rfl rfl rfl
        (fun _ => (List.append_nil _).symm) (List.append_nil _).symm

theorem inv_send (hs : Inv s) (h : Effect s .send s') : Inv s' := by
  cases h with
  | @send f hp =>
    have hrec : s.recorded = s.sent ++ [f] := by
      have := hs.pending
      rwa [hp, Option.toList_some] at this
    refine ⟨hs.window, hs.numbered, ?_, hs.cursors.send f, ?_, ?_, hs.snapshotLe, ?_⟩
    · simp [hrec]
    · intro hj
      show viewer ∈ (s.room.tx.send f).cursors
      rw [Broadcast.cursors_send]
      exact hs.receiver hj
    · exact Nat.le_trans hs.subscribedLe (by simp)
    · refine hs.shape.mono hs.snapshotLe [] [f] (List.append_nil _).symm rfl rfl rfl
        rfl rfl rfl ?_ ?_
      · intro hj
        exact Broadcast.backlog_send hs.cursors (hs.receiver hj) f
      · exact List.drop_append_of_le_length hs.subscribedLe

theorem inv_subscribe (hs : Inv s) (h : Effect s .subscribe s') : Inv s' := by
  have hshape := hs.shape
  cases h with
  | subscribe hp =>
    simp only [Shape, hp] at hshape
    refine ⟨hs.window, hs.numbered, hs.pending, hs.cursors.subscribe _, fun _ => ?_, Nat.le_refl _,
      hs.snapshotLe, ?_⟩
    · exact Broadcast.mem_subscribe.mpr (.inl rfl)
    · refine ⟨hshape.1, hshape.2.1, hshape.2.2, ?_⟩
      show (s.room.tx.subscribe viewer).backlog viewer = s.sent.drop s.sent.length
      rw [Broadcast.backlog_subscribe, List.drop_length]

theorem inv_snapshot (hs : Inv s) (h : Effect s .snapshot s') : Inv s' := by
  have hshape := hs.shape
  cases h with
  | snapshot hp =>
    simp only [Shape, hp] at hshape
    obtain ⟨hout, -, hlag, hback⟩ := hshape
    refine ⟨hs.window, hs.numbered, hs.pending, hs.cursors, fun _ => hs.receiver (by simp [hp]),
      hs.subscribedLe, Nat.le_refl _, ⟨?_, ?_⟩, ?_, hlag, hback⟩
    · show s.subscribedAt ≤ s.recorded.length
      rw [hs.pending, List.length_append]
      exact Nat.le_trans hs.subscribedLe (Nat.le_add_right _ _)
    · show s.room.warmup.snapshot = _
      rw [List.take_length, hs.window]
    · show s.out ++ s.room.warmup.snapshot = s.room.warmup.snapshot
      rw [hout, List.nil_append]

theorem inv_replayNext (hs : Inv s) (h : Effect s .replayNext s') : Inv s' := by
  have hshape := hs.shape
  cases h with
  | @replayWrites f rest hp =>
    simp only [Shape, hp] at hshape
    obtain ⟨hsnap, hout, hlag, hback⟩ := hshape
    refine ⟨hs.window, hs.numbered, hs.pending, hs.cursors, fun _ => hs.receiver (by simp [hp]),
      hs.subscribedLe, hs.snapshotLe, ⟨hsnap.order, hsnap.replay⟩, ?_, hlag, hback⟩
    show s.out ++ [f] ++ rest = s.replay
    rw [List.append_assoc]
    exact hout
  | replayEnds hp =>
    simp only [Shape, hp] at hshape
    obtain ⟨hsnap, hout, hlag, hback⟩ := hshape
    refine ⟨hs.window, hs.numbered, hs.pending, hs.cursors, fun _ => hs.receiver (by simp [hp]),
      hs.subscribedLe, hs.snapshotLe, ⟨hsnap.order, hsnap.replay⟩, [], ?_, fun _ => hback⟩
    show s.out = s.replay ++ []
    rw [List.append_nil]
    rwa [List.append_nil] at hout

/-- The value received is the head of the backlog. -/
theorem backlog_receives {f : Published} (hval : (s.room.tx.recv viewer).1 = .value f) :
    s.backlog = f :: (s.room.tx.recv viewer).2.backlog viewer := by
  have hnot : ¬ s.room.tx.Lagging viewer := by
    intro hlagging
    obtain ⟨n, hn⟩ := Broadcast.recv_of_lagging hlagging
    rw [hn] at hval
    cases hval
  cases hb : s.room.tx.backlog viewer with
  | nil =>
    rw [Broadcast.recv_of_empty hb] at hval
    cases hval
  | cons g gs =>
    obtain ⟨hg, -, hrest⟩ := Broadcast.recv_of_backlog hnot hb
    obtain rfl : g = f := Broadcast.Recv.value.inj (hg.symm.trans hval)
    rw [backlog, hb, hrest]

theorem inv_recv (hs : Inv s) (h : Effect s .recv s') : Inv s' := by
  have hshape := hs.shape
  have hreceiver : s.phase = .live → viewer ∈ (s.room.tx.recv viewer).2.cursors :=
    fun hp => Broadcast.mem_recv.mpr (hs.receiver (by simp [hp]))
  cases h with
  | @receives f hp hval =>
    simp only [Shape, hp] at hshape
    obtain ⟨hsnap, delivered, hout, hlive⟩ := hshape
    refine ⟨hs.window, hs.numbered, hs.pending, hs.cursors.recv _, fun _ => hreceiver hp,
      hs.subscribedLe, hs.snapshotLe, ?_⟩
    simp only [Shape, hp]
    refine ⟨⟨hsnap.order, hsnap.replay⟩, delivered ++ [f], ?_, fun hlag => ?_⟩
    · rw [hout, List.append_assoc]
    · have hall := hlive hlag
      rw [backlog_receives hval] at hall
      rw [List.append_assoc]
      exact hall
  | lags hp =>
    simp only [Shape, hp] at hshape
    obtain ⟨hsnap, delivered, hout, hlive⟩ := hshape
    refine ⟨hs.window, hs.numbered, hs.pending, hs.cursors.recv _, fun _ => hreceiver hp,
      hs.subscribedLe, hs.snapshotLe, ?_⟩
    simp only [Shape, hp]
    exact ⟨⟨hsnap.order, hsnap.replay⟩, delivered, hout, by simp⟩

end Steps

theorem inv_preserved : machine.Preserves Inv := by
  intro s a s' hs hstep
  have h := effect_of_step hstep
  cases a with
  | record frame => exact inv_record hs h
  | send => exact inv_send hs h
  | subscribe => exact inv_subscribe hs h
  | snapshot => exact inv_snapshot hs h
  | replayNext => exact inv_replayNext hs h
  | recv => exact inv_recv hs h

theorem inv_reachable {s : Join} (h : machine.Reachable s) : Inv s :=
  inv_preserved.reachable machine inv_init h

end Join

end XyzenRelay.Stream
