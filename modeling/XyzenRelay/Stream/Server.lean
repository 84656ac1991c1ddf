-- SUMMARY: The stream server: the room map, the rooms, and every publisher and viewer handler, one atomic access at a time, with the effect of each step.
import XyzenRelay.Lib.Machine
import XyzenRelay.Stream.Room
import Mathlib.Logic.Function.Basic

/-!
# The stream server

Model of `room_for`, `handle_publisher` and `handle_viewer` in
`crates/stream/src/main.rs`, for any number of handlers on any peer ids. A step
is one section under the map lock, one access to a room, or one message a
handler reads or writes. Rooms are shared by reference, so the state keeps a
heap of them, and the map and the handlers hold room ids.

Frames carry the publisher session that recorded them. `created`, `sessions`,
`frames`, `joinedAt` and `replay` only remember what happened: no step reads
them, except to choose a fresh room or publisher id.
-/

namespace XyzenRelay.Stream

abbrev RoomId := Nat

/-- The name of a publisher handler: how many sessions were started before it. -/
abbrev PublisherId := Nat

/-- A frame with the publisher session that recorded it. -/
structure Tagged where
  session : PublisherId
  bytes : Bytes
  deriving DecidableEq, Repr

instance : Frame Tagged := ⟨Tagged.bytes⟩

/-- What `ws.next()` yields to a publisher handler. -/
inductive WsItem where
  | binary (frame : Bytes)
  | close
  /-- Text, ping, pong. -/
  | other
  | error
  | endOfStream
  deriving DecidableEq, Repr

/-- How far `handle_publisher` has come. -/
inductive PublisherPhase where
  /-- Waiting for the next item. -/
  | reading
  /-- A frame is recorded and not yet sent. -/
  | recorded (frame : Tagged)
  /-- The loop is left and the cleanup still to come. -/
  | exiting
  deriving DecidableEq, Repr

structure Publisher where
  peer : String
  room : RoomId
  phase : PublisherPhase
  /-- What this session has recorded. -/
  frames : List Tagged

structure Viewer where
  peer : String
  room : RoomId
  phase : ViewerPhase Tagged
  /-- Everything written to the sink. -/
  out : List Tagged
  /-- The snapshot it was given. -/
  replay : List Tagged
  /-- The number of publisher sessions started before it joined. -/
  joinedAt : Nat

structure Server where
  /-- The `RoomMap`. -/
  rooms : AList fun _ : String => RoomId
  heap : RoomId → RoomState Tagged
  publishers : PublisherId → Option Publisher
  viewers : ViewerId → Option Viewer
  /-- The peer every room was created for. -/
  created : List String
  /-- The peer of every publisher session started so far. -/
  sessions : List String

inductive PublisherMove where
  | item (i : WsItem)
  | send
  | cleanup
  deriving DecidableEq, Repr

/-- The moves of a viewer. The flag is whether the sink takes the message. -/
inductive ViewerMove where
  | subscribe
  | snapshot
  | replay (ok : Bool)
  | recv (ok : Bool)
  | ping (ok : Bool)
  deriving DecidableEq, Repr

inductive ServerAction where
  | publisherConnect (peer : String)
  | publisher (i : PublisherId) (m : PublisherMove)
  | viewerConnect (v : ViewerId) (peer : String)
  | viewer (v : ViewerId) (m : ViewerMove)
  deriving DecidableEq, Repr

namespace Server

def init : Server where
  rooms := ∅
  heap := fun _ => .new
  publishers := fun _ => none
  viewers := fun _ => none
  created := []
  sessions := []

/-! ## Updates -/

def setRoom (s : Server) (r : RoomId) (room : RoomState Tagged) : Server :=
  { s with heap := Function.update s.heap r room }

def setPublisher (s : Server) (i : PublisherId) (p : Option Publisher) : Server :=
  { s with publishers := Function.update s.publishers i p }

def setViewer (s : Server) (v : ViewerId) (w : Option Viewer) : Server :=
  { s with viewers := Function.update s.viewers v w }

/-- `room_for`: look the peer up, or insert a new room for it. -/
def roomFor (s : Server) (peer : String) : RoomId × Server :=
  match s.rooms.lookup peer with
  | some r => (r, s)
  | none =>
    let r := s.created.length
    (r, { s with
      rooms := s.rooms.insert peer r
      heap := Function.update s.heap r .new
      created := s.created ++ [peer] })

/-! ## The publisher handler -/

/-- A publisher is accepted and gets its room. -/
def connectPublisher (s : Server) (peer : String) : Server :=
  let (r, t) := s.roomFor peer
  { t.setPublisher s.sessions.length
    (some { peer, room := r, phase := .reading, frames := [] }) with
    sessions := s.sessions ++ [peer] }

/-- A binary message is recorded in the window of the room. -/
def recordFrame (s : Server) (i : PublisherId) (p : Publisher) (f : Tagged) : Server :=
  (s.setRoom p.room ((s.heap p.room).record f)).setPublisher i
    (some { p with phase := .recorded f, frames := p.frames ++ [f] })

/-- The recorded frame is broadcast. -/
def sendFrame (s : Server) (i : PublisherId) (p : Publisher) (f : Tagged) : Server :=
  (s.setRoom p.room ((s.heap p.room).send f)).setPublisher i (some { p with phase := .reading })

/-- The section under the map lock after the loop, and the return. -/
def cleanup (s : Server) (i : PublisherId) (p : Publisher) : Server :=
  let t := s.setPublisher i none
  match s.rooms.lookup p.peer with
  | none => t
  | some r =>
    if (s.heap r).tx.receiverCount = 0 then { t with rooms := s.rooms.erase p.peer } else t

def stepPublisher (s : Server) (i : PublisherId) (p : Publisher) : PublisherMove → Option Server
  | .item item =>
    match p.phase with
    | .reading =>
      match item with
      | .binary bytes => some (s.recordFrame i p ⟨i, bytes⟩)
      | .close | .endOfStream => some (s.setPublisher i (some { p with phase := .exiting }))
      | .other => some s
      -- `item?` returns from the handler, past the cleanup
      | .error => some (s.setPublisher i none)
    | _ => none
  | .send =>
    match p.phase with
    | .recorded f => some (s.sendFrame i p f)
    | _ => none
  | .cleanup =>
    match p.phase with
    | .exiting => some (s.cleanup i p)
    | _ => none

/-! ## The viewer handler -/

/-- A viewer is accepted and gets its room. -/
def connectViewer (s : Server) (v : ViewerId) (peer : String) : Server :=
  let (r, t) := s.roomFor peer
  t.setViewer v (some
    { peer, room := r, phase := .joined, out := [], replay := [], joinedAt := s.sessions.length })

/-- A viewer handler returns, which drops its receiver. -/
def viewerLeave (s : Server) (v : ViewerId) (w : Viewer) : Server :=
  (s.setRoom w.room ((s.heap w.room).leave v)).setViewer v none

/-- The handler writes a message: it returns if the sink is gone. -/
def viewerWrite (s : Server) (v : ViewerId) (w : Viewer) (f : Tagged) (ok : Bool) : Server :=
  if ok then s.setViewer v (some { w with out := w.out ++ [f] }) else s.viewerLeave v w

def stepViewer (s : Server) (v : ViewerId) (w : Viewer) : ViewerMove → Option Server
  | .subscribe =>
    match w.phase with
    | .joined =>
      some ((s.setRoom w.room ((s.heap w.room).subscribe v)).setViewer v
        (some { w with phase := .subscribed }))
    | _ => none
  | .snapshot =>
    match w.phase with
    | .subscribed =>
      let frames := (s.heap w.room).warmup.snapshot
      some (s.setViewer v (some { w with phase := .replaying frames, replay := frames }))
    | _ => none
  | .replay ok =>
    match w.phase with
    | .replaying (f :: rest) => some (s.viewerWrite v { w with phase := .replaying rest } f ok)
    | .replaying [] => some (s.setViewer v (some { w with phase := .live }))
    | _ => none
  | .recv ok =>
    match w.phase with
    | .live =>
      match (s.heap w.room).recv v with
      | (.value f, room) => some ((s.setRoom w.room room).viewerWrite v w f ok)
      | (.lagged _, room) => some (s.setRoom w.room room)
      -- the handler keeps the sender alive, so the channel never reports that it is closed
      | (.empty, _) => none
    | _ => none
  | .ping ok =>
    match w.phase with
    | .live => some (if ok then s else s.viewerLeave v w)
    | _ => none

def step (s : Server) : ServerAction → Option Server
  | .publisherConnect peer => some (s.connectPublisher peer)
  | .publisher i m =>
    match s.publishers i with
    | some p => s.stepPublisher i p m
    | none => none
  | .viewerConnect v peer =>
    match s.viewers v with
    | some _ => none
    | none => some (s.connectViewer v peer)
  | .viewer v m =>
    match s.viewers v with
    | some w => s.stepViewer v w m
    | none => none

def machine : Machine Server ServerAction := { init := init, step := step }

@[simp] theorem setPublisher_heap (s : Server) (i : PublisherId) (p) :
    (s.setPublisher i p).heap = s.heap := rfl

theorem setRoom_self (s : Server) (r : RoomId) : s.setRoom r (s.heap r) = s := by
  simp [setRoom]

theorem setPublisher_self {s : Server} {i : PublisherId} {p : Publisher}
    (h : s.publishers i = some p) :
    s.setPublisher i (some p) = s := by
  simp [setPublisher, ← h]

theorem setViewer_self {s : Server} {v : ViewerId} {w : Viewer} (h : s.viewers v = some w) :
    s.setViewer v (some w) = s := by
  simp [setViewer, ← h]

theorem setRoom_viewerLeave (s : Server) (v : ViewerId) (w : Viewer) (room : RoomState Tagged) :
    (s.setRoom w.room room).viewerLeave v
    w = (s.setRoom w.room (room.leave v)).setViewer v none := by
  simp [viewerLeave, setRoom]

/-- Besides its own handler, the cleanup changes nothing but the map of the rooms. -/
theorem cleanup_eq (s : Server) (i : PublisherId) (p : Publisher) :
    s.cleanup i p = { s.setPublisher i none with rooms := (s.cleanup i p).rooms } := by
  unfold cleanup
  dsimp only
  split
  · rfl
  · split <;> rfl

theorem cleanup_publishers (s : Server) (i : PublisherId) (p : Publisher) :
    (s.cleanup i p).publishers = Function.update s.publishers i none := by
  rw [cleanup_eq]
  rfl

theorem cleanup_viewers (s : Server) (i : PublisherId) (p : Publisher) :
    (s.cleanup i p).viewers = s.viewers := by
  rw [cleanup_eq]
  rfl

theorem cleanup_created (s : Server) (i : PublisherId) (p : Publisher) :
    (s.cleanup i p).created = s.created := by
  rw [cleanup_eq]
  rfl

/-- What a set of handlers looks like after one of them has changed. -/
theorem update_eq_some {α : Type} {handlers : Nat → Option α} {i j : Nat} {new : Option α} {a : α}
    (h : Function.update handlers i new j = some a) :
    (j = i ∧ new = some a) ∨ (j ≠ i ∧ handlers j = some a) := by
  by_cases hj : j = i
  · subst hj
    exact .inl ⟨rfl, by simpa using h⟩
  · exact .inr ⟨hj, by simpa [hj] using h⟩

/-! ## What a step does -/

/-- A room after a move of the viewer `v`: the window is untouched, and so are the
    receivers of the others. -/
structure RoomKept (v : ViewerId) (old new : RoomState Tagged) : Prop where
  warmup : new.warmup = old.warmup
  others : ∀ q, q ≠ v → q ∈ old.tx.cursors → q ∈ new.tx.cursors
  cursorsLe : old.tx.CursorsLe → new.tx.CursorsLe
  none_added : ∀ q, q ≠ v → q ∈ new.tx.cursors → q ∈ old.tx.cursors

/-- A viewer handler has moved on. -/
structure ViewerMoved (v : ViewerId) (w w' : Viewer) (old new : RoomState Tagged) : Prop where
  kept : RoomKept v old new
  peer : w'.peer = w.peer
  room : w'.room = w.room
  joinedAt : w'.joinedAt = w.joinedAt
  replay : w'.replay = w.replay ∨ w'.replay = old.warmup.snapshot
  own : v ∈ old.tx.cursors → v ∈ new.tx.cursors
  subscribes : w.phase = .joined → w'.phase ≠ .joined → v ∈ new.tx.cursors

/-- The effect of a step, by what it does to the map, the rooms and the handlers. -/
inductive Effect (s : Server) : ServerAction → Server → Prop where
  | publisherConnect (peer : String) : Effect s (.publisherConnect peer) (s.connectPublisher peer)
  | record {i : PublisherId} {p : Publisher} {frame : Bytes} (hp : s.publishers i = some p) :
    Effect s (.publisher i (.item (.binary frame))) (s.recordFrame i p ⟨i, frame⟩)
  | publisherMoves {i : PublisherId} {p p' : Publisher} {m : PublisherMove}
    (hp : s.publishers i = some p) (hpeer : p'.peer = p.peer) (hroom : p'.room = p.room)
    (hframes : p'.frames = p.frames) (hm : m ≠ .cleanup) :
    Effect s (.publisher i m) (s.setPublisher i (some p'))
  | publisherReturns {i : PublisherId} {p : Publisher} (hp : s.publishers i = some p) :
    Effect s (.publisher i (.item .error)) (s.setPublisher i none)
  | send {i : PublisherId} {p : Publisher} {f : Tagged} (hp : s.publishers i = some p)
    (hphase : p.phase = .recorded f) : Effect s (.publisher i .send) (s.sendFrame i p f)
  | cleanup {i : PublisherId} {p : Publisher} (hp : s.publishers i = some p) :
    Effect s (.publisher i .cleanup) (s.cleanup i p)
  | viewerConnect {v : ViewerId} {peer : String} (hv : s.viewers v = none) :
    Effect s (.viewerConnect v peer) (s.connectViewer v peer)
  | viewerMoves {v : ViewerId} {w w' : Viewer} {m : ViewerMove} {room : RoomState Tagged}
    (hw : s.viewers v = some w) (h : ViewerMoved v w w' (s.heap w.room) room) :
    Effect s (.viewer v m) ((s.setRoom w.room room).setViewer v (some w'))
  | viewerReturns {v : ViewerId} {w : Viewer} {m : ViewerMove} {room : RoomState Tagged}
    (hw : s.viewers v = some w) (h : RoomKept v (s.heap w.room) room)
    (hgone : v ∉ room.tx.cursors) :
    Effect s (.viewer v m) ((s.setRoom w.room room).setViewer v none)

theorem RoomKept.refl (v : ViewerId) (room : RoomState Tagged) : RoomKept v room room :=
  ⟨rfl, fun _ _ h => h, id, fun _ _ h => h⟩

theorem RoomKept.subscribe (v : ViewerId) (room : RoomState Tagged) :
    RoomKept v room (room.subscribe v) :=
  ⟨rfl, fun _ _ h => Broadcast.mem_subscribe.mpr (.inr h), fun h => h.subscribe v,
    fun _ hq h => (Broadcast.mem_subscribe.mp h).resolve_left hq⟩

theorem RoomKept.recv (v : ViewerId) (room : RoomState Tagged) : RoomKept v room (room.recv v).2 :=
  ⟨rfl, fun _ _ h => Broadcast.mem_recv.mpr h, fun h => h.recv v,
    fun _ _ h => Broadcast.mem_recv.mp h⟩

theorem RoomKept.leave {v : ViewerId} {old new : RoomState Tagged} (h : RoomKept v old new) :
    RoomKept v old (new.leave v) :=
  ⟨h.warmup, fun q hq hmem => Broadcast.mem_drop.mpr ⟨hq, h.others q hq hmem⟩,
    fun hle => (h.cursorsLe hle).drop v, fun q hq hmem =>
      h.none_added q hq (Broadcast.mem_drop.mp hmem).2⟩

theorem not_mem_leave (v : ViewerId) (room : RoomState Tagged) : v ∉ (room.leave v).tx.cursors :=
  fun hmem => (Broadcast.mem_drop.mp hmem).1 rfl

section Viewers

variable {s s' : Server} {v : ViewerId} {w : Viewer} {m : ViewerMove}

/-- A move that leaves the room alone. -/
theorem effect_of_setViewer {w' : Viewer} (hw : s.viewers v = some w) (hpeer : w'.peer = w.peer)
    (hroom : w'.room = w.room) (hjoined : w'.joinedAt = w.joinedAt)
    (hreplay : w'.replay = w.replay ∨ w'.replay = (s.heap w.room).warmup.snapshot)
    (hphase : w.phase ≠ .joined) : Effect s (.viewer v m) (s.setViewer v (some w')) := by
  have h : Effect s (.viewer v m) ((s.setRoom w.room (s.heap w.room)).setViewer v (some w')) :=
    .viewerMoves hw ⟨.refl v _, hpeer, hroom, hjoined, hreplay, id, fun hj => absurd hj hphase⟩
  rwa [setRoom_self] at h

theorem effect_of_viewerLeave (hw : s.viewers v = some w) :
    Effect s (.viewer v m) (s.viewerLeave v w) :=
  .viewerReturns hw (RoomKept.refl v _).leave (not_mem_leave v _)

theorem effect_of_stepViewer (hw : s.viewers v = some w) (h : s.stepViewer v w m = some s') :
    Effect s (.viewer v m) s' := by
  cases m with
  | subscribe =>
    simp only [stepViewer] at h
    split at h
    · simp only [Option.some.injEq] at h
      subst h
      exact .viewerMoves hw
        ⟨.subscribe v _, rfl, rfl, rfl, .inl rfl, fun _ => Broadcast.mem_subscribe.mpr (.inl rfl),
          fun _ _ => Broadcast.mem_subscribe.mpr (.inl rfl)⟩
    · simp at h
  | snapshot =>
    simp only [stepViewer] at h
    split at h
    · next hphase =>
      simp only [Option.some.injEq] at h
      subst h
      exact effect_of_setViewer hw rfl rfl rfl (.inr rfl) (by simp [hphase])
    · simp at h
  | replay ok =>
    simp only [stepViewer] at h
    split at h
    · next f rest hphase =>
      simp only [Option.some.injEq] at h
      subst h
      cases ok with
      | true => exact effect_of_setViewer hw rfl rfl rfl (.inl rfl) (by simp [hphase])
      | false => exact (effect_of_viewerLeave hw : Effect s _ (s.viewerLeave v w))
    · next hphase =>
      simp only [Option.some.injEq] at h
      subst h
      exact effect_of_setViewer hw rfl rfl rfl (.inl rfl) (by simp [hphase])
    · simp at h
  | recv ok =>
    simp only [stepViewer] at h
    have hown : v ∈ (s.heap w.room).tx.cursors → v ∈ ((s.heap w.room).recv v).2.tx.cursors :=
      Broadcast.mem_recv.mpr
    split at h
    · next hphase =>
      have hjoined : w.phase ≠ .joined := by simp [hphase]
      split at h
      · next f room hrecv =>
        simp only [Option.some.injEq] at h
        subst h
        obtain ⟨-, rfl⟩ := Prod.mk.inj hrecv
        cases ok with
        | true =>
          exact .viewerMoves hw
            ⟨.recv v _, rfl, rfl, rfl, .inl rfl, hown, fun hj => absurd hj hjoined⟩
        | false =>
          rw [viewerWrite, if_neg (by simp), setRoom_viewerLeave]
          exact .viewerReturns hw (RoomKept.recv v _).leave (not_mem_leave v _)
      · next n room hrecv =>
        simp only [Option.some.injEq] at h
        subst h
        obtain ⟨-, rfl⟩ := Prod.mk.inj hrecv
        have heffect : Effect s (.viewer v (.recv ok))
            ((s.setRoom w.room _).setViewer v (some w)) :=
          .viewerMoves hw ⟨.recv v _, rfl, rfl, rfl, .inl rfl, hown, fun hj => absurd hj hjoined⟩
        rwa [setViewer_self (by exact hw)] at heffect
      · simp at h
    · simp at h
  | ping ok =>
    simp only [stepViewer] at h
    split at h
    · next hphase =>
      simp only [Option.some.injEq] at h
      subst h
      cases ok with
      | true =>
        have heffect : Effect s (.viewer v (.ping true)) (s.setViewer v (some w)) :=
          effect_of_setViewer hw rfl rfl rfl (.inl rfl) (by simp [hphase])
        rwa [setViewer_self hw] at heffect
      | false => exact effect_of_viewerLeave hw
    · simp at h

end Viewers

section Publishers

variable {s s' : Server} {i : PublisherId} {p : Publisher} {m : PublisherMove}

theorem effect_of_stepPublisher (hp : s.publishers i = some p)
    (h : s.stepPublisher i p m = some s') :
    Effect s (.publisher i m) s' := by
  cases m with
  | item item =>
    simp only [stepPublisher] at h
    split at h
    · split at h
      · simp only [Option.some.injEq] at h
        subst h
        exact .record hp
      · simp only [Option.some.injEq] at h
        subst h
        exact .publisherMoves hp rfl rfl rfl (by simp)
      · simp only [Option.some.injEq] at h
        subst h
        exact .publisherMoves hp rfl rfl rfl (by simp)
      · simp only [Option.some.injEq] at h
        subst h
        have heffect : Effect s (.publisher i (.item .other)) (s.setPublisher i (some p)) :=
          .publisherMoves hp rfl rfl rfl (by simp)
        rwa [setPublisher_self hp] at heffect
      · simp only [Option.some.injEq] at h
        subst h
        exact .publisherReturns hp
    · simp at h
  | send =>
    simp only [stepPublisher] at h
    split at h
    · next f hphase =>
      simp only [Option.some.injEq] at h
      subst h
      exact .send hp hphase
    · simp at h
  | cleanup =>
    simp only [stepPublisher] at h
    split at h
    · simp only [Option.some.injEq] at h
      subst h
      exact .cleanup hp
    · simp at h

end Publishers

theorem effect_of_step {s s' : Server} {a : ServerAction} (h : machine.step s a = some s') :
    Effect s a s' := by
  cases a with
  | publisherConnect peer =>
    obtain rfl : s.connectPublisher peer = s' := Option.some.inj h
    exact .publisherConnect peer
  | publisher i m =>
    simp only [machine, step] at h
    split at h
    · next p hp => exact effect_of_stepPublisher hp h
    · simp at h
  | viewerConnect v peer =>
    simp only [machine, step] at h
    split at h
    · simp at h
    · next hv =>
      simp only [Option.some.injEq] at h
      subst h
      exact .viewerConnect hv
  | viewer v m =>
    simp only [machine, step] at h
    split at h
    · next w hw => exact effect_of_stepViewer hw h
    · simp at h

end Server

end XyzenRelay.Stream
