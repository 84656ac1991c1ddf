-- SUMMARY: A handler's move reads and writes its own room only, so it carries over to another room with the same contents.
import XyzenRelay.Lib.Journal
import XyzenRelay.Stream.ServerInv

/-!
# Local moves

Apart from the cleanup, a handler that has its room works on nothing else: `move` is
the step of a handler as a function of the handler and its room.
-/

namespace XyzenRelay.Stream

/-- What a publisher handler makes of its room and of itself; `none` is its return. -/
def Publisher.move (i : PublisherId) (p : Publisher) (room : RoomState Tagged) :
    PublisherMove → Option (RoomState Tagged × Option Publisher)
  | .item item =>
    match p.phase with
    | .reading =>
      match item with
      | .binary bytes =>
        some (room.record ⟨i, bytes⟩,
          some { p with phase := .recorded ⟨i, bytes⟩, frames := p.frames ++ [⟨i, bytes⟩] })
      | .close | .endOfStream => some (room, some { p with phase := .exiting })
      | .other => some (room, some p)
      | .error => some (room, none)
    | _ => none
  | .send =>
    match p.phase with
    | .recorded f => some (room.send f, some { p with phase := .reading })
    | _ => none
  | .cleanup => none

/-- A write: the handler returns if the sink is gone. -/
def Viewer.write (v : ViewerId) (w : Viewer) (room : RoomState Tagged) (f : Tagged) (ok : Bool) :
    RoomState Tagged × Option Viewer :=
  if ok then (room, some { w with out := w.out ++ [f] }) else (room.leave v, none)

/-- What a viewer handler makes of its room and of itself; `none` is its return. -/
def Viewer.move (v : ViewerId) (w : Viewer) (room : RoomState Tagged) :
    ViewerMove → Option (RoomState Tagged × Option Viewer)
  | .subscribe =>
    match w.phase with
    | .joined => some (room.subscribe v, some { w with phase := .subscribed })
    | _ => none
  | .snapshot =>
    match w.phase with
    | .subscribed =>
      some (room, some
        { w with phase := .replaying room.warmup.snapshot, replay := room.warmup.snapshot })
    | _ => none
  | .replay ok =>
    match w.phase with
    | .replaying (f :: rest) => some (Viewer.write v { w with phase := .replaying rest } room f ok)
    | .replaying [] => some (room, some { w with phase := .live })
    | _ => none
  | .recv ok =>
    match w.phase with
    | .live =>
      match room.recv v with
      | (.value f, room') => some (w.write v room' f ok)
      | (.lagged _, room') => some (room', some w)
      | (.empty, _) => none
    | _ => none
  | .ping ok =>
    match w.phase with
    | .live => some (if ok then (room, some w) else (room.leave v, none))
    | _ => none

namespace Server

variable {s s' : Server}

theorem stepPublisher_eq {i : PublisherId} {p : Publisher} {m : PublisherMove}
    (hp : s.publishers i = some p)
    (hm : m ≠ .cleanup) : s.stepPublisher i p m =
      (p.move i (s.heap p.room) m).map fun x => (s.setRoom p.room x.1).setPublisher i x.2 := by
  cases m with
  | item item =>
    simp only [stepPublisher, Publisher.move]
    cases p.phase with
    | reading =>
      cases item with
      | other => simp [setRoom_self, setPublisher_self hp]
      | _ => simp [setRoom_self, recordFrame]
    | _ => rfl
  | send =>
    simp only [stepPublisher, Publisher.move]
    cases p.phase <;> rfl
  | cleanup => exact absurd rfl hm

theorem viewerWrite_eq {v : ViewerId} {f : Tagged} (w : Viewer)
    (room : RoomState Tagged) (ok : Bool) :
    (s.setRoom w.room room).viewerWrite v w f ok =
      (s.setRoom w.room (w.write v room f ok).1).setViewer v (w.write v room f ok).2 := by
  cases ok with
  | true => rfl
  | false => exact setRoom_viewerLeave s v w room

theorem stepViewer_eq {v : ViewerId} {w : Viewer} {m : ViewerMove} (hw : s.viewers v = some w) :
    s.stepViewer v w m = (w.move v (s.heap w.room) m).map fun x =>
      (s.setRoom w.room x.1).setViewer v x.2 := by
  cases m with
  | subscribe =>
    simp only [stepViewer, Viewer.move]
    cases w.phase <;> rfl
  | snapshot =>
    simp only [stepViewer, Viewer.move]
    cases w.phase <;> simp [setRoom_self]
  | replay ok =>
    simp only [stepViewer, Viewer.move]
    cases w.phase with
    | replaying rest =>
      cases rest with
      | nil => simp [setRoom_self]
      | cons f rest =>
        have hwrite := viewerWrite_eq (s := s) (v := v) (f := f) { w with phase := .replaying rest }
          (s.heap w.room) ok
        simp only [setRoom_self] at hwrite
        simp [hwrite]
    | _ => rfl
  | recv ok =>
    simp only [stepViewer, Viewer.move]
    cases w.phase with
    | live =>
      cases hrecv : (s.heap w.room).recv v with
      | mk res room =>
        cases res with
        | value f => simp [viewerWrite_eq]
        | lagged n =>
          have hself : (s.setRoom w.room room).setViewer v (some w) = s.setRoom w.room room :=
            setViewer_self hw
          simp [hself]
        | empty => rfl
    | _ => rfl
  | ping ok =>
    simp only [stepViewer, Viewer.move]
    cases w.phase with
    | live => cases ok <;> simp [setRoom_self, setViewer_self hw, viewerLeave]
    | _ => rfl

end Server

/-- A handler keeps its peer and its room. -/
theorem Publisher.move_kept {i : PublisherId} {p : Publisher} {room : RoomState Tagged}
    {m : PublisherMove}
    {x : RoomState Tagged × Option Publisher} (h : p.move i room m = some x) :
    ∀ q ∈ x.2, q.peer = p.peer ∧ q.room = p.room := by
  unfold Publisher.move at h
  split at h
  · split at h
    · split at h <;>
      · simp only [Option.some.injEq] at h
        subst h
        first | (rintro q ⟨⟩; exact ⟨rfl, rfl⟩) | simp
    · simp at h
  · split at h
    · simp only [Option.some.injEq] at h
      subst h
      rintro q ⟨⟩
      exact ⟨rfl, rfl⟩
    · simp at h
  · simp at h

theorem Viewer.write_kept (v : ViewerId) (w : Viewer) (room : RoomState Tagged)
    (f : Tagged) (ok : Bool) :
    ∀ x ∈ (w.write v room f ok).2, x.peer = w.peer ∧ x.room = w.room := by
  cases ok with
  | true =>
    rintro x ⟨⟩
    exact ⟨rfl, rfl⟩
  | false => simp [Viewer.write]

theorem Viewer.move_kept {v : ViewerId} {w : Viewer} {room : RoomState Tagged} {m : ViewerMove}
    {x : RoomState Tagged × Option Viewer} (h : w.move v room m = some x) :
    ∀ y ∈ x.2, y.peer = w.peer ∧ y.room = w.room := by
  unfold Viewer.move at h
  split at h
  · split at h
    · simp only [Option.some.injEq] at h
      subst h
      rintro y ⟨⟩
      exact ⟨rfl, rfl⟩
    · simp at h
  · split at h
    · simp only [Option.some.injEq] at h
      subst h
      rintro y ⟨⟩
      exact ⟨rfl, rfl⟩
    · simp at h
  · split at h
    · simp only [Option.some.injEq] at h
      subst h
      exact Viewer.write_kept v _ room _ _
    · simp only [Option.some.injEq] at h
      subst h
      rintro y ⟨⟩
      exact ⟨rfl, rfl⟩
    · simp at h
  · split at h
    · split at h
      · simp only [Option.some.injEq] at h
        subst h
        exact Viewer.write_kept v w _ _ _
      · simp only [Option.some.injEq] at h
        subst h
        rintro y ⟨⟩
        exact ⟨rfl, rfl⟩
      · simp at h
    · simp at h
  · split at h
    · simp only [Option.some.injEq] at h
      subst h
      split
      · rintro y ⟨⟩
        exact ⟨rfl, rfl⟩
      · simp
    · simp at h

/-! ## The id of the room -/

def Publisher.rename (g : RoomId → RoomId) (p : Publisher) : Publisher :=
  { p with room := g p.room }

def Viewer.rename (g : RoomId → RoomId) (w : Viewer) : Viewer := { w with room := g w.room }

/-- A handler does not look at the id of its room. -/
theorem Publisher.move_rename (g : RoomId → RoomId) (i : PublisherId) (p : Publisher)
    (room : RoomState Tagged)
    (m : PublisherMove) :
    (p.rename g).move i room m = (p.move i room m).map fun x =>
    (x.1, x.2.map (Publisher.rename g)) := by
  obtain ⟨peer, r, phase, frames⟩ := p
  cases m with
  | item item => cases phase <;> cases item <;> rfl
  | send => cases phase <;> rfl
  | cleanup => rfl

theorem Viewer.move_rename (g : RoomId → RoomId) (v : ViewerId) (w : Viewer)
    (room : RoomState Tagged)
    (m : ViewerMove) :
    (w.rename g).move v room m = (w.move v room m).map fun x =>
    (x.1, x.2.map (Viewer.rename g)) := by
  obtain ⟨peer, r, phase, out, replay, joinedAt⟩ := w
  cases m with
  | subscribe => cases phase <;> rfl
  | snapshot => cases phase <;> rfl
  | replay ok =>
    cases phase with
    | replaying rest =>
      cases rest with
      | nil => rfl
      | cons f rest => cases ok <;> rfl
    | _ => rfl
  | recv ok =>
    cases phase with
    | live =>
      simp only [Viewer.move, Viewer.rename]
      cases room.recv v with
      | mk res room' =>
        cases res with
        | value f => cases ok <;> rfl
        | _ => rfl
    | _ => rfl
  | ping ok => cases phase <;> cases ok <;> rfl

/-! ## Where frames come from -/

section Holds

variable {P Q : Tagged → Prop}

/-- Every frame the room can hand out has the property. -/
structure RoomState.Holds (P : Tagged → Prop) (room : RoomState Tagged) : Prop where
  window : ∃ H, room.warmup = WarmupWindow.default.recordAll H ∧ ∀ f ∈ H, P f
  log : ∀ f ∈ room.tx.log, P f

def Publisher.Holds (P : Tagged → Prop) (p : Publisher) : Prop := ∀ f, p.phase = .recorded f → P f

/-- What the viewer has written, and what it has yet to replay. -/
structure Viewer.Holds (P : Tagged → Prop) (w : Viewer) : Prop where
  out : ∀ f ∈ w.out, P f
  replaying : ∀ rest, w.phase = .replaying rest → ∀ f ∈ rest, P f

theorem RoomState.Holds.mono {room : RoomState Tagged} (hPQ : ∀ f, P f → Q f) (h : room.Holds P) :
    room.Holds Q := by
  obtain ⟨⟨H, hwindow, hH⟩, hlog⟩ := h
  exact ⟨⟨H, hwindow, fun f hf => hPQ f (hH f hf)⟩, fun f hf => hPQ f (hlog f hf)⟩

theorem Publisher.Holds.mono {p : Publisher} (hPQ : ∀ f, P f → Q f) (h : p.Holds P) : p.Holds Q :=
  fun f hphase => hPQ f (h f hphase)

theorem Viewer.Holds.mono {w : Viewer} (hPQ : ∀ f, P f → Q f) (h : w.Holds P) : w.Holds Q :=
  ⟨fun f hf => hPQ f (h.out f hf), fun rest hphase f hf => hPQ f (h.replaying rest hphase f hf)⟩

namespace RoomState.Holds

variable {room : RoomState Tagged} {f : Tagged}

theorem new : (RoomState.new : RoomState Tagged).Holds P :=
  ⟨⟨[], rfl, by simp⟩, by simp [RoomState.new, Broadcast.channel]⟩

theorem record (h : room.Holds P) (hf : P f) : (room.record f).Holds P := by
  obtain ⟨⟨H, hwindow, hH⟩, hlog⟩ := h
  refine ⟨⟨H ++ [f], ?_, ?_⟩, hlog⟩
  · rw [WarmupWindow.recordAll_append, ← hwindow]
    rfl
  · intro g hg
    rcases List.mem_append.mp hg with hg | hg
    · exact hH g hg
    · rwa [List.mem_singleton.mp hg]

theorem send (h : room.Holds P) (hf : P f) : (room.send f).Holds P := by
  refine ⟨h.window, fun g hg => ?_⟩
  simp only [RoomState.send, Broadcast.send] at hg
  split at hg
  · exact h.log g hg
  · rcases List.mem_append.mp hg with hg | hg
    · exact h.log g hg
    · rwa [List.mem_singleton.mp hg]

theorem recv (h : room.Holds P) (v : ViewerId) : (room.recv v).2.Holds P :=
  ⟨h.window, by simpa only [RoomState.recv, Broadcast.log_recv] using h.log⟩

theorem snapshot (h : room.Holds P) : ∀ g ∈ room.warmup.snapshot, P g := by
  obtain ⟨⟨H, hwindow, hH⟩, -⟩ := h
  rw [hwindow]
  exact fun g hg => hH g (mem_of_mem_snapshot hg)

end RoomState.Holds

/-- A publisher hands on what its room and its socket give it. -/
theorem Publisher.move_holds {i : PublisherId} {p : Publisher} {room : RoomState Tagged}
    {m : PublisherMove}
    {x : RoomState Tagged × Option Publisher} (h : p.move i room m = some x) (hroom : room.Holds P)
    (hp : p.Holds P)
    (hnew : ∀ bytes, m = .item (.binary bytes) → P ⟨i, bytes⟩) :
    x.1.Holds P ∧ ∀ q ∈ x.2, q.Holds P := by
  have hkept : ∀ {q : Publisher}, (∀ f, q.phase ≠ .recorded f) → ∀ q' ∈ some q, q'.Holds P := by
    rintro q hq q' ⟨⟩ f hphase
    exact absurd hphase (hq f)
  unfold Publisher.move at h
  split at h
  · split at h
    · split at h
      · next bytes =>
        simp only [Option.some.injEq] at h
        subst h
        refine ⟨hroom.record (hnew bytes rfl), ?_⟩
        rintro q ⟨⟩ f hphase
        obtain rfl := PublisherPhase.recorded.inj hphase
        exact hnew bytes rfl
      · simp only [Option.some.injEq] at h
        subst h
        exact ⟨hroom, hkept (by simp)⟩
      · simp only [Option.some.injEq] at h
        subst h
        exact ⟨hroom, hkept (by simp)⟩
      · simp only [Option.some.injEq] at h
        subst h
        exact ⟨hroom, by rintro q ⟨⟩; exact hp⟩
      · simp only [Option.some.injEq] at h
        subst h
        exact ⟨hroom, by simp⟩
    · simp at h
  · split at h
    · next f hphase =>
      simp only [Option.some.injEq] at h
      subst h
      exact ⟨hroom.send (hp f hphase), hkept (by simp)⟩
    · simp at h
  · simp at h

theorem Viewer.write_holds {v : ViewerId} {w : Viewer} {room : RoomState Tagged}
    {f : Tagged} (ok : Bool)
    (hroom : room.Holds P) (hw : w.Holds P) (hf : P f) :
    (w.write v room f ok).1.Holds P ∧ ∀ x ∈ (w.write v room f ok).2, x.Holds P := by
  cases ok with
  | true =>
    refine ⟨hroom, ?_⟩
    rintro x ⟨⟩
    refine ⟨fun g hg => ?_, hw.replaying⟩
    rcases List.mem_append.mp hg with hg | hg
    · exact hw.out g hg
    · rwa [List.mem_singleton.mp hg]
  | false => exact ⟨⟨hroom.window, hroom.log⟩, by simp [Viewer.write]⟩

/-- A viewer is given nothing but what its room holds. -/
theorem Viewer.move_holds {v : ViewerId} {w : Viewer} {room : RoomState Tagged} {m : ViewerMove}
    {x : RoomState Tagged × Option Viewer} (h : w.move v room m = some x) (hroom : room.Holds P)
    (hw : w.Holds P) :
    x.1.Holds P ∧ ∀ y ∈ x.2, y.Holds P := by
  unfold Viewer.move at h
  split at h
  · split at h
    · simp only [Option.some.injEq] at h
      subst h
      exact ⟨⟨hroom.window, hroom.log⟩, by rintro y ⟨⟩; exact ⟨hw.out, by simp⟩⟩
    · simp at h
  · split at h
    · simp only [Option.some.injEq] at h
      subst h
      refine ⟨hroom, ?_⟩
      rintro y ⟨⟩
      refine ⟨hw.out, fun rest hphase => ?_⟩
      obtain rfl := ViewerPhase.replaying.inj hphase
      exact hroom.snapshot
    · simp at h
  · next ok =>
    split at h
    · next f rest hphase =>
      simp only [Option.some.injEq] at h
      subst h
      have hall := hw.replaying (f :: rest) hphase
      refine Viewer.write_holds ok hroom ⟨hw.out, fun rest' hphase' => ?_⟩ (hall f (by simp))
      obtain rfl := ViewerPhase.replaying.inj hphase'
      exact fun g hg => hall g (by simp [hg])
    · simp only [Option.some.injEq] at h
      subst h
      exact ⟨hroom, by rintro y ⟨⟩; exact ⟨hw.out, by simp⟩⟩
    · simp at h
  · next ok =>
    split at h
    · split at h
      · next f room' hrecv =>
        simp only [Option.some.injEq] at h
        subst h
        obtain ⟨hvalue, rfl⟩ := Prod.mk.inj hrecv
        exact Viewer.write_holds ok (hroom.recv v) hw
          (hroom.log f (Broadcast.mem_log_of_recv hvalue))
      · next n room' hrecv =>
        simp only [Option.some.injEq] at h
        subst h
        obtain ⟨-, rfl⟩ := Prod.mk.inj hrecv
        exact ⟨hroom.recv v, by rintro y ⟨⟩; exact hw⟩
      · simp at h
    · simp at h
  · next ok =>
    split at h
    · simp only [Option.some.injEq] at h
      subst h
      cases ok with
      | true => exact ⟨hroom, by rintro y ⟨⟩; exact hw⟩
      | false => exact ⟨⟨hroom.window, hroom.log⟩, by simp⟩
    · simp at h

end Holds

end XyzenRelay.Stream
