-- SUMMARY: What holds in every reachable state of the stream server: rooms belong to peers, sessions and frames to publishers, and receivers to subscribed viewers.
import XyzenRelay.Stream.Server

/-!
# Bookkeeping of the stream server

The invariant below holds whatever the handlers do. It says nothing yet about
which room of a peer is the one in the map.
-/

namespace XyzenRelay.Stream

namespace Server

/-- What `room_for` returns and leaves behind. -/
structure RoomFor (s : Server) (peer : String) (r : RoomId) (t : Server) : Prop where
  lookup : t.rooms.lookup peer = some r
  other : ∀ q, q ≠ peer → t.rooms.lookup q = s.rooms.lookup q
  heap : ∀ x, x < s.created.length → t.heap x = s.heap x
  /-- The room is the stored one, or a new one. -/
  source : s.rooms.lookup peer = some r ∨
    (s.rooms.lookup peer = none ∧ t.heap r = .new ∧ t.created[r]? = some peer)
  created : s.created <+: t.created
  publishers : t.publishers = s.publishers
  viewers : t.viewers = s.viewers
  sessions : t.sessions = s.sessions
  cursorsLe : (∀ x, (s.heap x).tx.CursorsLe) → ∀ x, (t.heap x).tx.CursorsLe

theorem roomFor_spec (s : Server) (peer : String) :
    RoomFor s peer (s.roomFor peer).1 (s.roomFor peer).2 := by
  unfold roomFor
  cases hr : s.rooms.lookup peer with
  | some r =>
    exact ⟨hr, fun _ _ => rfl, fun _ _ => rfl, .inl hr, List.prefix_refl _, rfl, rfl, rfl, id⟩
  | none =>
    refine ⟨AList.lookup_insert _, fun q hq => AList.lookup_insert_ne hq, ?_, ?_,
      List.prefix_append _ _, rfl, rfl, rfl, ?_⟩
    · intro x hx
      exact Function.update_of_ne (Nat.ne_of_lt hx) _ _
    · exact .inr ⟨hr, Function.update_self _ _ _, by simp⟩
    · intro hle x
      show (Function.update s.heap s.created.length RoomState.new x).tx.CursorsLe
      by_cases hx : x = s.created.length
      · subst hx
        rw [Function.update_self]
        exact .channel 256
      · rw [Function.update_of_ne hx]
        exact hle x

/-- What is stored stays stored. -/
theorem RoomFor.kept {s t : Server} {peer : String} {r : RoomId}
    (h : RoomFor s peer r t) {q : String}
    {x : RoomId} (hx : s.rooms.lookup q = some x) : t.rooms.lookup q = some x := by
  by_cases hq : q = peer
  · subst hq
    rcases h.source with hr | ⟨hnone, -⟩
    · rw [h.lookup, ← hr, hx]
    · rw [hnone] at hx
      simp at hx
  · rw [h.other q hq, hx]

theorem lt_of_getElem? {α : Type} {xs : List α} {i : Nat} {x : α} (h : xs[i]? = some x) :
    i < xs.length := (List.getElem?_eq_some_iff.mp h).1

/-- A growing log keeps its entries where they are. -/
theorem getElem?_of_grown {α : Type} {xs ys : List α} (h : xs <+: ys) {i : Nat} {x : α}
    (hx : xs[i]? = some x) : ys[i]? = some x := by
  obtain ⟨zs, rfl⟩ := h
  rw [List.getElem?_append_left (lt_of_getElem? hx), hx]

/-! ## The invariant -/

structure WellFormed (s : Server) : Prop where
  stored : ∀ q r, s.rooms.lookup q = some r → s.created[r]? = some q
  publisherRoom : ∀ i p, s.publishers i = some p → s.created[p.room]? = some p.peer
  viewerRoom : ∀ v w, s.viewers v = some w → s.created[w.room]? = some w.peer
  session : ∀ i p, s.publishers i = some p → s.sessions[i]? = some p.peer
  frames : ∀ i p, s.publishers i = some p → ∀ f ∈ p.frames, f.session = i
  joinedLe : ∀ v w, s.viewers v = some w → w.joinedAt ≤ s.sessions.length
  cursorsLe : ∀ r, (s.heap r).tx.CursorsLe
  receiver : ∀ v w, s.viewers v = some w → w.phase ≠ .joined → v ∈ (s.heap w.room).tx.cursors

namespace WellFormed

variable {s : Server}

theorem init : WellFormed Server.init where
  stored := fun q r h => by simp [Server.init] at h
  publisherRoom := fun i p h => by simp [Server.init] at h
  viewerRoom := fun v w h => by simp [Server.init] at h
  session := fun i p h => by simp [Server.init] at h
  frames := fun i p h => by simp [Server.init] at h
  joinedLe := fun v w h => by simp [Server.init] at h
  cursorsLe := fun _ => .channel 256
  receiver := fun v w h => by simp [Server.init] at h

theorem roomFor (hs : WellFormed s) {peer : String} {r : RoomId} {t : Server}
    (h : RoomFor s peer r t) :
    WellFormed t where
  stored := by
    intro q x hx
    by_cases hq : q = peer
    · subst hq
      rcases h.source with hr | ⟨-, -, hnew⟩
      · rw [h.kept hr, Option.some.injEq] at hx
        exact getElem?_of_grown h.created (hx ▸ hs.stored q r hr)
      · rw [h.lookup, Option.some.injEq] at hx
        exact hx ▸ hnew
    · rw [h.other q hq] at hx
      exact getElem?_of_grown h.created (hs.stored q x hx)
  publisherRoom := fun i p hp =>
    getElem?_of_grown h.created (hs.publisherRoom i p (h.publishers ▸ hp))
  viewerRoom := fun v w hw => getElem?_of_grown h.created (hs.viewerRoom v w (h.viewers ▸ hw))
  session := fun i p hp => by rw [h.sessions]; exact hs.session i p (h.publishers ▸ hp)
  frames := fun i p hp => hs.frames i p (h.publishers ▸ hp)
  joinedLe := fun v w hw => by rw [h.sessions]; exact hs.joinedLe v w (h.viewers ▸ hw)
  cursorsLe := h.cursorsLe hs.cursorsLe
  receiver := by
    intro v w hw hphase
    rw [h.viewers] at hw
    rw [h.heap w.room (lt_of_getElem? (hs.viewerRoom v w hw))]
    exact hs.receiver v w hw hphase

theorem room_created (hs : WellFormed s) {peer : String} {r : RoomId} {t : Server}
    (h : RoomFor s peer r t) : t.created[r]? = some peer :=
  (hs.roomFor h).stored peer r h.lookup

theorem setRoom (hs : WellFormed s) {r : RoomId} {room : RoomState Tagged}
    (hcursors : ∀ v w, s.viewers v = some w → v ∈ (s.heap r).tx.cursors → v ∈ room.tx.cursors)
    (hle : room.tx.CursorsLe) : WellFormed (s.setRoom r room) where
  stored := hs.stored
  publisherRoom := hs.publisherRoom
  viewerRoom := hs.viewerRoom
  session := hs.session
  frames := hs.frames
  joinedLe := hs.joinedLe
  cursorsLe := by
    intro x
    by_cases hx : x = r
    · subst hx
      simpa [Server.setRoom] using hle
    · simpa [Server.setRoom, hx] using hs.cursorsLe x
  receiver := by
    intro v w hw hphase
    have hmem := hs.receiver v w hw hphase
    by_cases hx : w.room = r
    · subst hx
      simpa [Server.setRoom] using hcursors v w hw hmem
    · simpa [Server.setRoom, hx] using hmem

theorem setPublisher (hs : WellFormed s) {i : PublisherId} {new : Option Publisher}
    (hnew : ∀ p, new = some p → s.created[p.room]? = some p.peer ∧ s.sessions[i]? = some p.peer ∧
      ∀ f ∈ p.frames, f.session = i) : WellFormed (s.setPublisher i new) where
  stored := hs.stored
  publisherRoom := by
    intro j p hp
    rcases update_eq_some hp with ⟨-, hsome⟩ | ⟨-, hp⟩
    · exact (hnew p hsome).1
    · exact hs.publisherRoom j p hp
  viewerRoom := hs.viewerRoom
  session := by
    intro j p hp
    rcases update_eq_some hp with ⟨rfl, hsome⟩ | ⟨-, hp⟩
    · exact (hnew p hsome).2.1
    · exact hs.session j p hp
  frames := by
    intro j p hp
    rcases update_eq_some hp with ⟨rfl, hsome⟩ | ⟨-, hp⟩
    · exact (hnew p hsome).2.2
    · exact hs.frames j p hp
  joinedLe := hs.joinedLe
  cursorsLe := hs.cursorsLe
  receiver := hs.receiver

theorem setViewer (hs : WellFormed s) {v : ViewerId} {new : Option Viewer}
    (hnew : ∀ w, new = some w → s.created[w.room]? = some w.peer ∧ w.joinedAt ≤ s.sessions.length ∧
      (w.phase ≠ .joined → v ∈ (s.heap w.room).tx.cursors)) : WellFormed (s.setViewer v new) where
  stored := hs.stored
  publisherRoom := hs.publisherRoom
  viewerRoom := by
    intro u w hw
    rcases update_eq_some hw with ⟨-, hsome⟩ | ⟨-, hw⟩
    · exact (hnew w hsome).1
    · exact hs.viewerRoom u w hw
  session := hs.session
  frames := hs.frames
  joinedLe := by
    intro u w hw
    rcases update_eq_some hw with ⟨-, hsome⟩ | ⟨-, hw⟩
    · exact (hnew w hsome).2.1
    · exact hs.joinedLe u w hw
  cursorsLe := hs.cursorsLe
  receiver := by
    intro u w hw
    rcases update_eq_some hw with ⟨rfl, hsome⟩ | ⟨-, hw⟩
    · exact (hnew w hsome).2.2
    · exact hs.receiver u w hw

theorem startSession (hs : WellFormed s) (peer : String) :
    WellFormed { s with sessions := s.sessions ++ [peer] } where
  stored := hs.stored
  publisherRoom := hs.publisherRoom
  viewerRoom := hs.viewerRoom
  session := fun i p hp => getElem?_of_grown (List.prefix_append _ _) (hs.session i p hp)
  frames := hs.frames
  joinedLe := fun v w hw => Nat.le_trans (hs.joinedLe v w hw) (by simp)
  cursorsLe := hs.cursorsLe
  receiver := hs.receiver

theorem eraseRoom (hs : WellFormed s) (peer : String) :
    WellFormed { s with rooms := s.rooms.erase peer } where
  stored := by
    intro q r hr
    have hq : q ≠ peer := by
      rintro rfl
      simp at hr
    exact hs.stored q r (by simpa [AList.lookup_erase_ne hq] using hr)
  publisherRoom := hs.publisherRoom
  viewerRoom := hs.viewerRoom
  session := hs.session
  frames := hs.frames
  joinedLe := hs.joinedLe
  cursorsLe := hs.cursorsLe
  receiver := hs.receiver

theorem cleanup (hs : WellFormed s) (i : PublisherId) (p : Publisher) :
    WellFormed (s.cleanup i p) := by
  have hgone : WellFormed (s.setPublisher i none) := hs.setPublisher (by simp)
  unfold Server.cleanup
  dsimp only
  split
  · exact hgone
  · split
    · exact hgone.eraseRoom p.peer
    · exact hgone

/-- Whatever a step does, the bookkeeping survives it. -/
theorem effect (hs : WellFormed s) {a : ServerAction} {s' : Server} (h : Effect s a s') :
    WellFormed s' := by
  cases h with
  | publisherConnect peer =>
    have hroom := roomFor_spec s peer
    have hcreated := hs.room_created hroom
    have ht := (hs.roomFor hroom).startSession peer
    rw [hroom.sessions] at ht
    refine setPublisher ht (i := s.sessions.length) ?_
    rintro p ⟨⟩
    exact ⟨hcreated, by simp, by simp⟩
  | @record i p frame hp =>
    have hrecord : WellFormed (s.setRoom p.room ((s.heap p.room).record ⟨i, frame⟩)) :=
      hs.setRoom (fun _ _ _ h => h) (hs.cursorsLe p.room)
    refine hrecord.setPublisher ?_
    rintro q ⟨⟩
    refine ⟨hs.publisherRoom i p hp, hs.session i p hp, fun f hf => ?_⟩
    rcases List.mem_append.mp hf with hf | hf
    · exact hs.frames i p hp f hf
    · simp only [List.mem_singleton] at hf
      rw [hf]
  | @publisherMoves i p p' m hp hpeer hroom hframes hm =>
    refine hs.setPublisher ?_
    rintro q ⟨⟩
    rw [hroom, hpeer, hframes]
    exact ⟨hs.publisherRoom i p hp, hs.session i p hp, hs.frames i p hp⟩
  | publisherReturns hp => exact hs.setPublisher (by simp)
  | @send i p f hp hphase =>
    have hsend : WellFormed (s.setRoom p.room ((s.heap p.room).send f)) := by
      refine hs.setRoom (fun v w _ hmem => ?_) ((hs.cursorsLe p.room).send f)
      show v ∈ ((s.heap p.room).tx.send f).cursors
      rwa [Broadcast.cursors_send]
    refine hsend.setPublisher ?_
    rintro q ⟨⟩
    exact ⟨hs.publisherRoom i p hp, hs.session i p hp, hs.frames i p hp⟩
  | cleanup hp => exact hs.cleanup _ _
  | @viewerConnect v peer hv =>
    have hroom := roomFor_spec s peer
    have hcreated := hs.room_created hroom
    refine setViewer (hs.roomFor hroom) ?_
    rintro w ⟨⟩
    exact ⟨hcreated, by rw [hroom.sessions], by simp⟩
  | @viewerMoves v w w' m room hw hmoved =>
    refine (hs.setRoom ?_ (hmoved.kept.cursorsLe (hs.cursorsLe _))).setViewer ?_
    · intro u x _ hmem
      by_cases hu : u = v
      · exact hu ▸ hmoved.own (hu ▸ hmem)
      · exact hmoved.kept.others u hu hmem
    · rintro x ⟨⟩
      rw [hmoved.room, hmoved.peer, hmoved.joinedAt]
      refine ⟨hs.viewerRoom v w hw, hs.joinedLe v w hw, fun hphase => ?_⟩
      have hmem : v ∈ room.tx.cursors := by
        by_cases hj : w.phase = .joined
        · exact hmoved.subscribes hj hphase
        · exact hmoved.own (hs.receiver v w hw hj)
      simpa [Server.setRoom] using hmem
  | @viewerReturns v w m room hw hkept =>
    -- the viewer is gone before its receiver is missed
    have hgone : WellFormed (s.setViewer v none) := hs.setViewer (by simp)
    refine hgone.setRoom ?_ (hkept.cursorsLe (hs.cursorsLe _))
    intro u x hx hmem
    have hu : u ≠ v := by
      rintro rfl
      simp [Server.setViewer] at hx
    exact hkept.others u hu hmem

end WellFormed

theorem wellFormed_preserved : machine.Preserves WellFormed :=
  fun _ _ _ hs h => hs.effect (effect_of_step h)

theorem wellFormed_reachable {s : Server} (h : machine.Reachable s) : WellFormed s :=
  wellFormed_preserved.reachable machine .init h

end Server

end XyzenRelay.Stream
