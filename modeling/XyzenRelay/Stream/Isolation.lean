-- SUMMARY: Rooms are isolated: a viewer is sent frames of its own peer only, and what other peers publish changes nothing for it.
import XyzenRelay.Stream.Leaks
import XyzenRelay.Stream.Locality

/-!
# Isolation

Every room belongs to the peer it was created for, and so do the frames in it. Two
runs that differ in what other peers publish may remove and create their rooms at
different moments, so the rooms of a peer are compared up to their ids.
-/

namespace XyzenRelay.Stream

namespace Server

variable {s s' : Server} {a : ServerAction}

/-! ## Where frames come from -/

/-- A frame that a publisher handler reads from its socket. -/
def received (_ : Server) : ServerAction → Option Tagged
  | .publisher i (.item (.binary bytes)) => some ⟨i, bytes⟩
  | _ => none

/-- The frame is one of `L`, and its publisher has connected with the peer. -/
def ReceivedFrom (L : List Tagged) (s : Server) (peer : String) (f : Tagged) : Prop :=
  f ∈ L ∧ s.sessions[f.session]? = some peer

/-- Every frame around has the property of its peer. -/
structure Sourced (P : String → Tagged → Prop) (s : Server) : Prop where
  rooms : ∀ r peer, s.created[r]? = some peer → (s.heap r).Holds (P peer)
  publishers : ∀ i p, s.publishers i = some p → p.Holds (P p.peer)
  viewers : ∀ v w, s.viewers v = some w → w.Holds (P w.peer)

namespace Sourced

variable {P Q : String → Tagged → Prop}

theorem mono (hPQ : ∀ peer f, P peer f → Q peer f) (hs : s.Sourced P) : s.Sourced Q where
  rooms := fun r peer hr => (hs.rooms r peer hr).mono (hPQ peer)
  publishers := fun i p hp => (hs.publishers i p hp).mono (hPQ p.peer)
  viewers := fun v w hw => (hs.viewers v w hw).mono (hPQ w.peer)

theorem init : Server.init.Sourced P where
  rooms := fun r peer hr => by simp [Server.init] at hr
  publishers := fun i p hp => by simp [Server.init] at hp
  viewers := fun v w hw => by simp [Server.init] at hw

theorem roomFor (hs : s.Sourced P) (peer : String) : (s.roomFor peer).2.Sourced P := by
  unfold Server.roomFor
  split
  · exact hs
  · refine ⟨fun r q hr => ?_, hs.publishers, hs.viewers⟩
    show (Function.update s.heap s.created.length RoomState.new r).Holds (P q)
    by_cases hnew : r = s.created.length
    · subst hnew
      rw [Function.update_self]
      exact .new
    · have hle := lt_of_getElem? hr
      rw [List.length_append, List.length_singleton] at hle
      have hlt : r < s.created.length := Nat.lt_of_le_of_ne (Nat.lt_succ_iff.mp hle) hnew
      rw [List.getElem?_append_left hlt] at hr
      rw [Function.update_of_ne hnew]
      exact hs.rooms r q hr

theorem setRoom (hs : s.Sourced P) {r : RoomId} {peer : String} {room : RoomState Tagged}
    (hr : s.created[r]? = some peer) (hroom : room.Holds (P peer)) :
    (s.setRoom r room).Sourced P where
  rooms := by
    intro x q hx
    show (Function.update s.heap r room x).Holds (P q)
    by_cases hxr : x = r
    · subst hxr
      obtain rfl := Option.some.inj (hr.symm.trans hx)
      rwa [Function.update_self]
    · rw [Function.update_of_ne hxr]
      exact hs.rooms x q hx
  publishers := hs.publishers
  viewers := hs.viewers

theorem setPublisher (hs : s.Sourced P) {i : PublisherId} {new : Option Publisher}
    (hnew : ∀ p ∈ new, p.Holds (P p.peer)) : (s.setPublisher i new).Sourced P where
  rooms := hs.rooms
  publishers := by
    intro j p hp
    rcases update_eq_some hp with ⟨-, hsome⟩ | ⟨-, hp⟩
    · exact hnew p hsome
    · exact hs.publishers j p hp
  viewers := hs.viewers

theorem setViewer (hs : s.Sourced P) {v : ViewerId} {new : Option Viewer}
    (hnew : ∀ w ∈ new, w.Holds (P w.peer)) :
    (s.setViewer v new).Sourced P where
  rooms := hs.rooms
  publishers := hs.publishers
  viewers := by
    intro u w hw
    rcases update_eq_some hw with ⟨-, hsome⟩ | ⟨-, hw⟩
    · exact hnew w hsome
    · exact hs.viewers u w hw

theorem cleanup (hs : s.Sourced P) (i : PublisherId) (p : Publisher) :
    (s.cleanup i p).Sourced P := by
  have hgone : (s.setPublisher i none).Sourced P := hs.setPublisher (by simp)
  rw [cleanup_eq]
  exact ⟨hgone.rooms, hgone.publishers, hgone.viewers⟩

theorem publisherMove (hs : s.Sourced P) (hwf : WellFormed s) {i : PublisherId} {p : Publisher}
    {m : PublisherMove}
    (hp : s.publishers i = some p) (h : s.stepPublisher i p m = some s')
    (hnew : ∀ bytes, m = .item (.binary bytes) → P p.peer ⟨i, bytes⟩) : s'.Sourced P := by
  by_cases hm : m = .cleanup
  · subst hm
    simp only [stepPublisher] at h
    split at h
    · exact Option.some.inj h ▸ hs.cleanup i p
    · simp at h
  · rw [stepPublisher_eq hp hm] at h
    obtain ⟨x, hx, rfl⟩ := Option.map_eq_some_iff.mp h
    have hcreated := hwf.publisherRoom i p hp
    obtain ⟨hroom, hpublisher⟩ :=
      Publisher.move_holds hx (hs.rooms _ _ hcreated) (hs.publishers i p hp) hnew
    refine (hs.setRoom hcreated hroom).setPublisher fun q hq => ?_
    rw [(Publisher.move_kept hx q hq).1]
    exact hpublisher q hq

theorem viewerMove (hs : s.Sourced P) (hwf : WellFormed s) {v : ViewerId} {w : Viewer}
    {m : ViewerMove}
    (hw : s.viewers v = some w) (h : s.stepViewer v w m = some s') : s'.Sourced P := by
  rw [stepViewer_eq hw] at h
  obtain ⟨x, hx, rfl⟩ := Option.map_eq_some_iff.mp h
  have hcreated := hwf.viewerRoom v w hw
  obtain ⟨hroom, hviewer⟩ := Viewer.move_holds hx (hs.rooms _ _ hcreated) (hs.viewers v w hw)
  refine (hs.setRoom hcreated hroom).setViewer fun y hy => ?_
  rw [(Viewer.move_kept hx y hy).1]
  exact hviewer y hy

/-- Whatever a step does, frames stay with their peer. -/
theorem step (hs : s.Sourced P) (hwf : WellFormed s) (h : machine.step s a = some s')
    (hnew : ∀ i p bytes, a = .publisher i (.item (.binary bytes)) → s.publishers i = some p →
      P p.peer ⟨i, bytes⟩) :
    s'.Sourced P := by
  cases a with
  | publisherConnect peer =>
    obtain rfl : s.connectPublisher peer = s' := Option.some.inj h
    have hconnected : ((s.roomFor peer).2.setPublisher s.sessions.length
        (some { peer, room := (s.roomFor peer).1, phase := .reading, frames := [] })).Sourced P :=
      (hs.roomFor peer).setPublisher (by rintro p ⟨⟩ f hphase; simp at hphase)
    exact ⟨hconnected.rooms, hconnected.publishers, hconnected.viewers⟩
  | publisher i m =>
    simp only [machine, Server.step] at h
    split at h
    · next p hp => exact hs.publisherMove hwf hp h fun bytes hm => hnew i p bytes (by rw [hm]) hp
    · simp at h
  | viewerConnect v peer =>
    simp only [machine, Server.step] at h
    split at h
    · simp at h
    · simp only [Option.some.injEq] at h
      subst h
      refine (hs.roomFor peer).setViewer ?_
      rintro w ⟨⟩
      exact ⟨by simp, by simp⟩
  | viewer v m =>
    simp only [machine, Server.step] at h
    split at h
    · next w hw => exact hs.viewerMove hwf hw h
    · simp at h

end Sourced

/-- The publisher sessions that the action starts. -/
def started : ServerAction → List String
  | .publisherConnect peer => [peer]
  | _ => []

/-- The peers the publisher sessions of a schedule connect with. -/
def connected (as : List ServerAction) : List String := as.flatMap started

theorem sessions_step (h : machine.step s a = some s') : s'.sessions = s.sessions ++ started a := by
  have hsame : ∀ {t : Server}, t.sessions = s.sessions → t.sessions = s.sessions ++ [] := by
    intro t ht
    rw [ht, List.append_nil]
  cases effect_of_step h with
  | publisherConnect peer => rfl
  | @cleanup i p hp =>
    rw [cleanup_eq]
    exact hsame rfl
  | @viewerConnect v peer hv => exact hsame (roomFor_spec s peer).sessions
  | _ => exact hsame rfl

theorem sessions_run {as : List ServerAction} {t : Server} (h : machine.run s as = some t) :
    t.sessions = s.sessions ++ connected as := by
  induction as generalizing s with
  | nil =>
    simp only [Machine.run_nil, Option.some.injEq] at h
    subst h
    simp [connected]
  | cons a as ih =>
    obtain ⟨s', hstep, hrest⟩ := machine.run_cons.mp h
    rw [ih hrest, sessions_step hstep, List.append_assoc]
    rfl

theorem sourced_run {as : List ServerAction} {t : Server}
    (hrun : machine.run machine.init as = some t) :
    t.Sourced (ReceivedFrom (machine.journal received machine.init as) t) := by
  have h : WellFormed t ∧
      t.Sourced (ReceivedFrom ([] ++ machine.journal received machine.init as) t) := by
    refine machine.journal_invariant received
      (J := fun L s => WellFormed s ∧ s.Sourced (ReceivedFrom L s)) ?_
      ⟨.init, .init⟩ hrun
    intro L s a s' ⟨hwf, hs⟩ hstep
    have hgrown : s.sessions <+: s'.sessions := ⟨started a, (sessions_step hstep).symm⟩
    refine ⟨hwf.effect (effect_of_step hstep), Sourced.step (hs.mono ?_) hwf hstep ?_⟩
    · rintro peer f ⟨hf, hsession⟩
      exact ⟨List.mem_append_left _ hf, getElem?_of_grown hgrown hsession⟩
    · rintro i p bytes rfl hp
      exact ⟨List.mem_append_right _ (by simp [received]),
        getElem?_of_grown hgrown (hwf.session i p hp)⟩
  exact h.2

/-! ## What other peers do -/

def publisherOf (s : Server) (peer : String) (i : PublisherId) : Option Publisher :=
  (s.publishers i).filter fun p => p.peer = peer

def viewerOf (s : Server) (peer : String) (v : ViewerId) : Option Viewer :=
  (s.viewers v).filter fun w => w.peer = peer

/-- The peer of the handler that acts. -/
def actor (s : Server) : ServerAction → Option String
  | .publisherConnect peer | .viewerConnect _ peer => some peer
  | .publisher i _ => (s.publishers i).map Publisher.peer
  | .viewer v _ => (s.viewers v).map Viewer.peer

/-- Nothing of the peer has changed. -/
structure Untouched (peer : String) (s s' : Server) : Prop where
  stored : s'.rooms.lookup peer = s.rooms.lookup peer
  created : ∀ r : RoomId, s'.created[r]? = some peer ↔ s.created[r]? = some peer
  heap : ∀ r, s.created[r]? = some peer → s'.heap r = s.heap r
  publishers : ∀ i, s'.publisherOf peer i = s.publisherOf peer i
  viewers : ∀ v, s'.viewerOf peer v = s.viewerOf peer v

namespace Untouched

variable {peer : String}

theorem refl (peer : String) (s : Server) : Untouched peer s s :=
  ⟨rfl, fun _ => Iff.rfl, fun _ _ => rfl, fun _ => rfl, fun _ => rfl⟩

theorem trans {t u : Server} (h : Untouched peer s t) (h' : Untouched peer t u) :
    Untouched peer s u where
  stored := h'.stored.trans h.stored
  created := fun r => (h'.created r).trans (h.created r)
  heap := fun r hr => (h'.heap r ((h.created r).mpr hr)).trans (h.heap r hr)
  publishers := fun i => (h'.publishers i).trans (h.publishers i)
  viewers := fun v => (h'.viewers v).trans (h.viewers v)

theorem setRoom {r : RoomId} (hr : s.created[r]? ≠ some peer) (room : RoomState Tagged) :
    Untouched peer s (s.setRoom r room) where
  stored := rfl
  created := fun _ => Iff.rfl
  heap := by
    intro x hx
    refine Function.update_of_ne ?_ ..
    rintro rfl
    exact hr hx
  publishers := fun _ => rfl
  viewers := fun _ => rfl

theorem setPublisher {i : PublisherId} {new : Option Publisher} (hold : s.publisherOf peer i = none)
    (hnew : ∀ p ∈ new, p.peer ≠ peer) : Untouched peer s (s.setPublisher i new) where
  stored := rfl
  created := fun _ => Iff.rfl
  heap := fun _ _ => rfl
  publishers := by
    intro j
    by_cases hj : j = i
    · subst hj
      rw [hold]
      simpa [publisherOf, Server.setPublisher, Option.filter_eq_none_iff] using hnew
    · simp [publisherOf, Server.setPublisher, hj]
  viewers := fun _ => rfl

theorem setViewer {v : ViewerId} {new : Option Viewer} (hold : s.viewerOf peer v = none)
    (hnew : ∀ w ∈ new, w.peer ≠ peer) : Untouched peer s (s.setViewer v new) where
  stored := rfl
  created := fun _ => Iff.rfl
  heap := fun _ _ => rfl
  publishers := fun _ => rfl
  viewers := by
    intro u
    by_cases hu : u = v
    · subst hu
      rw [hold]
      simpa [viewerOf, Server.setViewer, Option.filter_eq_none_iff] using hnew
    · simp [viewerOf, Server.setViewer, hu]

theorem roomFor {q : String} (hq : q ≠ peer) : Untouched peer s (s.roomFor q).2 := by
  unfold Server.roomFor
  split
  · exact refl peer s
  · refine ⟨AList.lookup_insert_ne hq.symm, fun r => ?_, fun r hr => ?_, fun _ => rfl, fun _ => rfl⟩
    · show (s.created ++ [q])[r]? = some peer ↔ _
      rw [List.getElem?_append]
      split
      · exact Iff.rfl
      · next hr =>
        rw [List.getElem?_eq_none (Nat.le_of_not_lt hr)]
        refine ⟨fun h => ?_, fun h => by simp at h⟩
        exact absurd (List.mem_singleton.mp (List.mem_of_getElem? h)).symm hq
    · exact Function.update_of_ne (Nat.ne_of_lt (lt_of_getElem? hr)) ..

theorem cleanup {i : PublisherId} {p : Publisher} (hold : s.publisherOf peer i = none)
    (hp : p.peer ≠ peer) :
    Untouched peer s (s.cleanup i p) := by
  have hgone : Untouched peer s (s.setPublisher i none) := setPublisher hold (by simp)
  refine ⟨lookup_cleanup_ne hp.symm, ?_, ?_, fun j => ?_, fun v => ?_⟩
  · rw [cleanup_created]
    exact hgone.created
  · rw [cleanup_eq]
    exact hgone.heap
  · rw [publisherOf, cleanup_publishers]
    exact hgone.publishers j
  · rw [viewerOf, cleanup_viewers]
    rfl

end Untouched

/-- A step of another peer touches nothing of this one. -/
theorem untouched_of_step {peer : String} (hwf : WellFormed s) (h : machine.step s a = some s')
    (ha : s.actor a ≠ some peer) : Untouched peer s s' := by
  cases a with
  | publisherConnect q =>
    obtain rfl : s.connectPublisher q = s' := Option.some.inj h
    have hq : q ≠ peer := fun heq => ha (congrArg some heq)
    have hroom : Untouched peer s (s.roomFor q).2 := .roomFor hq
    -- the session number is a new one
    have hfresh : s.publishers s.sessions.length = none := by
      rw [Option.eq_none_iff_forall_ne_some]
      intro p hp
      exact absurd (lt_of_getElem? (hwf.session _ p hp)) (Nat.lt_irrefl _)
    have hset : Untouched peer (s.roomFor q).2 ((s.roomFor q).2.setPublisher s.sessions.length
        (some { peer := q, room := (s.roomFor q).1, phase := .reading, frames := [] })) := by
      refine .setPublisher ?_ (by rintro p ⟨⟩; exact hq)
      rw [publisherOf, (roomFor_spec s q).publishers, hfresh]
      rfl
    have hboth := hroom.trans hset
    exact ⟨hboth.stored, hboth.created, hboth.heap, hboth.publishers, hboth.viewers⟩
  | publisher i m =>
    simp only [machine, step] at h
    split at h
    · next p hp =>
      have hpeer : p.peer ≠ peer := fun heq => ha (by simp [actor, hp, heq])
      have hold : s.publisherOf peer i = none := by simp [publisherOf, hp, hpeer]
      by_cases hm : m = .cleanup
      · subst hm
        simp only [stepPublisher] at h
        split at h
        · exact Option.some.inj h ▸ Untouched.cleanup hold hpeer
        · simp at h
      · rw [stepPublisher_eq hp hm] at h
        obtain ⟨x, hx, rfl⟩ := Option.map_eq_some_iff.mp h
        have hroom : s.created[p.room]? ≠ some peer := by
          rw [hwf.publisherRoom i p hp]
          simpa using hpeer
        refine (Untouched.setRoom hroom x.1).trans (.setPublisher hold fun q hq => ?_)
        rwa [(Publisher.move_kept hx q hq).1]
    · simp at h
  | viewerConnect v q =>
    simp only [machine, step] at h
    split at h
    · simp at h
    · next hv =>
      simp only [Option.some.injEq] at h
      subst h
      have hq : q ≠ peer := fun heq => ha (congrArg some heq)
      refine (Untouched.roomFor hq).trans (.setViewer ?_ (by rintro w ⟨⟩; exact hq))
      rw [viewerOf, (roomFor_spec s q).viewers, hv]
      rfl
  | viewer v m =>
    simp only [machine, step] at h
    split at h
    · next w hw =>
      have hpeer : w.peer ≠ peer := fun heq => ha (by simp [actor, hw, heq])
      have hold : s.viewerOf peer v = none := by simp [viewerOf, hw, hpeer]
      rw [stepViewer_eq hw] at h
      obtain ⟨x, hx, rfl⟩ := Option.map_eq_some_iff.mp h
      have hroom : s.created[w.room]? ≠ some peer := by
        rw [hwf.viewerRoom v w hw]
        simpa using hpeer
      refine (Untouched.setRoom hroom x.1).trans (.setViewer hold fun y hy => ?_)
      rwa [(Viewer.move_kept hx y hy).1]
    · simp at h

/-! ## Two runs -/

/-- To the peer the servers look alike, up to the ids of its rooms. -/
structure Alike (peer : String) (g : RoomId → RoomId) (s t : Server) : Prop where
  stored : t.rooms.lookup peer = (s.rooms.lookup peer).map g
  created : ∀ r : RoomId, s.created[r]? = some peer → t.created[g r]? = some peer
  injective : ∀ r r' : RoomId, s.created[r]? = some peer → s.created[r']? = some peer →
    g r = g r' → r = r'
  heap : ∀ r : RoomId, s.created[r]? = some peer → t.heap (g r) = s.heap r
  publishers : ∀ i, t.publisherOf peer i = (s.publisherOf peer i).map (Publisher.rename g)
  viewers : ∀ v, t.viewerOf peer v = (s.viewerOf peer v).map (Viewer.rename g)

theorem publisherOf_eq_some {peer : String} {i : PublisherId} {p : Publisher} :
    s.publisherOf peer i = some p ↔ s.publishers i = some p ∧ p.peer = peer := by
  simp [publisherOf, Option.filter_eq_some_iff]

theorem viewerOf_eq_some {peer : String} {v : ViewerId} {w : Viewer} :
    s.viewerOf peer v = some w ↔ s.viewers v = some w ∧ w.peer = peer := by
  simp [viewerOf, Option.filter_eq_some_iff]

namespace Alike

variable {peer : String} {g : RoomId → RoomId} {t t' : Server}

theorem init : Alike peer id Server.init Server.init where
  stored := by simp
  created := fun _ hr => hr
  injective := fun _ _ _ _ h => h
  heap := fun _ _ => rfl
  publishers := fun _ => rfl
  viewers := fun _ => rfl

/-- What other peers do on either side changes nothing. -/
theorem untouched (h : Alike peer g s t) (hs : Untouched peer s s') (ht : Untouched peer t t') :
    Alike peer g s' t' where
  stored := by rw [ht.stored, hs.stored, h.stored]
  created := fun r hr => (ht.created _).mpr (h.created r ((hs.created r).mp hr))
  injective := fun r r' hr hr' => h.injective r r' ((hs.created r).mp hr) ((hs.created r').mp hr')
  heap := by
    intro r hr
    have hr' := (hs.created r).mp hr
    rw [ht.heap _ (h.created r hr'), h.heap r hr', hs.heap r hr']
  publishers := fun i => by rw [ht.publishers, hs.publishers, h.publishers]
  viewers := fun v => by rw [ht.viewers, hs.viewers, h.viewers]

theorem publisher (h : Alike peer g s t) {i : PublisherId} {p : Publisher}
    (hp : s.publishers i = some p)
    (hpeer : p.peer = peer) : t.publishers i = some (p.rename g) := by
  have hp' := h.publishers i
  rw [publisherOf_eq_some.mpr ⟨hp, hpeer⟩] at hp'
  exact (publisherOf_eq_some.mp hp').1

theorem viewer (h : Alike peer g s t) {v : ViewerId} {w : Viewer} (hw : s.viewers v = some w)
    (hpeer : w.peer = peer) : t.viewers v = some (w.rename g) := by
  have hw' := h.viewers v
  rw [viewerOf_eq_some.mpr ⟨hw, hpeer⟩] at hw'
  exact (viewerOf_eq_some.mp hw').1

theorem setRoom (h : Alike peer g s t) {r : RoomId} (hr : s.created[r]? = some peer)
    (room : RoomState Tagged) :
    Alike peer g (s.setRoom r room) (t.setRoom (g r) room) where
  stored := h.stored
  created := h.created
  injective := h.injective
  heap := by
    intro x hx
    show Function.update t.heap (g r) room (g x) = Function.update s.heap r room x
    by_cases hxr : x = r
    · rw [hxr, Function.update_self, Function.update_self]
    · have hg : g x ≠ g r := fun heq => hxr (h.injective x r hx hr heq)
      rw [Function.update_of_ne hxr, Function.update_of_ne hg, h.heap x hx]
  publishers := h.publishers
  viewers := h.viewers

theorem setPublisher (h : Alike peer g s t) (i : PublisherId) (new : Option Publisher) :
    Alike peer g (s.setPublisher i new) (t.setPublisher i (new.map (Publisher.rename g))) where
  stored := h.stored
  created := h.created
  injective := h.injective
  heap := h.heap
  publishers := by
    intro j
    by_cases hj : j = i
    · subst hj
      simp only [publisherOf, Server.setPublisher, Function.update_self, Option.filter_map]
      rfl
    · have hother := h.publishers j
      simpa only [publisherOf, Server.setPublisher, Function.update_of_ne hj] using hother
  viewers := h.viewers

theorem setViewer (h : Alike peer g s t) (v : ViewerId) (new : Option Viewer) :
    Alike peer g (s.setViewer v new) (t.setViewer v (new.map (Viewer.rename g))) where
  stored := h.stored
  created := h.created
  injective := h.injective
  heap := h.heap
  publishers := h.publishers
  viewers := by
    intro u
    by_cases hu : u = v
    · subst hu
      simp only [viewerOf, Server.setViewer, Function.update_self, Option.filter_map]
      rfl
    · have hother := h.viewers u
      simpa only [viewerOf, Server.setViewer, Function.update_of_ne hu] using hother

/-- The peer is given rooms that correspond. -/
theorem roomFor (h : Alike peer g s t) (hwf : WellFormed s) :
    ∃ g', Alike peer g' (s.roomFor peer).2 (t.roomFor peer).2 ∧
      (t.roomFor peer).1 = g' (s.roomFor peer).1 := by
  have hstored := h.stored
  unfold Server.roomFor
  cases hr : s.rooms.lookup peer with
  | some r =>
    rw [hr, Option.map_some] at hstored
    rw [hstored]
    exact ⟨g, h, rfl⟩
  | none =>
    rw [hr, Option.map_none] at hstored
    rw [hstored]
    -- the new rooms correspond, and the old ones still do
    let g' := Function.update g s.created.length t.created.length
    have hnew : g' s.created.length = t.created.length := Function.update_self ..
    have hold : ∀ r : RoomId, r < s.created.length → g' r = g r := fun r hr =>
      Function.update_of_ne (Nat.ne_of_lt hr) ..
    have hcases : ∀ r : RoomId, (s.created ++ [peer])[r]? = some peer →
        r = s.created.length ∨ (r < s.created.length ∧ s.created[r]? = some peer) := by
      intro r hr
      rcases Nat.lt_or_ge r s.created.length with hlt | hge
      · exact .inr ⟨hlt, by rwa [List.getElem?_append_left hlt] at hr⟩
      · have hlt := lt_of_getElem? hr
        rw [List.length_append, List.length_singleton] at hlt
        exact .inl (Nat.le_antisymm (Nat.lt_succ_iff.mp hlt) hge)
    have hlt : ∀ r : RoomId, s.created[r]? = some peer → g r < t.created.length := fun r hr =>
      lt_of_getElem? (h.created r hr)
    refine ⟨g', ⟨?_, ?_, ?_, ?_, ?_, ?_⟩, hnew.symm⟩
    · show (t.rooms.insert peer t.created.length).lookup peer =
        ((s.rooms.insert peer s.created.length).lookup peer).map g'
      rw [AList.lookup_insert, AList.lookup_insert, Option.map_some, hnew]
    · intro r hr
      show (t.created ++ [peer])[g' r]? = some peer
      rcases hcases r hr with rfl | ⟨hr, hr'⟩
      · simp [hnew]
      · rw [hold r hr, List.getElem?_append_left (hlt r hr'), h.created r hr']
    · intro r r' hr hr' heq
      rcases hcases r hr with rfl | ⟨hr, hcreated⟩ <;> rcases hcases r' hr'
        with rfl | ⟨hr', hcreated'⟩
      · rfl
      · rw [hnew, hold r' hr'] at heq
        exact absurd heq.symm (Nat.ne_of_lt (hlt r' hcreated'))
      · rw [hnew, hold r hr] at heq
        exact absurd heq (Nat.ne_of_lt (hlt r hcreated))
      · rw [hold r hr, hold r' hr'] at heq
        exact h.injective r r' hcreated hcreated' heq
    · intro r hr
      show Function.update t.heap t.created.length .new (g' r) =
        Function.update s.heap s.created.length .new r
      rcases hcases r hr with rfl | ⟨hr, hcreated⟩
      · rw [hnew, Function.update_self, Function.update_self]
      · rw [hold r hr, Function.update_of_ne (Nat.ne_of_lt (hlt r hcreated)),
          Function.update_of_ne (Nat.ne_of_lt hr),
          h.heap r hcreated]
    · intro i
      refine (h.publishers i).trans (Option.map_congr fun p hp => ?_)
      have hroom := hwf.publisherRoom i p (publisherOf_eq_some.mp hp).1
      rw [Publisher.rename, Publisher.rename, hold p.room (lt_of_getElem? hroom)]
    · intro v
      refine (h.viewers v).trans (Option.map_congr fun w hw => ?_)
      have hroom := hwf.viewerRoom v w (viewerOf_eq_some.mp hw).1
      rw [Viewer.rename, Viewer.rename, hold w.room (lt_of_getElem? hroom)]

/-- The receivers of corresponding rooms are the same, so the cleanup removes both or none. -/
theorem cleanup (h : Alike peer g s t) (hwf : WellFormed s) {i : PublisherId} {p : Publisher}
    (hpeer : p.peer = peer) :
    Alike peer g (s.cleanup i p) (t.cleanup i (p.rename g)) := by
  subst hpeer
  have hgone : Alike p.peer g (s.setPublisher i none) (t.setPublisher i none) :=
    h.setPublisher i none
  have hstored := h.stored
  unfold Server.cleanup Publisher.rename
  dsimp only
  cases hr : s.rooms.lookup p.peer with
  | none =>
    rw [hr, Option.map_none] at hstored
    rw [hstored]
    exact hgone
  | some r =>
    rw [hr, Option.map_some] at hstored
    rw [hstored]
    dsimp only
    rw [h.heap r (hwf.stored p.peer r hr)]
    split
    · refine ⟨?_, hgone.created, hgone.injective, hgone.heap, hgone.publishers, hgone.viewers⟩
      show (t.rooms.erase p.peer).lookup p.peer = ((s.rooms.erase p.peer).lookup p.peer).map g
      rw [AList.lookup_erase, AList.lookup_erase, Option.map_none]
    · exact hgone

theorem actor (h : Alike peer g s t) (a : ServerAction) :
    s.actor a = some peer ↔ t.actor a = some peer := by
  have hpublisher : ∀ u : Server, ∀ i m, u.actor (.publisher i m) = some peer ↔
      (u.publisherOf peer i).isSome = true := by
    intro u i m
    cases hp : u.publishers i <;> simp [Server.actor, publisherOf, hp]
  have hviewer : ∀ u : Server, ∀ v m, u.actor (.viewer v m) = some peer ↔
      (u.viewerOf peer v).isSome = true := by
    intro u v m
    cases hw : u.viewers v <;> simp [Server.actor, viewerOf, hw]
  cases a with
  | publisherConnect q => exact Iff.rfl
  | publisher i m => rw [hpublisher, hpublisher, h.publishers, Option.isSome_map]
  | viewerConnect v q => exact Iff.rfl
  | viewer v m => rw [hviewer, hviewer, h.viewers, Option.isSome_map]

/-- A handler of the peer does the same on both sides. -/
theorem step (h : Alike peer g s t) (hwf : WellFormed s) (hsessions : t.sessions = s.sessions)
    (ha : s.actor a = some peer) (hs : machine.step s a = some s')
    (ht : machine.step t a = some t') :
    ∃ g', Alike peer g' s' t' := by
  cases a with
  | publisherConnect q =>
    obtain rfl : q = peer := Option.some.inj ha
    obtain rfl : s.connectPublisher q = s' := Option.some.inj hs
    obtain rfl : t.connectPublisher q = t' := Option.some.inj ht
    obtain ⟨g', hroom, hsame⟩ := h.roomFor hwf
    have hset := hroom.setPublisher s.sessions.length
      (some { peer := q, room := (s.roomFor q).1, phase := .reading, frames := [] })
    refine ⟨g', ?_⟩
    unfold connectPublisher
    dsimp only
    rw [hsame, hsessions]
    exact ⟨hset.stored, hset.created, hset.injective, hset.heap, hset.publishers, hset.viewers⟩
  | publisher i m =>
    obtain ⟨p, hp, hpeer⟩ := Option.map_eq_some_iff.mp ha
    have hp' := h.publisher hp hpeer
    simp only [machine, Server.step, hp, hp'] at hs ht
    by_cases hm : m = .cleanup
    · subst hm
      simp only [stepPublisher] at hs ht
      split at hs
      · next hphase =>
        have hphase' : (p.rename g).phase = .exiting := hphase
        simp only [hphase', Option.some.injEq] at hs ht
        subst hs ht
        exact ⟨g, h.cleanup hwf hpeer⟩
      · simp at hs
    · have hcreated : s.created[p.room]? = some peer := hpeer ▸ hwf.publisherRoom i p hp
      rw [stepPublisher_eq hp hm] at hs
      rw [stepPublisher_eq hp' hm, Publisher.move_rename] at ht
      have hheap : t.heap (p.rename g).room = s.heap p.room := h.heap p.room hcreated
      obtain ⟨x, hx, rfl⟩ := Option.map_eq_some_iff.mp hs
      rw [hheap, hx, Option.map_some, Option.map_some, Option.some.injEq] at ht
      subst ht
      exact ⟨g, (h.setRoom hcreated x.1).setPublisher i x.2⟩
  | viewerConnect v q =>
    obtain rfl : q = peer := Option.some.inj ha
    simp only [machine, Server.step] at hs ht
    split at hs
    · simp at hs
    · split at ht
      · simp at ht
      · simp only [Option.some.injEq] at hs ht
        subst hs ht
        obtain ⟨g', hroom, hsame⟩ := h.roomFor hwf
        have hset := hroom.setViewer v (some
          { peer := q, room := (s.roomFor q).1, phase := .joined, out := [], replay := []
            joinedAt := s.sessions.length })
        refine ⟨g', ?_⟩
        unfold connectViewer
        dsimp only
        rw [hsame, hsessions]
        exact hset
  | viewer v m =>
    obtain ⟨w, hw, hpeer⟩ := Option.map_eq_some_iff.mp ha
    have hw' := h.viewer hw hpeer
    simp only [machine, Server.step, hw, hw'] at hs ht
    have hcreated : s.created[w.room]? = some peer := hpeer ▸ hwf.viewerRoom v w hw
    rw [stepViewer_eq hw] at hs
    rw [stepViewer_eq hw', Viewer.move_rename] at ht
    have hheap : t.heap (w.rename g).room = s.heap w.room := h.heap w.room hcreated
    obtain ⟨x, hx, rfl⟩ := Option.map_eq_some_iff.mp hs
    rw [hheap, hx, Option.map_some, Option.map_some, Option.some.injEq] at ht
    subst ht
    exact ⟨g, (h.setRoom hcreated x.1).setViewer v x.2⟩

end Alike

/-- The same action, or a frame of a publisher of another peer with other contents. -/
inductive SameBut (peer : String) (sessions : List String) : ServerAction → ServerAction → Prop
  | same (a : ServerAction) : SameBut peer sessions a a
  | content {i : PublisherId} (f f' : Bytes) (hi : sessions[i]? ≠ some peer) :
    SameBut peer sessions (.publisher i (.item (.binary f))) (.publisher i (.item (.binary f')))

/-- The schedules differ only in the contents of frames published for other peers. -/
def SameSchedule (peer : String) (as bs : List ServerAction) : Prop :=
  List.Forall₂ (SameBut peer (connected as)) as bs

/-- What the viewer of the peer has been sent, if it is one. -/
def sentTo (s : Server) (peer : String) (v : ViewerId) : Option (List Tagged) :=
  (s.viewerOf peer v).map Viewer.out

theorem Alike.sentTo {peer : String} {g : RoomId → RoomId} {t : Server} (h : Alike peer g s t)
    (v : ViewerId) :
    t.sentTo peer v = s.sentTo peer v := by
  rw [Server.sentTo, h.viewers, Option.map_map]
  rfl

theorem SameBut.started {peer : String} {sessions : List String} {a b : ServerAction}
    (h : SameBut peer sessions a b) :
    started b = started a := by
  cases h <;> rfl

/-- Runs of schedules that agree for the peer stay alike. -/
theorem alike_run {peer : String} {sessions : List String} {as bs : List ServerAction}
    {s₁ t t₁ : Server}
    {g : RoomId → RoomId} (h : Alike peer g s t) (hwf : WellFormed s) (hwf' : WellFormed t)
    (hsessions : t.sessions = s.sessions) (hsame : List.Forall₂ (SameBut peer sessions) as bs)
    (hs : machine.run s as = some s₁) (ht : machine.run t bs = some t₁)
    (hend : s₁.sessions <+: sessions) :
    ∃ g', Alike peer g' s₁ t₁ := by
  induction hsame generalizing s t g with
  | nil =>
    simp only [Machine.run_nil, Option.some.injEq] at hs ht
    subst hs ht
    exact ⟨g, h⟩
  | @cons a b as bs hab _ ih =>
    obtain ⟨s', hstep, hrest⟩ := machine.run_cons.mp hs
    obtain ⟨t', hstep', hrest'⟩ := machine.run_cons.mp ht
    have hsessions' : t'.sessions = s'.sessions := by
      rw [sessions_step hstep, sessions_step hstep', hsessions, hab.started]
    have hother : s.actor a ≠ some peer → t.actor b ≠ some peer → ∃ g',
        Alike peer g' s' t' := fun ha hb =>
      ⟨g, h.untouched (untouched_of_step hwf hstep ha) (untouched_of_step hwf' hstep' hb)⟩
    have hnext : ∃ g', Alike peer g' s' t' := by
      cases hab with
      | same =>
        by_cases ha : s.actor a = some peer
        · exact h.step hwf hsessions ha hstep hstep'
        · exact hother ha fun hb => ha ((h.actor a).mpr hb)
      | @content i f f' hi =>
        -- the publisher belongs to another peer in both runs
        have ha : s.actor (.publisher i (.item (.binary f))) ≠ some peer := by
          intro heq
          obtain ⟨p, hp, hpeer⟩ := Option.map_eq_some_iff.mp heq
          have hgrown : s.sessions <+: sessions :=
            List.IsPrefix.trans ⟨_, (sessions_run hs).symm⟩ hend
          exact hi (hpeer ▸ getElem?_of_grown hgrown (hwf.session i p hp))
        exact hother ha fun hb => ha ((h.actor _).mpr hb)
    obtain ⟨g', hnext⟩ := hnext
    exact ih hnext (hwf.effect (effect_of_step hstep)) (hwf'.effect (effect_of_step hstep'))
      hsessions' hrest hrest'

/-- Every frame a viewer has been sent was received from a publisher that connected with
    the peer of the viewer. And what other peers publish makes no difference: at every
    moment of two runs whose schedules agree for a peer, its viewers have been sent the
    same. -/
theorem isolation {as : List ServerAction} {s : Server}
    (hs : machine.run machine.init as = some s) :
    (∀ v w, s.viewers v = some w → ∀ f ∈ w.out,
      f ∈ machine.journal received machine.init as ∧ (connected as)[f.session]? = some w.peer) ∧
    ∀ peer bs, SameSchedule peer as bs →
      ∀ n sₙ tₙ, machine.run machine.init (as.take n) = some sₙ →
        machine.run machine.init (bs.take n) = some tₙ →
        ∀ v, tₙ.sentTo peer v = sₙ.sentTo peer v := by
  refine ⟨fun v w hw f hf => ?_, fun peer bs hsame n sₙ tₙ hsₙ htₙ v => ?_⟩
  · obtain ⟨hreceived, hsession⟩ := ((sourced_run hs).viewers v w hw).out f hf
    rw [sessions_run hs] at hsession
    exact ⟨hreceived, hsession⟩
  · have hprefix : sₙ.sessions <+: connected as := by
      have htake : connected (as.take n) ++ connected (as.drop n) = connected as := by
        rw [connected, connected, connected, ← List.flatMap_append, List.take_append_drop]
      rw [sessions_run hsₙ]
      exact ⟨_, htake⟩
    obtain ⟨g, h⟩ := alike_run .init .init .init rfl (List.forall₂_take n hsame) hsₙ htₙ hprefix
    exact h.sentTo v

/-- A session of one peer while another peer publishes a frame. -/
def besideFrame (frame : Bytes) : List ServerAction :=
  [.publisherConnect "mac", .publisherConnect "pc", .viewerConnect 0 "mac", .viewer 0 .subscribe,
    .viewer 0 .snapshot, .viewer 0 (.replay true), .publisher 1 (.item (.binary frame)),
    .publisher 1 .send, .publisher 0 (.item (.binary [1])), .publisher 0 .send,
    .viewer 0 (.recv true)]

theorem isolation_besideFrame :
    (∀ v w, ((machine.run machine.init (besideFrame [2])).getD machine.init).viewers v = some w →
      ∀ f ∈ w.out, f ∈ machine.journal received machine.init (besideFrame [2]) ∧
        (connected (besideFrame [2]))[f.session]? = some w.peer) ∧
    ∀ v, ((machine.run machine.init (besideFrame [3])).getD machine.init).sentTo "mac" v =
      ((machine.run machine.init (besideFrame [2])).getD machine.init).sentTo "mac" v := by
  have hrun : ∀ n ∈ [2, 3], machine.run machine.init (besideFrame [n]) =
      some ((machine.run machine.init (besideFrame [n])).getD machine.init) := by
    intro n hn
    refine machine.run_getD (besideFrame [n]) ?_
    revert n
    decide +kernel
  have hsame : SameSchedule "mac" (besideFrame [2]) (besideFrame [3]) := by
    refine .cons (.same _)
      (.cons (.same _) (.cons (.same _) (.cons (.same _) (.cons (.same _) (.cons (.same _)
      (.cons (.content _ _ (by decide)) (List.forall₂_same.mpr fun a _ => .same a)))))))
  obtain ⟨hsource, hagree⟩ := isolation (hrun 2 (by simp))
  exact ⟨hsource, hagree "mac" (besideFrame [3]) hsame 11 _ _ (hrun 2 (by simp)) (hrun 3 (by simp))⟩

end Server

end XyzenRelay.Stream
