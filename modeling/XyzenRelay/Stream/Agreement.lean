-- SUMMARY: Handlers of one peer share the stored room exactly as long as no cleanup removes a room that is still in use.
import XyzenRelay.Stream.ServerInv

/-!
# Room agreement

`room_for` hands every handler of a peer the room in the map. The handlers stay
together as long as that room stays in the map, and the one step that takes a
room out is the cleanup of a publisher. It asks for the receivers of the room
only, and so misses another publisher and a viewer that has not yet subscribed.
-/

namespace XyzenRelay.Stream

namespace Server

/-- Every running handler holds the room stored under its peer. -/
structure Agreement (s : Server) : Prop where
  publishers : ∀ i p, s.publishers i = some p → s.rooms.lookup p.peer = some p.room
  viewers : ∀ v w, s.viewers v = some w → s.rooms.lookup w.peer = some w.room

/-- A frame sent next reaches every viewer of the peer that has subscribed. -/
def Fanout (s : Server) : Prop :=
  ∀ i p f s', s.publishers i = some p → p.phase = .recorded f →
    machine.step s (.publisher i .send) = some s' →
    ∀ v w, s.viewers v = some w → w.peer = p.peer → w.phase ≠ .joined →
      (s'.heap w.room).tx.backlog v = (s.heap w.room).tx.backlog v ++ [f]

/-- A cleanup that removes a room is the last handler of its peer. -/
def RemovesUnused (s : Server) : ServerAction → Prop
  | .publisher i .cleanup =>
    ∀ p, s.publishers i = some p → ∀ r, s.rooms.lookup p.peer = some r →
      (s.heap r).tx.receiverCount = 0 →
      (∀ j q, s.publishers j = some q → q.peer = p.peer → j = i) ∧
        ∀ v w, s.viewers v = some w → w.peer ≠ p.peer
  | _ => True

namespace Agreement

variable {s : Server}

theorem roomFor (hs : Agreement s) {peer : String} {r : RoomId} {t : Server}
    (h : RoomFor s peer r t) :
    Agreement t where
  publishers := fun i p hp => h.kept (hs.publishers i p (h.publishers ▸ hp))
  viewers := fun v w hw => h.kept (hs.viewers v w (h.viewers ▸ hw))

theorem setPublisher (hs : Agreement s) {i : PublisherId} {new : Option Publisher}
    (hnew : ∀ p, new = some p → s.rooms.lookup p.peer = some p.room) :
    Agreement (s.setPublisher i new) where
  publishers := by
    intro j p hp
    rcases update_eq_some hp with ⟨-, hsome⟩ | ⟨-, hp⟩
    · exact hnew p hsome
    · exact hs.publishers j p hp
  viewers := hs.viewers

theorem setViewer (hs : Agreement s) {v : ViewerId} {new : Option Viewer}
    (hnew : ∀ w, new = some w → s.rooms.lookup w.peer = some w.room) :
    Agreement (s.setViewer v new) where
  publishers := hs.publishers
  viewers := by
    intro u w hw
    rcases update_eq_some hw with ⟨-, hsome⟩ | ⟨-, hw⟩
    · exact hnew w hsome
    · exact hs.viewers u w hw

theorem setRoom (hs : Agreement s) (r : RoomId) (room : RoomState Tagged) :
    Agreement (s.setRoom r room) :=
  ⟨hs.publishers, hs.viewers⟩

theorem cleanup (hs : Agreement s) {i : PublisherId} {p : Publisher} (hp : s.publishers i = some p)
    (hunused : RemovesUnused s (.publisher i .cleanup)) : Agreement (s.cleanup i p) := by
  have hgone : Agreement (s.setPublisher i none) := hs.setPublisher (by simp)
  unfold Server.cleanup
  dsimp only
  split
  · exact hgone
  · next r hr =>
    split
    · next hcount =>
      obtain ⟨hpublishers, hviewers⟩ := hunused p hp r hr hcount
      constructor
      · intro j q hq
        have hpeer : q.peer ≠ p.peer := by
          intro heq
          rcases update_eq_some hq with ⟨-, hsome⟩ | ⟨hj, hq⟩
          · simp at hsome
          · exact hj (hpublishers j q hq heq)
        show (s.rooms.erase p.peer).lookup q.peer = some q.room
        rw [AList.lookup_erase_ne hpeer]
        exact hgone.publishers j q hq
      · intro v w hw
        show (s.rooms.erase p.peer).lookup w.peer = some w.room
        rw [AList.lookup_erase_ne (hviewers v w hw)]
        exact hgone.viewers v w hw
    · exact hgone

theorem effect (hs : Agreement s) {a : ServerAction} {s' : Server} (hunused : RemovesUnused s a)
    (h : Effect s a s') : Agreement s' := by
  cases h with
  | publisherConnect peer =>
    have hroom := roomFor_spec s peer
    have hlookup := hroom.lookup
    have ht : Agreement { (s.roomFor peer).2 with sessions := s.sessions ++ [peer] } :=
      ⟨(hs.roomFor hroom).publishers, (hs.roomFor hroom).viewers⟩
    refine setPublisher ht (i := s.sessions.length) ?_
    rintro p ⟨⟩
    exact hlookup
  | @record i p frame hp =>
    refine (hs.setRoom p.room ((s.heap p.room).record ⟨i, frame⟩)).setPublisher ?_
    rintro q ⟨⟩
    exact hs.publishers i p hp
  | @publisherMoves i p p' m hp hpeer hroom =>
    refine hs.setPublisher ?_
    rintro q ⟨⟩
    rw [hpeer, hroom]
    exact hs.publishers i p hp
  | publisherReturns => exact hs.setPublisher (by simp)
  | @send i p f hp =>
    refine (hs.setRoom p.room ((s.heap p.room).send f)).setPublisher ?_
    rintro q ⟨⟩
    exact hs.publishers i p hp
  | cleanup hp => exact hs.cleanup hp hunused
  | @viewerConnect v peer hv =>
    have hroom := roomFor_spec s peer
    have hlookup := hroom.lookup
    refine setViewer (hs.roomFor hroom) ?_
    rintro w ⟨⟩
    exact hlookup
  | @viewerMoves v w w' m room hw hmoved =>
    refine (hs.setRoom w.room room).setViewer ?_
    rintro x ⟨⟩
    rw [hmoved.peer, hmoved.room]
    exact hs.viewers v w hw
  | @viewerReturns v w m room => exact (hs.setRoom w.room room).setViewer (by simp)

/-- Where the handlers agree on the room, a frame reaches every subscribed viewer. -/
theorem fanout (hs : Agreement s) (hwf : WellFormed s) : Fanout s := by
  intro i p f s' hp hphase hstep v w hw hpeer hjoined
  have hroom : w.room = p.room := by
    have hlookup := hs.viewers v w hw
    rw [hpeer, hs.publishers i p hp] at hlookup
    exact (Option.some.inj hlookup).symm
  simp only [machine, step, hp, stepPublisher, hphase, Option.some.injEq] at hstep
  subst hstep
  rw [hroom]
  simp only [sendFrame, setPublisher_heap, Server.setRoom, Function.update_self]
  exact Broadcast.backlog_send (hwf.cursorsLe _) (hroom ▸ hwf.receiver v w hw hjoined) f

end Agreement

/-- A cleanup that removes a room in use leaves a handler without it. -/
theorem not_agreement_of_removal {s s' : Server} {a : ServerAction} (hnot : ¬ RemovesUnused s a)
    (h : Effect s a s') : ¬ Agreement s' := by
  intro hs'
  cases h with
  | @cleanup i p hp =>
    apply hnot
    intro q hq r hr hcount
    obtain rfl : p = q := Option.some.inj (hp.symm.trans hq)
    have hcleanup :
        s.cleanup i p = { s.setPublisher i none with rooms := s.rooms.erase p.peer } := by
      simp [Server.cleanup, hr, hcount]
    rw [hcleanup] at hs'
    constructor
    · intro j x hx hpeer
      by_contra hj
      have hx' : (s.setPublisher i none).publishers j = some x := by simp [setPublisher, hj, hx]
      have hlookup : (s.rooms.erase p.peer).lookup x.peer = some x.room := hs'.publishers j x hx'
      rw [hpeer, AList.lookup_erase] at hlookup
      simp at hlookup
    · intro v w hw hpeer
      have hlookup : (s.rooms.erase p.peer).lookup w.peer = some w.room := hs'.viewers v w hw
      rw [hpeer, AList.lookup_erase] at hlookup
      simp at hlookup
  | @publisherMoves i p p' m hp hpeer hroom hframes hm =>
    cases m with
    | cleanup => exact hm rfl
    | item | send => exact hnot trivial
  | _ => exact hnot trivial

/-- All handlers of a peer share the stored room, and every frame fans out to every
    subscribed viewer, throughout exactly the runs in which each cleanup that
    removes a room comes from the last handler of the peer. -/
theorem agreement_iff {as : List ServerAction} {t : Server}
    (hrun : machine.run machine.init as = some t) :
    (∀ u ∈ machine.visits machine.init as, u.Agreement ∧ u.Fanout) ↔
      machine.Meets RemovesUnused machine.init as := by
  have hinit : WellFormed machine.init ∧ Agreement machine.init :=
    ⟨.init, by simp [machine, init], by simp [machine, init]⟩
  have hall : machine.Meets (fun _ _ => True) machine.init as := machine.meets_true _ _
  refine machine.forall_visits_iff_meets (J := fun s => WellFormed s ∧ Agreement s)
    (fun s hs => ⟨hs.2, hs.2.fanout hs.1⟩) ?_ ?_ hinit hrun hall
  · intro s a s' hs _ hunused hstep
    have heffect := effect_of_step hstep
    exact ⟨hs.1.effect heffect, hs.2.effect hunused heffect⟩
  · intro s a s' _ _ hnot hstep hs'
    exact not_agreement_of_removal hnot (effect_of_step hstep) hs'.1

/-- A publisher with a viewer, which the room outlives, and the end of the peer. -/
def orderlyRun : List ServerAction :=
  [.publisherConnect "mac", .viewerConnect 0 "mac", .viewer 0 .subscribe, .viewer 0 .snapshot,
    .publisher 0 (.item (.binary (stamp [0x40, 1]))), .publisher 0 .send,
      .publisher 0 (.item .close),
    .publisher 0 .cleanup]

theorem agreement_orderlyRun :
    (∀ u ∈ machine.visits machine.init orderlyRun, u.Agreement ∧ u.Fanout) ↔
      machine.Meets RemovesUnused machine.init orderlyRun :=
  agreement_iff (machine.run_getD _ (by decide +kernel))

/-- A publisher reconnects before its old session has been cleaned up, which takes
    the room away under it; a viewer that joins then gets another room. -/
def reconnectRun : List ServerAction :=
  [.publisherConnect "mac", .publisherConnect "mac", .publisher 0 (.item .close),
    .publisher 0 .cleanup,
    .viewerConnect 0 "mac", .viewer 0 .subscribe, .publisher 1 (.item (.binary (stamp [0x40, 1])))]

theorem split_brain :
    (¬ ∀ s, machine.Reachable s → s.Agreement) ∧ ¬ ∀ s, machine.Reachable s → s.Fanout := by
  constructor
  · intro hagreement
    obtain ⟨s, hs, hsplit⟩ :=
      machine.exists_reachable_of_run reconnectRun
        (p := fun s => (s.publishers 1).any (fun p => s.rooms.lookup p.peer ≠ some p.room) = true)
        (by decide +kernel)
    obtain ⟨p, hp, hroom⟩ := (Option.any_eq_true _ _).mp hsplit
    simp [(hagreement s hs).publishers 1 p hp] at hroom
  · intro hfanout
    let f : Tagged := ⟨1, stamp [0x40, 1]⟩
    obtain ⟨s, hs, hpublisher, hviewer⟩ :=
      machine.exists_reachable_of_run reconnectRun
        (p := fun s =>
          (s.publishers 1).any (fun p => p.peer = "mac" ∧ p.phase = .recorded f) = true ∧
          (s.viewers 0).any (fun w => w.peer = "mac" ∧ w.phase = .subscribed ∧
            (machine.step s (.publisher 1 .send)).any
              (fun s' => (s'.heap w.room).tx.backlog 0 = [])) = true)
        (by decide +kernel)
    obtain ⟨p, hp, hphase⟩ := (Option.any_eq_true _ _).mp hpublisher
    obtain ⟨w, hw, hrest⟩ := (Option.any_eq_true _ _).mp hviewer
    simp only [decide_eq_true_eq] at hphase hrest
    obtain ⟨s', hs', hmissed⟩ := (Option.any_eq_true _ _).mp hrest.2.2
    simp only [decide_eq_true_eq] at hmissed
    have hreached := hfanout s hs 1 p f s' hp hphase.2 hs' 0 w hw (hrest.1.trans hphase.1.symm)
      (by simp [hrest.2.1])
    rw [hmissed] at hreached
    simp at hreached

end Server

end XyzenRelay.Stream
