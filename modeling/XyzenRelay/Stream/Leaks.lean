-- SUMMARY: A room outlives the last handler of its peer exactly when that handler does not go through the publisher's cleanup.
import XyzenRelay.Stream.ServerInv

/-!
# Room leaks

Both kinds of handler create rooms, and only the cleanup of a publisher removes one.
A publisher whose socket fails returns past it, and a viewer has none, so the room of
a peer is left behind whenever one of these is the last to go.
-/

namespace XyzenRelay.Stream

namespace Server

variable {s s' : Server} {a : ServerAction}

/-! ## Receivers -/

/-- A receiver belongs to a running viewer of its room. -/
def ReceiversRun (s : Server) : Prop :=
  ∀ r v, v ∈ (s.heap r).tx.cursors → ∃ w, s.viewers v = some w ∧ w.room = r

/-- A room is the one that was there, or a new one. -/
theorem heap_roomFor (s : Server) (peer : String) (x : RoomId) :
    (s.roomFor peer).2.heap x = s.heap x ∨ (s.roomFor peer).2.heap x = .new := by
  unfold roomFor
  split
  · exact .inl rfl
  · by_cases hx : x = s.created.length
    · subst hx
      exact .inr (Function.update_self ..)
    · exact .inl (Function.update_of_ne hx ..)

namespace ReceiversRun

theorem init : Server.init.ReceiversRun :=
  fun r v hv => by simp [Server.init, RoomState.new, Broadcast.channel] at hv

theorem roomFor (hs : s.ReceiversRun) (peer : String) : (s.roomFor peer).2.ReceiversRun := by
  intro r v hv
  rw [(roomFor_spec s peer).viewers]
  rcases heap_roomFor s peer r with hheap | hheap
  · exact hs r v (hheap ▸ hv)
  · rw [hheap] at hv
    simp [RoomState.new, Broadcast.channel] at hv

/-- A room is given a state with no receivers but those of its viewers. -/
theorem setRoom (hs : s.ReceiversRun) {r : RoomId} {room : RoomState Tagged}
    (hroom : ∀ v, v ∈ room.tx.cursors → ∃ w, s.viewers v = some w ∧ w.room = r) :
    (s.setRoom r room).ReceiversRun := by
  intro x v hv
  by_cases hx : x = r
  · subst hx
    exact hroom v (by simpa [Server.setRoom] using hv)
  · exact hs x v (by simpa [Server.setRoom, hx] using hv)

/-- A viewer moves: the other receivers are those of before. -/
theorem viewer (hs : s.ReceiversRun) {v : ViewerId} {w : Viewer} {new : Option Viewer}
    {room : RoomState Tagged}
    (hw : s.viewers v = some w) (hkept : RoomKept v (s.heap w.room) room)
    (hnew : v ∈ room.tx.cursors → ∃ w', new = some w' ∧ w'.room = w.room) :
    ((s.setRoom w.room room).setViewer v new).ReceiversRun := by
  intro r u hu
  have hroom : u ∈ (Function.update s.heap w.room room r).tx.cursors := hu
  by_cases huv : u = v
  · subst huv
    have hr : r = w.room := by
      by_contra hne
      rw [Function.update_of_ne hne] at hroom
      obtain ⟨w₀, hw₀, rfl⟩ := hs r u hroom
      obtain rfl := Option.some.inj (hw.symm.trans hw₀)
      exact hne rfl
    subst hr
    rw [Function.update_self] at hroom
    obtain ⟨w', rfl, hsame⟩ := hnew hroom
    exact ⟨w', Function.update_self .., hsame⟩
  · have hbefore : u ∈ (s.heap r).tx.cursors := by
      by_cases hr : r = w.room
      · subst hr
        rw [Function.update_self] at hroom
        exact hkept.none_added u huv hroom
      · rwa [Function.update_of_ne hr] at hroom
    obtain ⟨x, hx, hxroom⟩ := hs r u hbefore
    exact ⟨x, (Function.update_of_ne huv ..).trans hx, hxroom⟩

theorem effect (hs : s.ReceiversRun) (h : Effect s a s') : s'.ReceiversRun := by
  cases h with
  | publisherConnect peer => exact hs.roomFor peer
  | record hp => exact hs.setRoom fun v hv => hs _ v hv
  | publisherMoves => exact hs
  | publisherReturns => exact hs
  | @send i p f hp hphase =>
    refine hs.setRoom fun v hv => hs _ v ?_
    rwa [RoomState.send, Broadcast.cursors_send] at hv
  | @cleanup i p hp =>
    rw [cleanup_eq]
    exact hs
  | @viewerConnect v peer hv =>
    intro r u hu
    obtain ⟨w, hw, hroom⟩ := hs.roomFor peer r u hu
    have hne : u ≠ v := by
      rintro rfl
      rw [(roomFor_spec s peer).viewers, hv] at hw
      simp at hw
    exact ⟨w, (Function.update_of_ne hne ..).trans hw, hroom⟩
  | @viewerMoves v w w' m room hw hmoved => exact hs.viewer hw hmoved.kept fun _ =>
    ⟨w', rfl, hmoved.room⟩
  | viewerReturns hw hkept hgone => exact hs.viewer hw hkept fun hmem => absurd hmem hgone

end ReceiversRun

/-- A room of a peer without viewers has no receivers. -/
theorem receiverCount_of_unwatched (hwf : WellFormed s) (hreceivers : s.ReceiversRun)
    {peer : String} {r : RoomId}
    (hr : s.created[r]? = some peer) (hno : ∀ v w, s.viewers v = some w → w.peer ≠ peer) :
    (s.heap r).tx.receiverCount = 0 := by
  rw [Broadcast.receiverCount_eq_zero]
  intro v hv
  obtain ⟨w, hw, rfl⟩ := hreceivers r v hv
  have hpeer := hwf.viewerRoom v w hw
  rw [hr] at hpeer
  exact hno v w hw (Option.some.inj hpeer).symm

/-! ## Rooms without handlers -/

/-- No handler of the peer is running. -/
structure Idle (s : Server) (peer : String) : Prop where
  publishers : ∀ i p, s.publishers i = some p → p.peer ≠ peer
  viewers : ∀ v w, s.viewers v = some w → w.peer ≠ peer

/-- The map has no room for a peer without handlers. -/
def NoLeak (s : Server) : Prop := ∀ peer, s.Idle peer → s.rooms.lookup peer = none

/-- The write of this move fails, and the viewer handler returns. -/
def hangsUp (s : Server) (v : ViewerId) (w : Viewer) : ViewerMove → Bool
  | .replay false => match w.phase with
    | .replaying (_ :: _) => true
    | _ => false
  | .recv false => match w.phase, ((s.heap w.room).recv v).1 with
    | .live, .value _ => true
    | _, _ => false
  | .ping false => w.phase = .live
  | _ => false

/-- The handler of the peer that returns last is a publisher that goes through its
    cleanup, unless the map has no room for the peer anyway. -/
def LeavesByCleanup (s : Server) : ServerAction → Prop
  | .publisher i (.item .error) =>
    ∀ p, s.publishers i = some p → (∀ j q, s.publishers j = some q → q.peer = p.peer → j = i) →
      (∀ v w, s.viewers v = some w → w.peer ≠ p.peer) → s.rooms.lookup p.peer = none
  | .viewer v m =>
    ∀ w, s.viewers v = some w → s.hangsUp v w m = true →
      (∀ i p, s.publishers i = some p → p.peer ≠ w.peer) →
      (∀ u x, s.viewers u = some x → x.peer = w.peer → u = v) → s.rooms.lookup w.peer = none
  | _ => True

theorem viewers_viewerLeave (s : Server) (v : ViewerId) (w : Viewer) :
    (s.viewerLeave v w).viewers v = none :=
  Function.update_self ..

theorem hangsUp_iff {v : ViewerId} {w : Viewer} {m : ViewerMove} (hw : s.viewers v = some w)
    (h : s.stepViewer v w m = some s') : s.hangsUp v w m = true ↔ s'.viewers v = none := by
  have hset : ∀ (t : Server) (x : Viewer), (t.setViewer v (some x)).viewers v = some x :=
    fun t x => Function.update_self ..
  cases m with
  | subscribe =>
    simp only [stepViewer] at h
    split at h
    · obtain rfl := Option.some.inj h
      simp [hangsUp, hset]
    · simp at h
  | snapshot =>
    simp only [stepViewer] at h
    split at h
    · obtain rfl := Option.some.inj h
      simp [hangsUp, hset]
    · simp at h
  | replay ok =>
    simp only [stepViewer] at h
    split at h
    · next hphase =>
      obtain rfl := Option.some.inj h
      cases ok <;> simp [hangsUp, hphase, viewerWrite, hset, viewers_viewerLeave]
    · next hphase =>
      obtain rfl := Option.some.inj h
      cases ok <;> simp [hangsUp, hphase, hset]
    · simp at h
  | recv ok =>
    simp only [stepViewer] at h
    split at h
    · next hphase =>
      split at h
      · next f room hrecv =>
        obtain rfl := Option.some.inj h
        cases ok <;> simp [hangsUp, hphase, hrecv, viewerWrite, hset, viewers_viewerLeave]
      · next n room hrecv =>
        obtain rfl := Option.some.inj h
        cases ok <;> simp [hangsUp, hphase, hrecv, setRoom, hw]
      · simp at h
    · simp at h
  | ping ok =>
    simp only [stepViewer] at h
    split at h
    · next hphase =>
      obtain rfl := Option.some.inj h
      cases ok <;> simp [hangsUp, hphase, hw, viewers_viewerLeave]
    · simp at h

/-- A peer without handlers had none before, if the publisher that is gone was not its own. -/
theorem Idle.before_publisher {peer : String} (h : s'.Idle peer) (hviewers : s'.viewers = s.viewers)
    (hpublishers : ∀ i p, s.publishers i = some p → p.peer = peer →
      ∃ q, s'.publishers i = some q ∧ q.peer = peer) : s.Idle peer where
  publishers := by
    intro i p hp hpeer
    obtain ⟨q, hq, hqpeer⟩ := hpublishers i p hp hpeer
    exact h.publishers i q hq hqpeer
  viewers := hviewers ▸ h.viewers

/-- Likewise for its viewers. -/
theorem Idle.before_viewer {peer : String} (h : s'.Idle peer)
    (hpublishers : s'.publishers = s.publishers)
    (hviewers : ∀ v w, s.viewers v = some w → w.peer = peer →
      ∃ x, s'.viewers v = some x ∧ x.peer = peer) : s.Idle peer where
  publishers := hpublishers ▸ h.publishers
  viewers := by
    intro v w hw hpeer
    obtain ⟨x, hx, hxpeer⟩ := hviewers v w hw hpeer
    exact h.viewers v x hx hxpeer

section Updates

variable {α : Type} (peerOf : α → String) {handlers handlers' : Nat → Option α} {i : Nat}
  {peer : String}

/-- A handler that is replaced by one of the same peer, and the others. -/
theorem exists_of_update {old new : α} (hold : handlers i = some old)
    (hafter : handlers' = Function.update handlers i (some new)) (hsame : peerOf new = peerOf old)
    (j : Nat) (b : α)
    (hb : handlers j = some b) (hpeer : peerOf b = peer) :
    ∃ c, handlers' j = some c ∧ peerOf c = peer := by
  by_cases hj : j = i
  · subst hj
    obtain rfl := Option.some.inj (hold.symm.trans hb)
    exact ⟨new, by rw [hafter, Function.update_self], hsame.trans hpeer⟩
  · exact ⟨b, by rw [hafter, Function.update_of_ne hj, hb], hpeer⟩

/-- A handler of another peer is replaced. -/
theorem exists_of_update_ne {old : α} {new : Option α} (hold : handlers i = some old)
    (hother : peerOf old ≠ peer)
    (hafter : handlers' = Function.update handlers i new) (j : Nat) (b : α)
    (hb : handlers j = some b)
    (hpeer : peerOf b = peer) : ∃ c, handlers' j = some c ∧ peerOf c = peer := by
  have hj : j ≠ i := by
    rintro rfl
    obtain rfl := Option.some.inj (hold.symm.trans hb)
    exact hother hpeer
  exact ⟨b, by rw [hafter, Function.update_of_ne hj, hb], hpeer⟩

end Updates

theorem lookup_cleanup_ne {i : PublisherId} {p : Publisher} {peer : String}
    (hpeer : peer ≠ p.peer) :
    (s.cleanup i p).rooms.lookup peer = s.rooms.lookup peer := by
  unfold cleanup
  dsimp only
  split
  · rfl
  · split
    · exact AList.lookup_erase_ne hpeer
    · rfl

/-- The cleanup of the last handler of a peer takes the room out of the map. -/
theorem lookup_cleanup_own (hwf : WellFormed s) (hreceivers : s.ReceiversRun) {i : PublisherId}
    {p : Publisher}
    (hno : ∀ v w, s.viewers v = some w → w.peer ≠ p.peer) :
    (s.cleanup i p).rooms.lookup p.peer = none := by
  unfold cleanup
  dsimp only
  split
  · next hnone => exact hnone
  · next r hr =>
    rw [if_pos (receiverCount_of_unwatched hwf hreceivers (hwf.stored _ r hr) hno)]
    exact AList.lookup_erase _ _

theorem step_viewer {v : ViewerId} {m : ViewerMove} {w : Viewer} (hw : s.viewers v = some w)
    (h : machine.step s (.viewer v m) = some s') : s.stepViewer v w m = some s' := by
  simpa [machine, step, hw] using h

theorem noLeak_step (hwf : WellFormed s) (hreceivers : s.ReceiversRun) (hs : s.NoLeak)
    (ha : s.LeavesByCleanup a)
    (h : machine.step s a = some s') : s'.NoLeak := by
  intro peer hidle
  cases effect_of_step h with
  | publisherConnect q =>
    have hroom := roomFor_spec s q
    have hnew : (s.connectPublisher q).publishers s.sessions.length =
        some { peer := q, room := (s.roomFor q).1, phase := .reading, frames := [] } :=
          Function.update_self ..
    have hpeer : peer ≠ q := fun heq => hidle.publishers _ _ hnew heq.symm
    have hlookup : (s.connectPublisher q).rooms.lookup peer = s.rooms.lookup peer :=
      hroom.other peer hpeer
    rw [hlookup]
    refine hs peer (hidle.before_publisher hroom.viewers fun i p hp hppeer => ?_)
    have hi : i ≠ s.sessions.length := Nat.ne_of_lt (lt_of_getElem? (hwf.session i p hp))
    have hkept : (s.connectPublisher q).publishers i = (s.roomFor q).2.publishers i :=
      Function.update_of_ne hi ..
    exact ⟨p, by rw [hkept, hroom.publishers, hp], hppeer⟩
  | record hp =>
    exact hs peer (hidle.before_publisher rfl (exists_of_update Publisher.peer hp rfl rfl))
  | publisherMoves hp hpeer =>
    exact hs peer (hidle.before_publisher rfl (exists_of_update Publisher.peer hp rfl hpeer))
  | @publisherReturns i p hp =>
    by_cases hpeer : p.peer = peer
    · subst hpeer
      refine ha p hp (fun j q hq hqpeer => ?_) hidle.viewers
      by_contra hj
      exact hidle.publishers j q ((Function.update_of_ne hj ..).trans hq) hqpeer
    · exact hs peer
        (hidle.before_publisher rfl (exists_of_update_ne Publisher.peer hp hpeer rfl))
  | send hp =>
    exact hs peer (hidle.before_publisher rfl (exists_of_update Publisher.peer hp rfl rfl))
  | @cleanup i p hp =>
    by_cases hpeer : p.peer = peer
    · subst hpeer
      exact lookup_cleanup_own hwf hreceivers (cleanup_viewers s i p ▸ hidle.viewers)
    · rw [lookup_cleanup_ne (Ne.symm hpeer)]
      exact hs peer (hidle.before_publisher (cleanup_viewers s i p)
        (exists_of_update_ne Publisher.peer hp hpeer (cleanup_publishers s i p)))
  | @viewerConnect v q hv =>
    have hroom := roomFor_spec s q
    have hnew : (s.connectViewer v q).viewers v = some
        { peer := q, room := (s.roomFor q).1, phase := .joined, out := [], replay := [],
          joinedAt := s.sessions.length } :=
      Function.update_self ..
    have hpeer : peer ≠ q := fun heq => hidle.viewers _ _ hnew heq.symm
    have hlookup : (s.connectViewer v q).rooms.lookup peer = s.rooms.lookup peer :=
      hroom.other peer hpeer
    rw [hlookup]
    refine hs peer (hidle.before_viewer hroom.publishers fun u w hw hwpeer => ?_)
    have hu : u ≠ v := by
      rintro rfl
      simp [hv] at hw
    have hkept : (s.connectViewer v q).viewers u = (s.roomFor q).2.viewers u :=
      Function.update_of_ne hu ..
    exact ⟨w, by rw [hkept, hroom.viewers, hw], hwpeer⟩
  | viewerMoves hw hmoved =>
    exact hs peer (hidle.before_viewer rfl (exists_of_update Viewer.peer hw rfl hmoved.peer))
  | @viewerReturns v w m room hw hkept hgone =>
    by_cases hpeer : w.peer = peer
    · subst hpeer
      have hhangs := (hangsUp_iff hw (step_viewer hw h)).mpr (Function.update_self ..)
      refine ha w hw hhangs hidle.publishers fun u x hx hxpeer => ?_
      by_contra hu
      exact hidle.viewers u x ((Function.update_of_ne hu ..).trans hx) hxpeer
    · exact hs peer (hidle.before_viewer rfl (exists_of_update_ne Viewer.peer hw hpeer rfl))

/-- An error of its socket ends a publisher handler. -/
theorem step_error {i : PublisherId} (h : machine.step s (.publisher i (.item .error)) = some s') :
    s' = s.setPublisher i none := by
  simp only [machine, step] at h
  split at h
  · simp only [stepPublisher] at h
    split at h
    · exact (Option.some.inj h).symm
    · simp at h
  · simp at h

/-- A move of a viewer touches neither the map nor the other handlers. -/
theorem step_viewer_frame {v : ViewerId} {m : ViewerMove}
    (h : machine.step s (.viewer v m) = some s') :
    s'.rooms = s.rooms ∧ s'.publishers = s.publishers ∧ ∀ u, u ≠ v →
      s'.viewers u = s.viewers u := by
  cases effect_of_step h with
  | viewerMoves => exact ⟨rfl, rfl, fun u hu => Function.update_of_ne hu ..⟩
  | viewerReturns => exact ⟨rfl, rfl, fun u hu => Function.update_of_ne hu ..⟩

/-- A room that the last handler of its peer leaves behind stays in the map. -/
theorem not_noLeak_step (ha : ¬ s.LeavesByCleanup a) (h : machine.step s a = some s') :
    ¬ s'.NoLeak := by
  intro hs'
  unfold LeavesByCleanup at ha
  split at ha
  · next i =>
    apply ha
    intro p hp honly hno
    obtain rfl := step_error h
    refine hs' p.peer ⟨fun j q hq hpeer => ?_, hno⟩
    rcases update_eq_some hq with ⟨-, hsome⟩ | ⟨hj, hq⟩
    · simp at hsome
    · exact hj (honly j q hq hpeer)
  · next v m =>
    apply ha
    intro w hw hhangs hno honly
    obtain ⟨hrooms, hpublishers, hothers⟩ := step_viewer_frame h
    have hgone := (hangsUp_iff hw (step_viewer hw h)).mp hhangs
    rw [← hrooms]
    refine hs' w.peer ⟨by rwa [hpublishers], fun u x hx hpeer => ?_⟩
    by_cases hu : u = v
    · subst hu
      simp [hgone] at hx
    · exact hu (honly u x (hothers u hu ▸ hx) hpeer)
  · exact ha trivial

/-- No room is leaked along a run exactly when the last handler of a peer to return is a
    publisher that goes through its cleanup, or finds no room of the peer in the map. -/
theorem noLeak_iff {as : List ServerAction} {t : Server}
    (hrun : machine.run machine.init as = some t) :
    (∀ u ∈ machine.visits machine.init as, u.NoLeak) ↔
    machine.Meets LeavesByCleanup machine.init as := by
  refine machine.forall_visits_iff_meets (A := fun _ _ => True)
    (J := fun s => (WellFormed s ∧ ReceiversRun s) ∧ NoLeak s) (fun s hs => hs.2) ?_ ?_ ?_ hrun
      (machine.meets_true _ _)
  · intro s a s' ⟨⟨hwf, hreceivers⟩, hs⟩ _ hC hstep
    have heffect := effect_of_step hstep
    exact ⟨⟨hwf.effect heffect, hreceivers.effect heffect⟩, noLeak_step hwf hreceivers hs hC hstep⟩
  · intro s a s' _ _ hC hstep
    exact not_noLeak_step hC hstep
  · exact ⟨⟨.init, .init⟩, fun peer _ => AList.lookup_empty peer⟩

/-- A session with a viewer that hangs up before the publisher closes. -/
def closedSession : List ServerAction :=
  [.publisherConnect "mac", .viewerConnect 0 "mac", .viewer 0 .subscribe, .viewer 0 .snapshot,
    .viewer 0 (.replay true),
    .viewer 0 (.ping false), .publisher 0 (.item .close), .publisher 0 .cleanup]

theorem noLeak_iff_closedSession :
    (∀ u ∈ machine.visits machine.init closedSession, u.NoLeak) ↔
      machine.Meets LeavesByCleanup machine.init closedSession :=
  noLeak_iff (machine.run_getD closedSession (by decide +kernel))

/-- A publisher whose socket fails leaves its room behind. -/
theorem room_leaked : ¬ ∀ s, machine.Reachable s → s.NoLeak := by
  intro h
  have hrun : machine.run machine.init [.publisherConnect "mac", .publisher 0 (.item .error)] =
      some (((init.connectPublisher "mac").setPublisher 0 none)) := rfl
  have hleak := h _ ⟨_, hrun⟩ "mac" ⟨fun i p hp => ?_, fun v w hw => by cases hw⟩
  · revert hleak
    decide +kernel
  · rcases update_eq_some hp with ⟨-, hsome⟩ | ⟨hi, hconnected⟩
    · simp at hsome
    · rcases update_eq_some hconnected with ⟨hi', -⟩ | ⟨-, hnone⟩
      · exact absurd hi' hi
      · simp [init] at hnone

end Server

end XyzenRelay.Stream
