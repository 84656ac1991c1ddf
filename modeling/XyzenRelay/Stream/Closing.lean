-- SUMMARY: Whether the last publisher of a peer leaves a broadcast sender of its rooms behind.
import XyzenRelay.Lib.Journal
import XyzenRelay.Stream.Leaks

/-!
# Closing

A room, and with it its broadcast sender, lives as long as the map or a handler holds
it. A viewer holds its own room while it waits for frames, so it never sees the
channel closed, and a room with a viewer outlives its publishers.
-/

namespace XyzenRelay.Stream

namespace Server

variable {s s' : Server} {a : ServerAction} {r : RoomId} {peer : String}

/-- Somebody holds the room: the map, a publisher or a viewer. -/
def SenderAlive (s : Server) (r : RoomId) : Prop :=
  (∃ q, s.rooms.lookup q = some r) ∨ (∃ i p, s.publishers i = some p ∧ p.room = r) ∨
    ∃ v w, s.viewers v = some w ∧ w.room = r

/-- `rx.recv()` of the viewer yields `Closed`. -/
def RecvClosed (s : Server) (v : ViewerId) (r : RoomId) : Prop :=
  (s.heap r).tx.backlog v = [] ∧ ¬ s.SenderAlive r

def NoPublisher (s : Server) (peer : String) : Prop :=
  ∀ i p, s.publishers i = some p → p.peer ≠ peer

/-- The room a new publisher is given. -/
def publisherRoom (s : Server) : ServerAction → Option RoomId
  | .publisherConnect peer => some (s.roomFor peer).1
  | _ => none

/-- The server with the rooms publishers were given so far. -/
def published : Machine (List RoomId × Server) ServerAction := machine.recorded publisherRoom

/-- Once the last publisher of a peer has returned, no sender of its rooms is left, and
    its subscribers see the close after their backlog. -/
structure SeesClose (x : List RoomId × Server) : Prop where
  dropped : ∀ r ∈ x.1, ∀ peer, x.2.created[r]? = some peer → x.2.NoPublisher peer →
    ¬ x.2.SenderAlive r
  closed : ∀ r ∈ x.1, ∀ peer, x.2.created[r]? = some peer → x.2.NoPublisher peer →
    ∀ v w, x.2.viewers v = some w → w.room = r → w.phase ≠ .joined →
      (x.2.heap r).tx.backlog v = [] →
      x.2.RecvClosed v r

/-- When the last publisher of a peer returns, no viewer holds a room the publishers of
    the peer were given, and past the cleanup neither does the map. -/
def LeavesNobody (x : List RoomId × Server) : ServerAction → Prop
  | .publisher i (.item .error) =>
    ∀ p, x.2.publishers i = some p → (∀ j q, x.2.publishers j = some q → q.peer = p.peer → j = i) →
      ∀ r ∈ x.1, x.2.created[r]? = some p.peer →
        (∀ v w, x.2.viewers v = some w → w.room ≠ r) ∧ x.2.rooms.lookup p.peer ≠ some r
  | .publisher i .cleanup =>
    ∀ p, x.2.publishers i = some p → (∀ j q, x.2.publishers j = some q → q.peer = p.peer → j = i) →
      ∀ r ∈ x.1, x.2.created[r]? = some p.peer → ∀ v w, x.2.viewers v = some w → w.room ≠ r
  | _ => True

/-! ## Dead rooms stay dead -/

/-- The room a handler is given is stored, or new. -/
theorem roomFor_held (s : Server) (q : String) :
    s.SenderAlive (s.roomFor q).1 ∨ (s.roomFor q).1 = s.created.length := by
  unfold roomFor
  split
  · next r hr => exact .inl (.inl ⟨q, hr⟩)
  · exact .inr rfl

theorem lookup_roomFor {q q' : String} (h : (s.roomFor q).2.rooms.lookup q' = some r) :
    s.SenderAlive r ∨ r = s.created.length := by
  have hroom := roomFor_spec s q
  by_cases hq : q' = q
  · subst hq
    obtain rfl : (s.roomFor q').1 = r := Option.some.inj (hroom.lookup.symm.trans h)
    exact roomFor_held s q'
  · exact .inl (.inl ⟨q', (hroom.other q' hq).symm.trans h⟩)

theorem lookup_cleanup {i : PublisherId} {p : Publisher} {q : String}
    (h : (s.cleanup i p).rooms.lookup q = some r) :
    s.rooms.lookup q = some r := by
  by_cases hq : q = p.peer
  · subst hq
    unfold cleanup at h
    dsimp only at h
    split at h
    · exact h
    · split at h
      · exact absurd ((AList.lookup_erase _ _).symm.trans h) (by simp)
      · exact h
  · rwa [lookup_cleanup_ne hq] at h

/-- No step gives anyone a room that nobody holds, except a new one. -/
theorem senderAlive_step (h : Effect s a s') (hr : r < s.created.length) (hs : s'.SenderAlive r) :
    s.SenderAlive r := by
  have hpublisher : ∀ {i p}, s.publishers i = some p → p.room = r → s.SenderAlive r :=
    fun hp hroom => .inr (.inl ⟨_, _, hp, hroom⟩)
  have hviewer : ∀ {v w}, s.viewers v = some w → w.room = r → s.SenderAlive r :=
    fun hw hroom => .inr (.inr ⟨_, _, hw, hroom⟩)
  have hold : ∀ {x}, s.SenderAlive x ∨ x = s.created.length → x = r → s.SenderAlive r := by
    rintro x (halive | rfl) rfl
    · exact halive
    · exact absurd hr (Nat.lt_irrefl _)
  -- a publisher is replaced by one with the same room, or by none
  have hset : ∀ {i : PublisherId} {p : Publisher} {new : Option Publisher} (t : Server),
    t.rooms = s.rooms → t.publishers = s.publishers →
      t.viewers = s.viewers → s.publishers i = some p → (∀ q, new = some q → q.room = p.room) →
      (t.setPublisher i new).SenderAlive r → s.SenderAlive r := by
    rintro i p new t hrooms hpublishers hviewers hp hnew
      (⟨q, hq⟩ | ⟨j, q, hq, hroom⟩ | ⟨v, w, hw, hroom⟩)
    · exact .inl ⟨q, hrooms ▸ hq⟩
    · rcases update_eq_some hq with ⟨-, hsome⟩ | ⟨-, hq⟩
      · exact hpublisher hp ((hnew q hsome).symm.trans hroom)
      · exact hpublisher (hpublishers ▸ hq) hroom
    · exact hviewer (hviewers ▸ hw) hroom
  have hsetViewer : ∀ {v : ViewerId} {w : Viewer} {new : Option Viewer} {room : RoomState Tagged},
      s.viewers v = some w → (∀ x, new = some x → x.room = w.room) →
      ((s.setRoom w.room room).setViewer v new).SenderAlive r → s.SenderAlive r := by
    rintro v w new room hw hnew (⟨q, hq⟩ | ⟨j, q, hq, hroom⟩ | ⟨u, x, hx, hroom⟩)
    · exact .inl ⟨q, hq⟩
    · exact hpublisher hq hroom
    · rcases update_eq_some hx with ⟨-, hsome⟩ | ⟨-, hx⟩
      · exact hviewer hw ((hnew x hsome).symm.trans hroom)
      · exact hviewer hx hroom
  cases h with
  | publisherConnect q =>
    have hroom := roomFor_spec s q
    rcases hs with ⟨q', hq'⟩ | ⟨j, p, hp, hheld⟩ | ⟨v, w, hw, hheld⟩
    · exact hold (lookup_roomFor hq') rfl
    · rcases update_eq_some hp with ⟨-, hsome⟩ | ⟨-, hp⟩
      · cases hsome
        exact hold (roomFor_held s q) hheld
      · exact hpublisher (hroom.publishers ▸ hp) hheld
    · exact hviewer (hroom.viewers ▸ hw) hheld
  | @record i p frame hp => exact hset (s.setRoom _ _) rfl rfl rfl hp (by rintro q ⟨⟩; rfl) hs
  | publisherMoves hp hpeer hroom => exact hset s rfl rfl rfl hp (by rintro q ⟨⟩; exact hroom) hs
  | publisherReturns hp => exact hset s rfl rfl rfl hp (by simp) hs
  | send hp => exact hset (s.setRoom _ _) rfl rfl rfl hp (by rintro q ⟨⟩; rfl) hs
  | cleanup hp =>
    rcases hs with ⟨q, hq⟩ | ⟨j, q, hq, hheld⟩ | ⟨v, w, hw, hheld⟩
    · exact .inl ⟨q, lookup_cleanup hq⟩
    · rw [cleanup_publishers] at hq
      rcases update_eq_some hq with ⟨-, hsome⟩ | ⟨-, hq⟩
      · simp at hsome
      · exact hpublisher hq hheld
    · exact hviewer (cleanup_viewers s _ _ ▸ hw) hheld
  | @viewerConnect v q hv =>
    have hroom := roomFor_spec s q
    rcases hs with ⟨q', hq'⟩ | ⟨j, p, hp, hheld⟩ | ⟨u, w, hw, hheld⟩
    · exact hold (lookup_roomFor hq') rfl
    · exact hpublisher (hroom.publishers ▸ hp) hheld
    · rcases update_eq_some hw with ⟨-, hsome⟩ | ⟨-, hw⟩
      · cases hsome
        exact hold (roomFor_held s q) hheld
      · exact hviewer (hroom.viewers ▸ hw) hheld
  | viewerMoves hw hmoved => exact hsetViewer hw (by rintro x ⟨⟩; exact hmoved.room) hs
  | viewerReturns hw => exact hsetViewer hw (by simp) hs

/-! ## The last publisher of a peer -/

theorem created_step (h : Effect s a s') : s.created <+: s'.created := by
  cases h with
  | publisherConnect q => exact (roomFor_spec s q).created
  | @cleanup i p hp =>
    have hcreated := cleanup_created s i p
    exact hcreated ▸ List.prefix_refl _
  | @viewerConnect v q hv => exact (roomFor_spec s q).created
  | _ => exact List.prefix_refl _

/-- A publisher handler stays until the error of its socket, or its cleanup. -/
theorem publisher_step (h : Effect s a s') (hwf : WellFormed s) {i : PublisherId} {p : Publisher}
    (hp : s.publishers i = some p) :
    (∃ p', s'.publishers i = some p' ∧ p'.peer = p.peer) ∨
      (a = .publisher i (.item .error) ∧ s' = s.setPublisher i none) ∨
      (a = .publisher i .cleanup ∧ s' = s.cleanup i p) := by
  have hset : ∀ {j : PublisherId} {q new : Publisher}, s.publishers j = some q → new.peer = q.peer →
      ∃ p', Function.update s.publishers j (some new) i = some p' ∧ p'.peer = p.peer :=
    fun hq hsame => exists_of_update Publisher.peer hq rfl hsame i p hp rfl
  have hother : ∀ {j : PublisherId} {q : Publisher}, s.publishers j = some q → i ≠ j →
      ∃ p', Function.update s.publishers j none i = some p' ∧ p'.peer = p.peer :=
    fun hq hij => ⟨p, (Function.update_of_ne hij ..).trans hp, rfl⟩
  cases h with
  | publisherConnect q =>
    have hi : i ≠ s.sessions.length := Nat.ne_of_lt (lt_of_getElem? (hwf.session i p hp))
    have hkept : (s.connectPublisher q).publishers i = (s.roomFor q).2.publishers i :=
      Function.update_of_ne hi ..
    exact .inl ⟨p, by rw [hkept, (roomFor_spec s q).publishers, hp], rfl⟩
  | record hq => exact .inl (hset hq rfl)
  | publisherMoves hq hpeer => exact .inl (hset hq hpeer)
  | @publisherReturns j q hq =>
    by_cases hij : i = j
    · subst hij
      exact .inr (.inl ⟨rfl, rfl⟩)
    · exact .inl (hother hq hij)
  | send hq => exact .inl (hset hq rfl)
  | @cleanup j q hq =>
    by_cases hij : i = j
    · subst hij
      obtain rfl := Option.some.inj (hp.symm.trans hq)
      exact .inr (.inr ⟨rfl, rfl⟩)
    · rw [cleanup_publishers]
      exact .inl (hother hq hij)
  | @viewerConnect v q hv =>
    exact .inl ⟨p, by rw [← (roomFor_spec s q).publishers] at hp; exact hp, rfl⟩
  | _ => exact .inl ⟨p, hp, rfl⟩

/-- A room without viewers is not stored after a cleanup that finds it. -/
theorem lookup_cleanup_unwatched (hreceivers : s.ReceiversRun)
    (hno : ∀ v w, s.viewers v = some w → w.room ≠ r)
    {i : PublisherId} {p : Publisher} : (s.cleanup i p).rooms.lookup p.peer ≠ some r := by
  intro hr
  have hcount : (s.heap r).tx.receiverCount = 0 := by
    rw [Broadcast.receiverCount_eq_zero]
    intro v hv
    obtain ⟨w, hw, hroom⟩ := hreceivers r v hv
    exact hno v w hw hroom
  unfold cleanup at hr
  simp only [lookup_cleanup hr, hcount, if_true] at hr
  exact absurd ((AList.lookup_erase _ _).symm.trans hr) (by simp)

/-- The rooms given to publishers exist. -/
theorem given_step {L : List RoomId} (h : machine.step s a = some s') (hwf : WellFormed s)
    (hL : ∀ r ∈ L, r < s.created.length) :
    ∀ r ∈ L ++ (s.publisherRoom a).toList, r < s'.created.length := by
  intro r hr
  have heffect := effect_of_step h
  rcases List.mem_append.mp hr with hmem | hmem
  · exact Nat.lt_of_lt_of_le (hL r hmem) (created_step heffect).length_le
  · cases a with
    | publisherConnect q =>
      obtain rfl : s.connectPublisher q = s' := Option.some.inj h
      simp only [publisherRoom, Option.toList_some, List.mem_singleton] at hmem
      rw [hmem]
      exact lt_of_getElem?
        ((hwf.effect heffect).publisherRoom s.sessions.length _ (Function.update_self ..))
    | _ => simp [publisherRoom] at hmem

theorem dropped_step {L : List RoomId} (h : machine.step s a = some s') (hwf : WellFormed s)
    (hreceivers : s.ReceiversRun)
    (hL : ∀ r ∈ L, r < s.created.length)
    (hs : ∀ r ∈ L, ∀ peer, s.created[r]? = some peer → s.NoPublisher peer → ¬ s.SenderAlive r)
    (ha : LeavesNobody (L, s) a) :
    ∀ r ∈ L ++ (s.publisherRoom a).toList, ∀ peer, s'.created[r]? = some peer →
      s'.NoPublisher peer → ¬ s'.SenderAlive r := by
  intro r hr peer hcreated hno halive
  have heffect := effect_of_step h
  have hwf' := hwf.effect heffect
  rcases List.mem_append.mp hr with hmem | hmem
  · have hbefore : s.created[r]? = some peer := by
      rw [getElem?_of_grown (created_step heffect)
        (List.getElem?_eq_getElem (hL r hmem))] at hcreated
      rw [List.getElem?_eq_getElem (hL r hmem), hcreated]
    have hheld : ∃ i p, s.publishers i = some p ∧ p.peer = peer := by
      by_contra hnone
      push Not at hnone
      exact hs r hmem peer hbefore hnone (senderAlive_step heffect (hL r hmem) halive)
    obtain ⟨i, p, hp, rfl⟩ := hheld
    -- the last publisher of the peer returns in this step
    have honly : s'.publishers = Function.update s.publishers i none → ∀ j q,
      s.publishers j = some q →
        q.peer = p.peer → j = i := by
      intro hpublishers j q hq hpeer
      by_contra hj
      exact hno j q (by rw [hpublishers, Function.update_of_ne hj, hq]) hpeer
    have hstored : ∀ q, s'.rooms.lookup q = some r → q = p.peer := by
      intro q hq
      have hq' := hwf'.stored q r hq
      exact Option.some.inj (hq'.symm.trans hcreated)
    rcases publisher_step heffect hwf hp with ⟨p', hp', hpeer⟩ | ⟨rfl, rfl⟩ | ⟨rfl, rfl⟩
    · exact hno i p' hp' hpeer
    · obtain ⟨hunwatched, hlookup⟩ := ha p hp (honly rfl) r hmem hbefore
      rcases halive with ⟨q, hq⟩ | ⟨j, q, hq, hroom⟩ | ⟨v, w, hw, hroom⟩
      · obtain rfl := hstored q hq
        exact hlookup hq
      · have hpeer := hwf'.publisherRoom j q hq
        rw [hroom, hcreated] at hpeer
        exact hno j q hq (Option.some.inj hpeer).symm
      · exact hunwatched v w hw hroom
    · have hunwatched := ha p hp (honly (cleanup_publishers s i p)) r hmem hbefore
      rcases halive with ⟨q, hq⟩ | ⟨j, q, hq, hroom⟩ | ⟨v, w, hw, hroom⟩
      · obtain rfl := hstored q hq
        exact lookup_cleanup_unwatched hreceivers hunwatched hq
      · have hpeer := hwf'.publisherRoom j q hq
        rw [hroom, hcreated] at hpeer
        exact hno j q hq (Option.some.inj hpeer).symm
      · exact hunwatched v w (cleanup_viewers s i p ▸ hw) hroom
  · -- a room given in this step belongs to a publisher that has just come
    cases a with
    | publisherConnect q =>
      obtain rfl : s.connectPublisher q = s' := Option.some.inj h
      simp only [publisherRoom, Option.toList_some, List.mem_singleton] at hmem
      have hnew : (s.connectPublisher q).publishers s.sessions.length =
          some { peer := q, room := (s.roomFor q).1, phase := .reading, frames := [] } :=
            Function.update_self ..
      have hpeer := hwf'.publisherRoom _ _ hnew
      rw [← hmem, hcreated] at hpeer
      exact hno _ _ hnew (Option.some.inj hpeer).symm
    | _ => simp [publisherRoom] at hmem

theorem step_cleanup {i : PublisherId} {p : Publisher} (hp : s.publishers i = some p)
    (h : machine.step s (.publisher i .cleanup) = some s') : s' = s.cleanup i p := by
  simp only [machine, step, hp, stepPublisher] at h
  split at h
  · exact (Option.some.inj h).symm
  · simp at h

/-- A room of the peer that is held when its last publisher has returned is not dropped. -/
theorem not_dropped_step {L : List RoomId} (h : machine.step s a = some s')
    (ha : ¬ LeavesNobody (L, s) a) :
    ¬ ∀ r ∈ L ++ (s.publisherRoom a).toList, ∀ peer, s'.created[r]? = some peer →
      s'.NoPublisher peer → ¬ s'.SenderAlive r := by
  intro hs'
  have hgone : ∀ {i p}, s'.publishers = Function.update s.publishers i none →
      (∀ j q, s.publishers j = some q → q.peer = p → j = i) → s'.NoPublisher p := by
    intro i p hpublishers honly j q hq hpeer
    rw [hpublishers] at hq
    rcases update_eq_some hq with ⟨-, hsome⟩ | ⟨hj, hq⟩
    · simp at hsome
    · exact hj (honly j q hq hpeer)
  have heffect := effect_of_step h
  unfold LeavesNobody at ha
  split at ha
  · next i =>
    apply ha
    intro p hp honly r hr hcreated
    obtain rfl := step_error h
    have hdead := hs' r (List.mem_append_left _ hr) p.peer hcreated (hgone rfl honly)
    exact ⟨fun v w hw hroom => hdead (.inr (.inr ⟨v, w, hw, hroom⟩)),
      fun hlookup => hdead (.inl ⟨_, hlookup⟩)⟩
  · next i =>
    apply ha
    intro p hp honly r hr hcreated v w hw hroom
    have hcreated' := getElem?_of_grown (created_step heffect) hcreated
    obtain rfl := step_cleanup hp h
    exact hs' r (List.mem_append_left _ hr) p.peer hcreated'
      (hgone (cleanup_publishers s i p) honly)
      (.inr (.inr ⟨v, w, (cleanup_viewers s i p).symm ▸ hw, hroom⟩))
  · exact ha trivial

/-- The senders of the rooms of a peer are all dropped once its last publisher has
    returned, throughout a run, exactly when no viewer holds such a room by then, nor the
    map if the publisher returns past its cleanup. -/
theorem seesClose_iff {as : List ServerAction} {t : Server}
    (hrun : machine.run machine.init as = some t) :
    (∀ x ∈ published.visits published.init as, SeesClose x) ↔
    published.Meets LeavesNobody published.init as := by
  have hrun' : published.run published.init as =
      some (machine.journal publisherRoom machine.init as, t) :=
    (machine.recorded_run publisherRoom).mpr ⟨hrun, rfl⟩
  refine published.forall_visits_iff_meets (A := fun _ _ => True)
    (J := fun x => ((WellFormed x.2 ∧ ReceiversRun x.2) ∧ ∀ r ∈ x.1, r < x.2.created.length) ∧
      ∀ r ∈ x.1, ∀ peer, x.2.created[r]? = some peer → x.2.NoPublisher peer → ¬ x.2.SenderAlive r)
    (fun x hx => ?_) ?_ ?_ ?_ hrun' (published.meets_true _ _)
  · exact ⟨hx.2, fun r hr peer hcreated hno v w hw hroom _ hempty => ⟨hempty,
      hx.2 r hr peer hcreated hno⟩⟩
  · rintro ⟨L, s⟩ a ⟨L', s'⟩ ⟨⟨⟨hwf, hreceivers⟩, hL⟩, hs⟩ - hC hstep
    obtain ⟨hstep, hL'⟩ := (machine.recorded_step publisherRoom).mp hstep
    obtain rfl : L' = L ++ (s.publisherRoom a).toList := hL'
    have heffect := effect_of_step hstep
    exact ⟨⟨⟨hwf.effect heffect, hreceivers.effect heffect⟩, given_step hstep hwf hL⟩,
      dropped_step hstep hwf hreceivers hL hs hC⟩
  · rintro ⟨L, s⟩ a ⟨L', s'⟩ - - hC hstep hclose
    obtain ⟨hstep, hL'⟩ := (machine.recorded_step publisherRoom).mp hstep
    obtain rfl : L' = L ++ (s.publisherRoom a).toList := hL'
    exact not_dropped_step hstep hC hclose.dropped
  · exact ⟨⟨⟨.init, .init⟩, fun r hr => by simp [published, Machine.recorded] at hr⟩,
      fun r hr => by simp [published, Machine.recorded] at hr⟩

theorem seesClose_iff_closedSession :
    (∀ x ∈ published.visits published.init closedSession, SeesClose x) ↔
      published.Meets LeavesNobody published.init closedSession :=
  seesClose_iff (machine.run_getD closedSession (by decide +kernel))

/-- A session whose viewer is still there when the publisher has closed. -/
def watchedClose : List ServerAction :=
  [.publisherConnect "mac", .viewerConnect 0 "mac", .viewer 0 .subscribe, .viewer 0 .snapshot,
    .viewer 0 (.replay true),
    .publisher 0 (.item .close), .publisher 0 .cleanup]

/-- The viewer has read everything and waits in an open channel. -/
theorem close_not_seen :
    ¬ ∀ as t, machine.run machine.init as = some t → ∀ x ∈ published.visits published.init as,
      SeesClose x := by
  intro h
  have hrun := machine.run_getD (s := machine.init) watchedClose (by decide +kernel)
  have hrun' := (machine.recorded_run publisherRoom (L := [])).mpr ⟨hrun, rfl⟩
  have hclose := h watchedClose _ hrun _ (published.mem_visits_of_run hrun')
  have hwf := wellFormed_reachable (machine.reachable_of_run hrun)
  have hgiven : 0 ∈ machine.journal publisherRoom machine.init watchedClose := by decide +kernel
  generalize hend : (machine.run machine.init watchedClose).getD machine.init = u at hclose hwf
  have hcreated : u.created[0]? = some "mac" ∧ u.sessions.length = 1 ∧
    (u.publishers 0).isNone = true ∧
      (u.viewers 0).any (fun w => w.room = 0) = true := by
    rw [← hend]
    decide +kernel
  obtain ⟨hpeer, hsessions, hgone, hviewer⟩ := hcreated
  refine hclose.dropped 0 hgiven "mac" hpeer (fun i p hp _ => ?_) (.inr (.inr ?_))
  · have hi : i < 1 := hsessions ▸ lt_of_getElem? (hwf.session i p hp)
    obtain rfl : i = 0 := Nat.lt_one_iff.mp hi
    rw [show u.publishers 0 = some p from hp] at hgone
    simp at hgone
  · obtain ⟨w, hw, hroom⟩ := (Option.any_eq_true _ _).mp hviewer
    exact ⟨0, w, hw, by simpa using hroom⟩

end Server

end XyzenRelay.Stream
