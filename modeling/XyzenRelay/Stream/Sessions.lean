-- SUMMARY: Replays hold no frame of an earlier publisher session exactly as long as every session of the peer starts in a room with an empty window.
import XyzenRelay.Stream.ServerInv

/-!
# Publisher sessions

The window of a room belongs to the room, not to the publisher session that
filled it. A room outlives the session when a viewer is subscribed at the
cleanup, and when the handler returns past the cleanup; the next session of the
peer is then handed the old window, with its frames and its codec.
-/

namespace XyzenRelay.Stream

namespace Server

/-- The frame was recorded by a session of the peer, and no session of the peer among
    the first `n` is newer. -/
def RecordedSince (s : Server) (peer : String) (n : Nat) (f : Tagged) : Prop :=
  s.sessions[f.session]? = some peer ∧ ∀ j, j < n → s.sessions[j]? = some peer → j ≤ f.session

/-- Replays and codecs of the peer owe nothing to an earlier session. -/
structure NoStale (peer : String) (s : Server) : Prop where
  /-- A viewer is replayed no frame older than the newest session it found. -/
  replay : ∀ v w, s.viewers v = some w → w.peer = peer →
    ∀ f ∈ w.replay, s.RecordedSince peer w.joinedAt f
  /-- The codec a session is classified under is the one its own frames imply. -/
  codec : ∀ i p, s.publishers i = some p → p.peer = peer →
    (s.heap p.room).warmup.codec = codecOf p.frames

/-- A publisher session of the peer has not returned yet. -/
def runningSession (s : Server) (peer : String) (i : PublisherId) : Bool :=
  (s.publishers i).any fun p => p.peer = peer

/-- Sessions of the peer do not overlap. -/
def NoOverlap (peer : String) (s : Server) : ServerAction → Prop
  | .publisherConnect q =>
    q = peer → ∀ i ∈ List.range s.sessions.length, s.runningSession peer i = false
  | _ => True

instance (peer : String) (s : Server) : ∀ a, Decidable (s.NoOverlap peer a)
  | .publisherConnect q =>
    inferInstanceAs (Decidable (q = peer → ∀ i ∈ List.range s.sessions.length, _ = _))
  | .publisher _ _ | .viewerConnect _ _ | .viewer _ _ => .isTrue trivial

/-- A session of the peer starts without a stored room, or in one that is not locked
    to a codec yet. -/
def FreshRoom (peer : String) (s : Server) : ServerAction → Prop
  | .publisherConnect q =>
    q = peer → ∀ r, s.rooms.lookup peer = some r → (s.heap r).warmup.codec = none
  | _ => True

/-! ## Windows and sessions -/

/-- The window of the room holds frames of the peer, none older than its sessions
    among the first `n`. -/
def WindowSince (s : Server) (peer : String) (n : Nat) (r : RoomId) : Prop :=
  ∃ H, (s.heap r).warmup = WarmupWindow.default.recordAll H ∧ ∀ f ∈ H, s.RecordedSince peer n f

section Since

variable {s t : Server} {peer : String} {n m : Nat} {r : RoomId}

theorem RecordedSince.mono {f : Tagged} (h : s.RecordedSince peer n f)
    (hsessions : s.sessions <+: t.sessions)
    (hold : ∀ j, j < m → t.sessions[j]? = some peer → j < n ∧ s.sessions[j]? = some peer) :
    t.RecordedSince peer m f :=
  ⟨getElem?_of_grown hsessions h.1, fun j hj hpeer => h.2 j (hold j hj hpeer).1 (hold j hj hpeer).2⟩

theorem WindowSince.mono (h : s.WindowSince peer n r)
    (hwarmup : (t.heap r).warmup = (s.heap r).warmup)
    (hsessions : s.sessions <+: t.sessions)
    (hold : ∀ j, j < m → t.sessions[j]? = some peer → j < n ∧ s.sessions[j]? = some peer) :
    t.WindowSince peer m r := by
  obtain ⟨H, hH, hsince⟩ := h
  exact ⟨H, hwarmup.trans hH, fun f hf => (hsince f hf).mono hsessions hold⟩

/-- Steps that start no session keep what is known of the windows they leave alone. -/
theorem RecordedSince.congr {f : Tagged} (h : s.RecordedSince peer n f)
    (hsessions : t.sessions = s.sessions) :
    t.RecordedSince peer n f := by
  rw [RecordedSince, hsessions]
  exact h

theorem WindowSince.congr (h : s.WindowSince peer n r)
    (hwarmup : (t.heap r).warmup = (s.heap r).warmup)
    (hsessions : t.sessions = s.sessions) : t.WindowSince peer n r := by
  obtain ⟨H, hH, hsince⟩ := h
  exact ⟨H, hwarmup.trans hH, fun f hf => (hsince f hf).congr hsessions⟩

theorem windowSince_default (h : (s.heap r).warmup = .default) : s.WindowSince peer n r :=
  ⟨[], h, by simp⟩

/-- Sessions started later are not among the first `n`. -/
theorem old_of_grown (hsessions : s.sessions <+: t.sessions) (hn : n ≤ s.sessions.length) {j : Nat}
    (hj : j < n) (hpeer : t.sessions[j]? = some peer) : j < n ∧ s.sessions[j]? = some peer := by
  obtain ⟨zs, hzs⟩ := hsessions
  rw [← hzs, List.getElem?_append_left (by omega)] at hpeer
  exact ⟨hj, hpeer⟩

end Since

/-- What the runs with fresh rooms keep. -/
structure Current (peer : String) (s : Server) : Prop where
  /-- A running session of the peer is the newest, and the stored room is its own. -/
  running : ∀ i p, s.publishers i = some p → p.peer = peer →
    s.rooms.lookup peer = some p.room ∧
      (s.heap p.room).warmup = WarmupWindow.default.recordAll p.frames ∧
      ∀ j, s.sessions[j]? = some peer → j ≤ i
  stored : ∀ r, s.rooms.lookup peer = some r → s.WindowSince peer s.sessions.length r
  viewers : ∀ v w, s.viewers v = some w → w.peer = peer →
    s.WindowSince peer w.joinedAt w.room ∧ ∀ f ∈ w.replay, s.RecordedSince peer w.joinedAt f

namespace Current

variable {peer : String} {s : Server}

theorem noStale (hs : Current peer s) : NoStale peer s where
  replay := fun v w hw hpeer => (hs.viewers v w hw hpeer).2
  codec := by
    intro i p hp hpeer
    rw [(hs.running i p hp hpeer).2.1, recordAll_codec]

/-- Only one session of the peer is running. -/
theorem running_unique (hs : Current peer s) (hwf : WellFormed s) {i j : PublisherId}
    {p q : Publisher}
    (hp : s.publishers i = some p) (hpeer : p.peer = peer) (hq : s.publishers j = some q)
    (hqpeer : q.peer = peer) : j = i := by
  have hij := (hs.running j q hq hqpeer).2.2 i (hpeer ▸ hwf.session i p hp)
  have hji := (hs.running i p hp hpeer).2.2 j (hqpeer ▸ hwf.session j q hq)
  exact Nat.le_antisymm hji hij

theorem roomFor (hs : Current peer s) (hwf : WellFormed s) {q : String} {r : RoomId} {t : Server}
    (h : RoomFor s q r t) : Current peer t := by
  have hheap : ∀ {x}, s.created[x]? = some peer → (t.heap x).warmup = (s.heap x).warmup :=
    fun hx => by rw [h.heap _ (lt_of_getElem? hx)]
  constructor
  case running =>
    intro i p hp hpeer
    rw [h.publishers] at hp
    obtain ⟨hlookup, hwindow, hnewest⟩ := hs.running i p hp hpeer
    rw [h.sessions, hheap (hpeer ▸ hwf.publisherRoom i p hp)]
    exact ⟨h.kept hlookup, hwindow, hnewest⟩
  case stored =>
    intro x hx
    rw [h.sessions]
    cases hlookup : s.rooms.lookup peer with
    | some y =>
      rw [h.kept hlookup, Option.some.injEq] at hx
      subst hx
      exact (hs.stored y hlookup).congr (hheap (hwf.stored peer y hlookup)) h.sessions
    | none =>
      -- the room is a new one of this peer
      have hq : q = peer := by
        by_contra hne
        rw [h.other peer (Ne.symm hne), hlookup] at hx
        simp at hx
      subst hq
      rw [h.lookup, Option.some.injEq] at hx
      subst hx
      rcases h.source with hr | ⟨-, hnew, -⟩
      · rw [hlookup] at hr
        simp at hr
      · exact windowSince_default (by rw [hnew]; rfl)
  case viewers =>
    intro v w hw hpeer
    rw [h.viewers] at hw
    obtain ⟨hwindow, hreplay⟩ := hs.viewers v w hw hpeer
    exact ⟨hwindow.congr (hheap (hpeer ▸ hwf.viewerRoom v w hw)) h.sessions,
      fun f hf => (hreplay f hf).congr h.sessions⟩

/-- Accesses to a room that leave its window alone. -/
theorem setRoom (hs : Current peer s) {r : RoomId} {room : RoomState Tagged}
    (hwarmup : room.warmup = (s.heap r).warmup) :
    Current peer (s.setRoom r room) := by
  have hheap : ∀ x, ((s.setRoom r room).heap x).warmup = (s.heap x).warmup := by
    intro x
    by_cases hx : x = r
    · subst hx
      simpa [Server.setRoom] using hwarmup
    · simp [Server.setRoom, hx]
  constructor
  case running =>
    intro i p hp hpeer
    rw [hheap]
    exact hs.running i p hp hpeer
  case stored =>
    intro x hx
    exact (hs.stored x hx).congr (hheap x) rfl
  case viewers =>
    intro v w hw hpeer
    obtain ⟨hwindow, hreplay⟩ := hs.viewers v w hw hpeer
    exact ⟨hwindow.congr (hheap _) rfl, hreplay⟩

theorem setPublisher (hs : Current peer s) {i : PublisherId} {new : Option Publisher}
    (hnew : ∀ p, new = some p → p.peer = peer → s.rooms.lookup peer = some p.room ∧
      (s.heap p.room).warmup = WarmupWindow.default.recordAll p.frames ∧
      ∀ j, s.sessions[j]? = some peer → j ≤ i) : Current peer (s.setPublisher i new) where
  running := by
    intro j p hp hpeer
    rcases update_eq_some hp with ⟨rfl, hsome⟩ | ⟨-, hp⟩
    · exact hnew p hsome hpeer
    · exact hs.running j p hp hpeer
  stored := hs.stored
  viewers := hs.viewers

theorem setViewer (hs : Current peer s) {v : ViewerId} {new : Option Viewer}
    (hnew : ∀ w, new = some w → w.peer = peer → s.WindowSince peer w.joinedAt w.room ∧
      ∀ f ∈ w.replay, s.RecordedSince peer w.joinedAt f) : Current peer (s.setViewer v new) where
  running := hs.running
  stored := hs.stored
  viewers := by
    intro u w hw hpeer
    rcases update_eq_some hw with ⟨rfl, hsome⟩ | ⟨-, hw⟩
    · exact hnew w hsome hpeer
    · exact hs.viewers u w hw hpeer

/-- A frame recorded by a session of another peer. -/
theorem record_other (hs : Current peer s) (hwf : WellFormed s) {i : PublisherId} {p : Publisher}
    {f : Tagged} (hp : s.publishers i = some p) (hpeer : p.peer ≠ peer) :
    Current peer (s.recordFrame i p f) := by
  have hheap : ∀ {x}, s.created[x]? = some peer → ((s.recordFrame i p f).heap x) = s.heap x := by
    intro x hx
    have hne : x ≠ p.room := by
      rintro rfl
      rw [hwf.publisherRoom i p hp] at hx
      exact hpeer (Option.some.inj hx)
    simp [recordFrame, Server.setRoom, hne]
  constructor
  case running =>
    intro j q hq hqpeer
    rcases update_eq_some hq with ⟨-, hsome⟩ | ⟨-, hq⟩
    · cases hsome
      exact absurd hqpeer hpeer
    · rw [hheap (hqpeer ▸ hwf.publisherRoom j q hq)]
      exact hs.running j q hq hqpeer
  case stored =>
    intro x hx
    refine (hs.stored x hx).congr ?_ rfl
    rw [hheap (hwf.stored peer x hx)]
  case viewers =>
    intro v w hw hwpeer
    obtain ⟨hwindow, hreplay⟩ := hs.viewers v w hw hwpeer
    refine ⟨hwindow.congr ?_ rfl, hreplay⟩
    rw [hheap (hwpeer ▸ hwf.viewerRoom v w hw)]

/-- A frame recorded by the running session of the peer. -/
theorem record_own (hs : Current peer s) (hwf : WellFormed s) {i : PublisherId} {p : Publisher}
    {frame : Bytes} (hp : s.publishers i = some p) (hpeer : p.peer = peer) :
    Current peer (s.recordFrame i p ⟨i, frame⟩) := by
  obtain ⟨hlookup, hwindow, hnewest⟩ := hs.running i p hp hpeer
  have hnew : ∀ n, s.RecordedSince peer n ⟨i, frame⟩ :=
    fun n => ⟨hpeer ▸ hwf.session i p hp, fun j _ hj => hnewest j hj⟩
  -- the window of every room of the peer stays one of frames at least as new
  have hsince : ∀ {n x}, s.WindowSince peer n x →
      (s.recordFrame i p ⟨i, frame⟩).WindowSince peer n x := by
    rintro n x ⟨H, hH, hold⟩
    by_cases hx : x = p.room
    · subst hx
      refine ⟨H ++ [⟨i, frame⟩], ?_, fun f hf => ?_⟩
      · simp [recordFrame, Server.setRoom, RoomState.record, hH]
      · rcases List.mem_append.mp hf with hf | hf
        · exact hold f hf
        · rw [List.mem_singleton.mp hf]
          exact hnew n
    · exact ⟨H, by simpa [recordFrame, Server.setRoom, hx] using hH, hold⟩
  constructor
  case running =>
    intro j q hq hqpeer
    rcases update_eq_some hq with ⟨rfl, hsome⟩ | ⟨hj, hq⟩
    · cases hsome
      refine ⟨hlookup, ?_, hnewest⟩
      simp [recordFrame, Server.setRoom, RoomState.record, hwindow]
    · exact absurd (hs.running_unique hwf hp hpeer hq hqpeer) hj
  case stored => exact fun x hx => hsince (hs.stored x hx)
  case viewers =>
    intro v w hw hwpeer
    obtain ⟨hroom, hreplay⟩ := hs.viewers v w hw hwpeer
    exact ⟨hsince hroom, hreplay⟩

theorem cleanup (hs : Current peer s) (hwf : WellFormed s) {i : PublisherId} {p : Publisher}
    (hp : s.publishers i = some p) : Current peer (s.cleanup i p) := by
  have hgone : Current peer (s.setPublisher i none) := hs.setPublisher (by simp)
  unfold Server.cleanup
  dsimp only
  split
  · exact hgone
  · split
    · -- the room of the peer is removed only when its last session ends
      constructor
      case running =>
        intro j q hq hqpeer
        have hold := hgone.running j q hq hqpeer
        have hne : peer ≠ p.peer := by
          rintro rfl
          rcases update_eq_some hq with ⟨-, hsome⟩ | ⟨hj, hq⟩
          · simp at hsome
          · exact hj (hs.running_unique hwf hp rfl hq hqpeer)
        refine ⟨?_, hold.2⟩
        show (s.rooms.erase p.peer).lookup peer = some q.room
        rw [AList.lookup_erase_ne hne]
        exact hold.1
      case stored =>
        intro x hx
        by_cases hpeer : peer = p.peer
        · subst hpeer
          simp at hx
        · refine hgone.stored x ?_
          rwa [AList.lookup_erase_ne hpeer] at hx
      case viewers => exact hgone.viewers
    · exact hgone

/-- A new session of another peer. -/
theorem connect_other (hs : Current peer s) (hwf : WellFormed s) {q : String} (hq : q ≠ peer) :
    Current peer (s.connectPublisher q) := by
  have hroom := roomFor_spec s q
  have ht := hs.roomFor hwf hroom
  have hsessions : (s.connectPublisher q).sessions = s.sessions ++ [q] := rfl
  have hprefix : (s.roomFor q).2.sessions <+: (s.connectPublisher q).sessions := by
    rw [hsessions, hroom.sessions]
    exact List.prefix_append _ _
  -- the new session is none of the peer
  have hold : ∀ {j : Nat}, (s.connectPublisher q).sessions[j]? = some peer →
      (s.roomFor q).2.sessions[j]? = some peer := by
    intro j hj
    rw [hsessions] at hj
    rw [hroom.sessions]
    rcases Nat.lt_or_ge j s.sessions.length with hlt | hge
    · rwa [List.getElem?_append_left hlt] at hj
    · rw [List.getElem?_append_right hge, List.getElem?_singleton] at hj
      split_ifs at hj
      exact absurd (Option.some.inj hj) hq
  constructor
  case running =>
    intro i p hp hpeer
    rcases update_eq_some hp with ⟨-, hsome⟩ | ⟨-, hp⟩
    · cases hsome
      exact absurd hpeer hq
    · obtain ⟨hlookup, hwindow, hnewest⟩ := ht.running i p hp hpeer
      exact ⟨hlookup, hwindow, fun j hj => hnewest j (hold hj)⟩
  case stored =>
    intro x hx
    refine (ht.stored x hx).mono rfl hprefix fun j _ hj => ⟨?_, hold hj⟩
    exact lt_of_getElem? (hold hj)
  case viewers =>
    intro v w hw hpeer
    obtain ⟨hwindow, hreplay⟩ := ht.viewers v w hw hpeer
    exact ⟨hwindow.mono rfl hprefix fun j hj hj' => ⟨hj, hold hj'⟩,
      fun f hf => (hreplay f hf).mono hprefix fun j hj hj' => ⟨hj, hold hj'⟩⟩

/-- A new session of the peer, in a room with an empty window. -/
theorem connect_own (hs : Current peer s) (hwf : WellFormed s)
    (hoverlap : NoOverlap peer s (.publisherConnect peer))
    (hfresh : FreshRoom peer s (.publisherConnect peer)) :
    Current peer (s.connectPublisher peer) := by
  have hroom := roomFor_spec s peer
  have ht := hs.roomFor hwf hroom
  have hwindow : ((s.roomFor peer).2.heap (s.roomFor peer).1).warmup = .default := by
    rcases hroom.source with hr | ⟨-, hnew, -⟩
    · rw [hroom.heap _ (lt_of_getElem? (hwf.stored peer _ hr))]
      obtain ⟨H, hH, -⟩ := hs.stored _ hr
      have hcodec := hfresh rfl _ hr
      rw [hH] at hcodec ⊢
      exact recordAll_unlocked hcodec
    · rw [hnew]
      rfl
  have hsessions : (s.connectPublisher peer).sessions = s.sessions ++ [peer] := rfl
  have hprefix : (s.roomFor peer).2.sessions <+: (s.connectPublisher peer).sessions := by
    rw [hsessions, hroom.sessions]
    exact List.prefix_append _ _
  constructor
  case running =>
    intro i p hp hpeer
    rcases update_eq_some hp with ⟨rfl, hsome⟩ | ⟨-, hp⟩
    · cases hsome
      refine ⟨hroom.lookup, hwindow, fun j hj => ?_⟩
      have hlt := lt_of_getElem? hj
      rw [hsessions, List.length_append, List.length_singleton] at hlt
      exact Nat.le_of_lt_succ hlt
    · have hp' : s.publishers i = some p := hroom.publishers ▸ hp
      have hi := lt_of_getElem? (hwf.session i p hp')
      have hnone := hoverlap rfl i (List.mem_range.mpr hi)
      simp [runningSession, hp', hpeer] at hnone
  case stored =>
    intro x hx
    have hx' : (s.roomFor peer).2.rooms.lookup peer = some x := hx
    rw [hroom.lookup, Option.some.injEq] at hx'
    subst hx'
    exact windowSince_default hwindow
  case viewers =>
    intro v w hw hpeer
    have hle : w.joinedAt ≤ (s.roomFor peer).2.sessions.length :=
      (hwf.roomFor hroom).joinedLe v w hw
    obtain ⟨hw', hreplay⟩ := ht.viewers v w hw hpeer
    exact ⟨hw'.mono rfl hprefix fun j => old_of_grown hprefix hle,
      fun f hf => (hreplay f hf).mono hprefix fun j => old_of_grown hprefix hle⟩

theorem effect (hs : Current peer s) (hwf : WellFormed s) {a : ServerAction} {s' : Server}
    (hoverlap : NoOverlap peer s a) (hfresh : FreshRoom peer s a) (h : Effect s a s') :
    Current peer s' := by
  cases h with
  | publisherConnect q =>
    by_cases hq : q = peer
    · subst hq
      exact hs.connect_own hwf hoverlap hfresh
    · exact hs.connect_other hwf hq
  | @record i p frame hp =>
    by_cases hpeer : p.peer = peer
    · exact hs.record_own hwf hp hpeer
    · exact hs.record_other hwf hp hpeer
  | @publisherMoves i p p' m hp hpeer hroom hframes hm =>
    refine hs.setPublisher ?_
    rintro q ⟨⟩ hq
    rw [hroom, hframes]
    exact hs.running i p hp (hpeer ▸ hq)
  | publisherReturns => exact hs.setPublisher (by simp)
  | @send i p f hp hphase =>
    have hsend : Current peer (s.setRoom p.room ((s.heap p.room).send f)) := hs.setRoom rfl
    refine hsend.setPublisher ?_
    rintro q ⟨⟩ hq
    exact hsend.running i p hp hq
  | cleanup hp => exact hs.cleanup hwf hp
  | @viewerConnect v q hv =>
    have hroom := roomFor_spec s q
    have ht := hs.roomFor hwf hroom
    have hlookup := hroom.lookup
    have hsessions := hroom.sessions
    refine ht.setViewer ?_
    rintro w ⟨⟩ hq
    refine ⟨?_, by simp⟩
    have hstored := ht.stored (s.roomFor q).1 (by rw [← hq]; exact hlookup)
    rwa [hsessions] at hstored
  | @viewerMoves v w w' m room hw hmoved =>
    have hroom : Current peer (s.setRoom w.room room) := hs.setRoom hmoved.kept.warmup
    refine hroom.setViewer ?_
    rintro x ⟨⟩ hpeer
    rw [hmoved.peer] at hpeer
    rw [hmoved.joinedAt, hmoved.room]
    refine ⟨(hroom.viewers v w hw hpeer).1, ?_⟩
    rcases hmoved.replay with hsame | hsnapshot
    · rw [hsame]
      exact (hs.viewers v w hw hpeer).2
    · -- the snapshot is taken from the window of the viewer's room
      obtain ⟨H, hH, hsince⟩ := (hs.viewers v w hw hpeer).1
      rw [hsnapshot, hH]
      exact fun f hf => hsince f (mem_of_mem_snapshot hf)
  | @viewerReturns v w m room hw hkept =>
    have hroom : Current peer (s.setRoom w.room room) := hs.setRoom hkept.warmup
    exact hroom.setViewer (by simp)

end Current

/-- A session that starts in a locked room is classified under a codec it did not choose. -/
theorem not_noStale_of_locked {peer : String} {s s' : Server} {a : ServerAction}
    (hs : Current peer s)
    (hwf : WellFormed s) (hnot : ¬ FreshRoom peer s a) (h : Effect s a s') : ¬ NoStale peer s' := by
  intro hs'
  cases h with
  | publisherConnect q =>
    apply hnot
    intro hq r hr
    subst hq
    have hroom := roomFor_spec s q
    have hstored : (s.roomFor q).1 = r := by
      have hlookup := hroom.lookup
      rw [hroom.kept hr, Option.some.injEq] at hlookup
      exact hlookup.symm
    have hcodec := hs'.codec s.sessions.length
      { peer := q, room := (s.roomFor q).1, phase := .reading, frames := [] }
      (by simp [connectPublisher, setPublisher]) rfl
    have hheap : (s.connectPublisher q).heap r = s.heap r :=
      hroom.heap r (lt_of_getElem? (hwf.stored q r hr))
    rw [hstored, hheap] at hcodec
    exact hcodec
  | _ => exact hnot trivial

/-- In the runs where the sessions of the peer do not overlap, replays and codecs owe
    nothing to an earlier session exactly when every session finds no stored room, or
    one that is not locked to a codec. -/
theorem noStale_iff {peer : String} {as : List ServerAction} {t : Server}
    (hrun : machine.run machine.init as = some t)
    (hoverlap : machine.Meets (NoOverlap peer) machine.init as) :
    (∀ u ∈ machine.visits machine.init as, u.NoStale peer) ↔
      machine.Meets (FreshRoom peer) machine.init as := by
  have hinit : WellFormed machine.init ∧ Current peer machine.init := by
    refine ⟨.init, ?_, ?_, ?_⟩ <;> simp [machine, init]
  refine machine.forall_visits_iff_meets (J := fun s => WellFormed s ∧ Current peer s)
    (fun s hs => hs.2.noStale) ?_ ?_ hinit hrun hoverlap
  · intro s a s' hs hoverlap hfresh hstep
    have heffect := effect_of_step hstep
    exact ⟨hs.1.effect heffect, hs.2.effect hs.1 hoverlap hfresh heffect⟩
  · intro s a s' hs _ hnot hstep
    exact not_noStale_of_locked hs.2 hs.1 hnot (effect_of_step hstep)

/-- Two sessions of a peer, the second watched by a viewer. -/
def twoSessions : List ServerAction :=
  [.publisherConnect "mac", .publisher 0 (.item (.binary (stamp [0x40, 1]))), .publisher 0 .send,
    .publisher 0 (.item .endOfStream), .publisher 0 .cleanup, .publisherConnect "mac",
    .publisher 1 (.item (.binary (stamp [0x67, 1]))), .publisher 1 .send,
    .publisher 1 (.item (.binary (stamp [0x65, 1]))), .viewerConnect 0 "mac", .viewer 0 .subscribe,
    .viewer 0 .snapshot]

theorem noStale_twoSessions :
    (∀ u ∈ machine.visits machine.init twoSessions, u.NoStale "mac") ↔
      machine.Meets (FreshRoom "mac") machine.init twoSessions :=
  noStale_iff (machine.run_getD _ (by decide +kernel)) (by decide +kernel)

/-- A session whose room outlives it, because a viewer is watching, and the next one. -/
def watchedSession : List ServerAction :=
  [.publisherConnect "mac", .viewerConnect 0 "mac", .viewer 0 .subscribe,
    .publisher 0 (.item (.binary (stamp [0x40, 1]))), .publisher 0 .send,
    .publisher 0 (.item (.binary (stamp [0x26, 1]))), .publisher 0 .send,
    .publisher 0 (.item .close), .publisher 0 .cleanup, .publisherConnect "mac",
    .viewerConnect 1 "mac", .viewer 1 .subscribe, .viewer 1 .snapshot]

/-- A viewer that joins the next session is replayed the frames of the finished one. -/
theorem stale_replay :
    ¬ ∀ peer as t, machine.run machine.init as = some t →
      machine.Meets (NoOverlap peer) machine.init as →
      ∀ u ∈ machine.visits machine.init as, u.NoStale peer := by
  intro h
  have hrun := machine.run_getD (s := machine.init) watchedSession (by decide +kernel)
  have hstale :=
    h "mac" watchedSession _ hrun (by decide +kernel) _ (machine.mem_visits_of_run hrun)
  generalize hend : (machine.run machine.init watchedSession).getD machine.init = u at hstale
  have hviewer : (u.viewers 1).any (fun w => w.peer = "mac" ∧ w.joinedAt = 2 ∧
      ⟨0, stamp [0x26, 1]⟩ ∈ w.replay) = true := by
    rw [← hend]
    decide +kernel
  have hsession : u.sessions[1]? = some "mac" := by
    rw [← hend]
    decide +kernel
  obtain ⟨w, hw, hreplay⟩ := (Option.any_eq_true _ _).mp hviewer
  simp only [decide_eq_true_eq] at hreplay
  have hsince :=
    (hstale.replay 1 w hw hreplay.1 _ hreplay.2.2).2 1 (by rw [hreplay.2.1]; decide) hsession
  simp at hsince

end Server

end XyzenRelay.Stream
