-- SUMMARY: What a joining viewer is sent: each picture once and in order when the snapshot is fresh, nothing it needs is missed, and keyframes come after their parameter sets.
import XyzenRelay.Stream.Join

/-!
# Delivery to a joining viewer

The viewer is sent the replay and then the live frames. Both are cut out of the
one numbered history of the publisher: the replay out of the part recorded
before the snapshot, the live frames out of the part sent after the subscribe.
The two parts overlap, which is what the results below turn on.
-/

namespace XyzenRelay.Stream

open WarmupWindow (IsDelta)

namespace Join

/-- The viewer has taken its snapshot. -/
def tookSnapshot (s : Join) : Bool :=
  match s.phase with
  | .joined | .subscribed => false
  | .replaying _ | .live => true

/-- The live frames: the ones the viewer has received and the ones queued for it. -/
def live (s : Join) : List Published := s.out.drop s.replay.length ++ s.backlog

/-- The frames that are no parameter sets. -/
def pictures (s : Join) (fs : List Published) : List Published :=
  fs.filter fun f => !(kind s.codec f).isParamSet

/-- The window the snapshot was taken from. -/
def snapshotWindow (s : Join) : WarmupWindow Published :=
  WarmupWindow.default.recordAll (s.recorded.take s.snapshotAt)

/-! ## The two parts of the history -/

section Parts

variable {s : Join}

theorem Inv.sent_prefix (hs : Inv s) : s.sent <+: s.recorded :=
  ⟨s.pending.toList, hs.pending.symm⟩

theorem Inv.sent_numbered (hs : Inv s) : Numbered Published.index s.sent := by
  have h := hs.numbered
  rw [hs.pending] at h
  exact h.of_append

theorem Inv.sentAfterSubscribe_sublist (hs : Inv s) : s.sentAfterSubscribe.Sublist s.recorded :=
  (List.drop_sublist _ _).trans hs.sent_prefix.sublist

theorem Inv.snapshotted (hs : Inv s) (h : s.tookSnapshot = true) : s.Snapshotted := by
  have hshape := hs.shape
  unfold Shape at hshape
  unfold tookSnapshot at h
  split at hshape <;> simp_all

/-- Before the snapshot nothing is replayed. -/
theorem Inv.replay_nil (hs : Inv s) (h : s.tookSnapshot = false) : s.replay = [] := by
  have hshape := hs.shape
  unfold Shape at hshape
  unfold tookSnapshot at h
  split at hshape <;> simp_all

/-- Without a lag the viewer has a prefix of the replay followed by what was sent
    after it subscribed. -/
theorem Inv.out_prefix (hs : Inv s) (hlag : s.lagged = false) :
    s.out <+: s.replay ++ s.sentAfterSubscribe := by
  have hshape := hs.shape
  unfold Shape at hshape
  split at hshape
  · rw [hshape.1]
    exact List.nil_prefix
  · rw [hshape.1]
    exact List.nil_prefix
  · next rest _ =>
    exact ⟨rest ++ s.sentAfterSubscribe, by rw [← List.append_assoc, hshape.2.1]⟩
  · obtain ⟨-, delivered, hout, hlive⟩ := hshape
    exact ⟨s.backlog, by rw [hout, List.append_assoc, hlive hlag]⟩

/-- Without a lag the live frames are what was sent after the subscribe. -/
theorem Inv.live_eq (hs : Inv s) (h : s.tookSnapshot = true) (hlag : s.lagged = false) :
    s.live = s.sentAfterSubscribe := by
  have hshape := hs.shape
  unfold Shape at hshape
  unfold tookSnapshot at h
  unfold live
  split at hshape
  · simp_all
  · simp_all
  · next rest _ =>
    obtain ⟨-, hout, -, hback⟩ := hshape
    have hlen : s.out.length ≤ s.replay.length := by
      rw [← hout, List.length_append]
      exact Nat.le_add_right _ _
    rw [List.drop_of_length_le hlen, List.nil_append, hback]
  · obtain ⟨-, delivered, hout, hlive⟩ := hshape
    rw [hout, List.drop_left, hlive hlag]

/-- The replay of a viewer is empty, or a burst of the history before the
    snapshot, in the codec the room has kept since. -/
theorem Inv.replay_cases (hs : Inv s) :
    s.replay = [] ∨
      (s.Snapshotted ∧ ∃ c ps k post, s.codec = some c ∧ s.replay = ps ++ k :: deltas c post ∧
        Replay (s.recorded.take s.snapshotAt) s.snapshotWindow c ps k post) := by
  cases htook : s.tookSnapshot with
  | false => exact .inl (hs.replay_nil htook)
  | true =>
    have hsnap := hs.snapshotted htook
    rcases Stream.replay_cases (s.recorded.take s.snapshotAt)
      with ⟨hnil, -, -⟩ | ⟨c, ps, k, post, h⟩
    · exact .inl (hsnap.replay.trans hnil)
    · refine .inr ⟨hsnap, c, ps, k, post, ?_, hsnap.replay.trans h.snapshot, h⟩
      have hbefore : codecOf (s.recorded.take s.snapshotAt) = some c := by
        rw [← recordAll_codec]
        exact h.codec
      have hnow := codecOf_append hbefore (s.recorded.drop s.snapshotAt)
      rw [List.take_append_drop] at hnow
      rw [codec, hs.window, recordAll_codec, hnow]

end Parts

/-! ## Each picture once, and in order -/

/-- The pictures among the frames the viewer was sent are in publish order, without
    repetition. -/
def OrderedOnce (s : Join) : Prop := (s.pictures s.out).Pairwise fun f g => f.index < g.index

instance (s : Join) : Decidable s.OrderedOnce :=
  inferInstanceAs (Decidable (List.Pairwise _ _))

/-- The snapshot is taken while every picture in the window had already been
    broadcast when the viewer subscribed. -/
def FreshSnapshot (s : Join) : JoinAction → Prop
  | .snapshot =>
    ∀ f ∈ s.room.warmup.keyframe ++ s.room.warmup.sinceKeyframe, f.index < s.subscribedAt
  | _ => True

instance (s : Join) : ∀ a, Decidable (s.FreshSnapshot a)
  | .snapshot => inferInstanceAs (Decidable (∀ f ∈ _, _))
  | .record _ | .send | .subscribe | .replayNext | .recv => .isTrue trivial

/-- What a fresh snapshot leaves behind. -/
def Fresh (s : Join) : Prop :=
  ∀ f ∈ s.snapshotWindow.keyframe ++ s.snapshotWindow.sinceKeyframe, f.index < s.subscribedAt

/-- Only the snapshot step moves the snapshot, and the history only grows. -/
theorem step_frame {s s' : Join} {a : JoinAction} (hs : Inv s) (ha : a ≠ .snapshot)
    (h : step s a = some s') :
    s.recorded <+: s'.recorded ∧ s'.snapshotAt = s.snapshotAt ∧
      s.subscribedAt ≤ s'.subscribedAt := by
  cases effect_of_step h with
  | record => exact ⟨List.prefix_append _ _, rfl, Nat.le_refl _⟩
  | subscribe => exact ⟨List.prefix_refl _, rfl, hs.subscribedLe⟩
  | snapshot => exact absurd rfl ha
  | send | replayWrites | replayEnds | receives | lags =>
    exact ⟨List.prefix_refl _, rfl, Nat.le_refl _⟩

theorem fresh_step {s s' : Join} {a : JoinAction} (hs : Inv s) (hfresh : Fresh s)
    (hcond : FreshSnapshot s a) (h : step s a = some s') : Fresh s' := by
  by_cases ha : a = .snapshot
  · subst ha
    cases effect_of_step h with
    | snapshot =>
      unfold Fresh snapshotWindow
      simp only [List.take_length]
      rw [← hs.window]
      exact hcond
  · obtain ⟨⟨fs, hrec⟩, hat, hsub⟩ := step_frame hs ha h
    unfold Fresh snapshotWindow
    rw [← hrec, hat, List.take_append_of_le_length hs.snapshotLe]
    intro f hf
    exact Nat.lt_of_lt_of_le (hfresh f hf) hsub

/-- With a fresh snapshot the pictures of the replay come before every live one. -/
theorem orderedOnce_of_inv {s : Join} (hs : Inv s) (hfresh : Fresh s) (hlag : s.lagged = false) :
    s.OrderedOnce := by
  have hsorted := hs.numbered.pairwise
  have hlive : (s.pictures s.sentAfterSubscribe).Pairwise fun f g => f.index < g.index :=
    hsorted.sublist (List.filter_sublist.trans hs.sentAfterSubscribe_sublist)
  have hout : (s.pictures s.out).Sublist (s.pictures (s.replay ++ s.sentAfterSubscribe)) :=
    (hs.out_prefix hlag).sublist.filter _
  refine List.Pairwise.sublist hout ?_
  rcases hs.replay_cases with hnil | ⟨-, c, ps, k, post, hc, hreplay, h⟩
  · rwa [hnil, List.nil_append]
  · -- the pictures of the replay are the keyframe and the deltas after it
    have hps : s.pictures ps = [] := by
      rw [pictures, List.filter_eq_nil_iff]
      intro p hp
      obtain ⟨-, t, ht⟩ := h.params p hp
      simp [hc, ht]
    have hpictures : (s.pictures s.replay).Sublist (k :: deltas c post) := by
      unfold pictures at hps ⊢
      rw [hreplay, List.filter_append, hps, List.nil_append]
      exact List.filter_sublist
    have hburst : (k :: deltas c post).Sublist s.recorded := by
      obtain ⟨pre, hpre⟩ := h.split
      have htail : (k :: deltas c post).Sublist (s.recorded.take s.snapshotAt) := by
        rw [hpre]
        exact (List.filter_sublist.cons_cons k).trans (List.sublist_append_right _ _)
      exact htail.trans (List.take_sublist _ _)
    rw [pictures, List.filter_append]
    refine List.pairwise_append.mpr ⟨hsorted.sublist (hpictures.trans hburst), hlive, ?_⟩
    intro f hf g hg
    have hslots : f.index < s.subscribedAt := by
      apply hfresh f
      rw [h.slots.1, h.slots.2]
      exact hpictures.subset hf
    have hafter : g ∈ s.sent.drop s.subscribedAt := List.mem_of_mem_filter hg
    have := (hs.sent_numbered.mem_drop_iff (List.mem_of_mem_drop hafter)).mp hafter
    omega

/-- In every run whose snapshot is fresh, a viewer that does not lag is sent every
    picture at most once and in publish order. -/
theorem orderedOnce_of_fresh {as : List JoinAction}
    (h : machine.Meets FreshSnapshot machine.init as) :
    ∀ s ∈ machine.visits machine.init as, s.lagged = false → s.OrderedOnce := by
  intro s hmem hlag
  have hkeep : ∀ s a s', Inv s ∧ Fresh s → FreshSnapshot s a → machine.step s a = some s' →
      Inv s' ∧ Fresh s' :=
    fun s a s' hs hcond hstep =>
      ⟨inv_preserved s a s' hs.1 hstep, fresh_step hs.1 hs.2 hcond hstep⟩
  have hinit : Inv machine.init ∧ Fresh machine.init := by
    refine ⟨inv_init, fun f hf => ?_⟩
    simp [machine, init, snapshotWindow, WarmupWindow.default] at hf
  obtain ⟨hs, hfresh⟩ := Machine.Meets.visits machine hkeep hinit h s hmem
  exact orderedOnce_of_inv hs hfresh hlag

/-- A viewer that joins between two frames of a running publisher. -/
def freshRun : List JoinAction :=
  [.record (stamp [0x40, 1]), .send, .record (stamp [0x26, 1]), .send, .subscribe, .snapshot,
    .record (stamp [0x02, 1]), .send, .replayNext, .replayNext, .replayNext, .recv]

theorem orderedOnce_freshRun :
    machine.Meets FreshSnapshot machine.init freshRun ∧
      ∀ s ∈ machine.visits machine.init freshRun, s.lagged = false → s.OrderedOnce :=
  ⟨by decide +kernel, orderedOnce_of_fresh (by decide +kernel)⟩

/-- A keyframe recorded between the subscribe and the snapshot is replayed, and
    its broadcast delivers it again. -/
theorem keyframe_delivered_twice :
    ¬ ∀ s, machine.Reachable s → s.lagged = false → s.OrderedOnce := by
  intro h
  obtain ⟨s, hs, hlag, hnot⟩ :=
    machine.exists_reachable_of_run
      [.record (stamp [0x40, 1]), .send, .subscribe, .record (stamp [0x26, 1]), .snapshot,
        .send, .replayNext, .replayNext, .replayNext, .recv]
      (p := fun s => s.lagged = false ∧ ¬ s.OrderedOnce)
      (by decide +kernel)
  exact hnot (h s hs hlag)

/-! ## Nothing the viewer needs is missed -/

/-- From the keyframe of the replay on, every picture that was sent is replayed or
    delivered live. -/
theorem replayed_or_live {s : Join} (hs : Inv s) {c : Codec} {ps : List Published} {k : Published}
    {post : List Published} (hsnap : s.Snapshotted)
    (hreplay : s.replay = ps ++ k :: deltas c post)
    (h : Replay (s.recorded.take s.snapshotAt) s.snapshotWindow c ps k post) {f : Published}
    (hf : f ∈ s.sent) (hpicture : (kind (some c) f).isParamSet = false) (hle : k.index ≤ f.index) :
    f ∈ s.replay ∨ f ∈ s.sentAfterSubscribe := by
  have hrecorded : f ∈ s.recorded := hs.sent_prefix.subset hf
  rcases Nat.lt_or_ge f.index s.snapshotAt with hbefore | hafter
  · -- recorded before the snapshot: the keyframe itself or one of the deltas after it
    left
    have hmem : f ∈ s.recorded.take s.snapshotAt := (hs.numbered.mem_take_iff hrecorded).mpr hbefore
    obtain ⟨pre, hpre⟩ := h.split
    have hnumbered : Numbered Published.index (pre ++ k :: post) := by
      rw [← hpre]
      have hall := hs.numbered
      rw [← List.take_append_drop s.snapshotAt s.recorded] at hall
      exact hall.of_append
    rw [hpre] at hmem
    rw [hreplay]
    apply List.mem_append_right
    rcases Nat.eq_or_lt_of_le hle with heq | hlt
    · rw [hnumbered.index_inj hmem (by simp) heq.symm]
      exact List.mem_cons_self
    · have hpost : f ∈ post := hnumbered.mem_of_lt hmem hlt
      have hdelta : IsDelta (kind (some c) f) := by
        rcases WarmupWindow.kind_cases (some c) f with ⟨d, t, hkind⟩ | hkind | hkind
        · simp [hkind] at hpicture
        · exact absurd hkind (h.noKey f hpost)
        · exact hkind
      exact List.mem_cons_of_mem _ (List.mem_filter.mpr ⟨hpost, by simpa using hdelta⟩)
  · right
    exact (hs.sent_numbered.mem_drop_iff hf).mpr (Nat.le_trans hsnap.order hafter)

/-- A replay holds one keyframe, right behind its parameter sets. -/
theorem replay_split {H : List Published} {w : WarmupWindow Published} {c : Codec}
    {ps : List Published} {k : Published} {post : List Published} (h : Replay H w c ps k post)
    {xs zs : List Published} {f : Published} (heq : ps ++ k :: deltas c post = xs ++ f :: zs)
    (hkey : kind (some c) f = .keyframe) : xs = ps ∧ f = k := by
  have hps : f ∉ ps := by
    intro hf
    obtain ⟨-, t, ht⟩ := h.params f hf
    simp [ht] at hkey
  have hdeltas : f ∉ deltas c post :=
    fun hf => absurd hkey (h.noKey f (List.mem_of_mem_filter hf))
  rcases List.append_eq_append_iff.mp heq with ⟨as, hxs, hrest⟩ | ⟨bs, hbs, hrest⟩
  · cases as with
    | nil => exact ⟨by simpa using hxs, by simpa using (List.cons.inj hrest).1.symm⟩
    | cons a as =>
      rw [List.cons_append, List.cons.injEq] at hrest
      exact absurd (show f ∈ deltas c post by simp [hrest.2]) hdeltas
  · cases bs with
    | nil => exact ⟨by simpa using hbs.symm, (List.cons.inj hrest).1⟩
    | cons b bs =>
      rw [List.cons_append, List.cons.injEq] at hrest
      exact absurd (show f ∈ ps by simp [hbs, hrest.1]) hps

section CatchUp

variable {s : Join}

/-- The replay loop writes what is left of the replay and leaves. -/
theorem run_replay {rest : List Published} (hphase : s.phase = .replaying rest) :
    machine.run s (List.replicate (rest.length + 1) .replayNext) =
      some { s with out := s.out ++ rest, phase := .live } := by
  induction rest generalizing s with
  | nil => simp [Machine.run, machine, step, hphase]
  | cons f rest ih =>
    have hstep : machine.step s .replayNext =
        some { s with out := s.out ++ [f], phase := .replaying rest } := by
      simp [machine, step, hphase]
    rw [List.length_cons, List.replicate_succ, Machine.run, hstep, Option.bind_some, ih rfl]
    simp

/-- A viewer that is not behind reads its whole backlog. -/
theorem run_recv (hphase : s.phase = .live) (hnot : ¬ s.room.tx.Lagging viewer) :
    ∃ room, machine.run s (List.replicate s.backlog.length .recv) =
      some { s with room := room, out := s.out ++ s.backlog } := by
  generalize hb : s.backlog = b
  induction b generalizing s with
  | nil => exact ⟨s.room, by simp⟩
  | cons f fs ih =>
    obtain ⟨hval, -, hrest⟩ := Broadcast.recv_of_backlog hnot hb
    have hstep : machine.step s .recv =
        some { s with room := (s.room.recv viewer).2, out := s.out ++ [f] } := by
      simp [machine, step, hphase, RoomState.recv, hval]
    have hcapacity : (s.room.tx.recv viewer).2.capacity = s.room.tx.capacity :=
      Broadcast.capacity_recv _ _
    obtain ⟨room, hrun⟩ := ih
      (s := { s with room := (s.room.recv viewer).2, out := s.out ++ [f] }) hphase
      (by
        unfold Broadcast.Lagging at hnot ⊢
        show ¬ (s.room.tx.recv viewer).2.capacity <
          ((s.room.tx.recv viewer).2.backlog viewer).length
        rw [hcapacity, hrest]
        have hlen := congrArg List.length hb
        simp only [backlog, List.length_cons] at hlen
        omega)
      hrest
    refine ⟨room, ?_⟩
    rw [List.length_cons, List.replicate_succ, Machine.run, hstep, Option.bind_some, hrun]
    simp

/-- Left alone, a viewer that is not behind writes the replay and then every live
    frame. -/
theorem exists_catchUp (hs : Inv s) (htook : s.tookSnapshot = true) (hlag : s.lagged = false)
    (hnot : ¬ s.room.tx.Lagging viewer) :
    ∃ as t, (∀ a ∈ as, a = .replayNext ∨ a = .recv) ∧ machine.run s as = some t ∧
      t.lagged = false ∧ t.sent = s.sent ∧ t.out = s.replay ++ s.live := by
  have hlive := hs.live_eq htook hlag
  have hshape := hs.shape
  unfold Shape at hshape
  unfold tookSnapshot at htook
  cases hphase : s.phase with
  | joined => simp [hphase] at htook
  | subscribed => simp [hphase] at htook
  | replaying rest =>
    simp only [hphase] at hshape
    obtain ⟨-, hout, -, hback⟩ := hshape
    obtain ⟨room, hrun⟩ :=
      run_recv (s := { s with out := s.out ++ rest, phase := .live }) rfl hnot
    refine ⟨_, _, ?_, machine.run_append.mpr ⟨_, run_replay hphase, hrun⟩, hlag, rfl, ?_⟩
    · intro a ha
      rcases List.mem_append.mp ha with ha | ha
      · exact .inl (List.eq_of_mem_replicate ha)
      · exact .inr (List.eq_of_mem_replicate ha)
    · show s.out ++ rest ++ s.backlog = _
      rw [hout, hlive, hback]
  | live =>
    simp only [hphase] at hshape
    obtain ⟨-, delivered, hout, hall⟩ := hshape
    obtain ⟨room, hrun⟩ := run_recv hphase hnot
    refine ⟨_, _, fun a ha => .inr (List.eq_of_mem_replicate ha), hrun, hlag, rfl, ?_⟩
    show s.out ++ s.backlog = _
    rw [hout, List.append_assoc, hall hlag, hlive]

end CatchUp

/-- A joining viewer gets everything it needs, from the cache or live. -/
structure NothingMissed (s : Join) : Prop where
  /-- What is recorded after the snapshot is delivered live, in publish order. -/
  afterSnapshot :
    s.live.filter (fun f => s.snapshotAt ≤ f.index) = s.sent.filter fun f => s.snapshotAt ≤ f.index
  /-- A replay has one keyframe, and from it on every picture is replayed or live. -/
  fromKeyframe : s.replay ≠ [] → ∃ k ∈ s.replay, kind s.codec k = .keyframe ∧
    (∀ k' ∈ s.replay, kind s.codec k' = .keyframe → k' = k) ∧
    ∀ f ∈ s.sent, (kind s.codec f).isParamSet = false → k.index ≤ f.index →
      f ∈ s.replay ∨ f ∈ s.live
  /-- Without a replay everything sent after the subscribe is delivered live. -/
  noReplay : s.replay = [] → s.live = s.sent.drop s.subscribedAt
  /-- The live frames still queued are delivered if nothing else happens. -/
  catchUp : ¬ s.room.tx.Lagging viewer →
    ∃ as t, (∀ a ∈ as, a = .replayNext ∨ a = .recv) ∧ machine.run s as = some t ∧
      t.lagged = false ∧ t.sent = s.sent ∧ t.out = s.replay ++ s.live

/-- Whatever the interleaving, a viewer that does not lag misses nothing. -/
theorem nothingMissed {s : Join} (hreach : machine.Reachable s) (htook : s.tookSnapshot = true)
    (hlag : s.lagged = false) : s.NothingMissed := by
  have hs := inv_reachable hreach
  have hlive := hs.live_eq htook hlag
  constructor
  case afterSnapshot =>
    -- what was sent before the subscribe was recorded before the snapshot
    rw [hlive]
    exact hs.sent_numbered.filter_drop (hs.snapshotted htook).order
  case fromKeyframe =>
    intro hne
    rcases hs.replay_cases with hnil | ⟨hsnap, c, ps, k, post, hc, hreplay, h⟩
    · exact absurd hnil hne
    · rw [hc, hlive]
      refine ⟨k, by simp [hreplay], h.key, fun k' hk' hkey => ?_, fun f hf hpicture hle => ?_⟩
      · obtain ⟨xs, zs, hsplit⟩ := List.append_of_mem hk'
        exact (replay_split h (hreplay.symm.trans hsplit) hkey).2
      · exact replayed_or_live hs hsnap hreplay h hf hpicture hle
  case noReplay => exact fun _ => hlive
  case catchUp => exact exists_catchUp hs htook hlag

/-- Where `freshRun` ends. -/
def freshEnd : Join := (machine.run machine.init freshRun).getD machine.init

theorem nothingMissed_freshEnd :
    freshEnd.tookSnapshot = true ∧ freshEnd.lagged = false ∧ freshEnd.NothingMissed :=
  ⟨by decide +kernel, by decide +kernel,
    nothingMissed (machine.reachable_getD freshRun) (by decide +kernel) (by decide +kernel)⟩

/-! ## No keyframe without its decoder configuration -/

/-- A frame of a prefix of the replay and the live frames stands in one of the two. -/
theorem prefix_split {α : Type} {replay live xs ys : List α} {k : α}
    (h : xs ++ k :: ys <+: replay ++ live) :
    (∃ zs, replay = xs ++ k :: zs) ∨ ∃ xs' zs, xs = replay ++ xs' ∧ live = xs' ++ k :: zs := by
  obtain ⟨zs, hzs⟩ := h
  rw [List.append_assoc, List.append_eq_append_iff] at hzs
  rcases hzs with ⟨as, has, hlive⟩ | ⟨bs, hbs, hrest⟩
  · cases as with
    | nil =>
      right
      exact ⟨[], ys ++ zs, by simpa using has.symm, by simpa using hlive.symm⟩
    | cons a as =>
      left
      rw [List.cons_append, List.cons_append, List.cons.injEq] at hlive
      exact ⟨as, by rw [has, hlive.1]⟩
  · right
    exact ⟨bs, ys ++ zs, hbs, by simpa using hrest⟩

/-- A frame recorded before a live one, and not sent before the subscribe, comes
    before it live. -/
theorem Inv.mem_live_before {s : Join} (hs : Inv s) {p k : Published} {xs zs : List Published}
    (hp : p ∈ s.recorded) (hle : s.subscribedAt ≤ p.index) (hlt : p.index < k.index)
    (hlive : s.sentAfterSubscribe = xs ++ k :: zs) : p ∈ xs := by
  have hksent : k ∈ s.sent := List.mem_of_mem_drop (show k ∈ s.sentAfterSubscribe by simp [hlive])
  have hpsent : p ∈ s.sent := by
    have hlength := hs.sent_numbered.index_lt hksent
    have hget := hs.numbered.getElem?_index hp
    rw [hs.pending, List.getElem?_append_left (by omega)] at hget
    exact List.mem_of_getElem? hget
  have hpafter : p ∈ xs ++ k :: zs := by
    rw [← hlive]
    exact (hs.sent_numbered.mem_drop_iff hpsent).mpr hle
  have hsorted : (xs ++ k :: zs).Pairwise fun f g => f.index < g.index := by
    rw [← hlive]
    exact hs.numbered.pairwise.sublist hs.sentAfterSubscribe_sublist
  have hfrom := List.pairwise_cons.mp (List.pairwise_append.mp hsorted).2.1
  rcases List.mem_append.mp hpafter with hmem | hmem
  · exact hmem
  · rcases List.mem_cons.mp hmem with rfl | hmem
    · exact absurd hlt (Nat.lt_irrefl _)
    · exact absurd hlt (Nat.lt_asymm (hfrom.1 p hmem))

/-- Every keyframe a viewer is sent comes after a parameter set of every type that
    was recorded before it, if the viewer got a replay or subscribed before a
    parameter set of that type was sent. -/
theorem paramSet_before_keyframe {s : Join} (hreach : machine.Reachable s) (hlag : s.lagged = false)
    {c : Codec} {t : UInt8} {p k : Published} {xs ys : List Published} (hc : s.codec = some c)
    (hp : p ∈ s.recorded) (hparam : kind s.codec p = .paramSet c t)
    (hk : kind s.codec k = .keyframe) (hlt : p.index < k.index)
    (hjoin : s.replay ≠ [] ∨ s.subscribedAt ≤ p.index) (hout : s.out = xs ++ k :: ys) :
    ∃ q ∈ xs, kind s.codec q = .paramSet c t := by
  have hs := inv_reachable hreach
  have hprefix := hs.out_prefix hlag
  rw [hout] at hprefix
  rcases hs.replay_cases with hnil | ⟨hsnap, d, ps, k₀, post, hd, hreplay, h⟩
  · -- without a replay both come live
    have hle : s.subscribedAt ≤ p.index := hjoin.resolve_left (fun hne => hne hnil)
    rcases prefix_split hprefix with ⟨zs, hzs⟩ | ⟨xs', zs, hxs, hlive⟩
    · simp [hnil] at hzs
    · refine ⟨p, ?_, hparam⟩
      rw [hxs]
      exact List.mem_append_right _ (hs.mem_live_before hp hle hlt hlive)
  · obtain rfl : d = c := Option.some.inj (hd.symm.trans hc)
    rw [hc] at hparam hk ⊢
    -- a parameter set recorded before the snapshot has its type in the replay
    have hseen : p.index < s.snapshotAt → ∃ q ∈ ps, kind (some d) q = .paramSet d t :=
      fun hbefore => h.seen p ((hs.numbered.mem_take_iff hp).mpr hbefore) t hparam
    rcases prefix_split hprefix with ⟨zs, hzs⟩ | ⟨xs', zs, hxs, hlive⟩
    · obtain ⟨rfl, rfl⟩ := replay_split h (hreplay.symm.trans hzs) hk
      apply hseen
      obtain ⟨pre, hpre⟩ := h.split
      have hmem : k ∈ s.recorded.take s.snapshotAt := by simp [hpre]
      have := (hs.numbered.mem_take_iff (List.mem_of_mem_take hmem)).mp hmem
      omega
    · rcases Nat.lt_or_ge p.index s.snapshotAt with hbefore | hafter
      · obtain ⟨q, hq, hqt⟩ := hseen hbefore
        exact ⟨q, by rw [hxs, hreplay]; simp [hq], hqt⟩
      · refine ⟨p, ?_, by rw [hparam]⟩
        rw [hxs]
        have hle : s.subscribedAt ≤ p.index := Nat.le_trans hsnap.order hafter
        exact List.mem_append_right _ (hs.mem_live_before hp hle hlt hlive)

theorem paramSet_before_keyframe_freshEnd :
    ∃ q ∈ [(⟨0, stamp [0x40, 1]⟩ : Published)], kind freshEnd.codec q = .paramSet .hevc 32 :=
  paramSet_before_keyframe (machine.reachable_getD freshRun) (s := freshEnd) (by decide +kernel)
    (c := .hevc) (p := ⟨0, stamp [0x40, 1]⟩) (k := ⟨1, stamp [0x26, 1]⟩)
    (by decide +kernel) (by decide +kernel) (by decide +kernel) (by decide +kernel) (by decide)
    (by decide +kernel)
    (by decide +kernel : freshEnd.out =
      [⟨0, stamp [0x40, 1]⟩] ++ ⟨1, stamp [0x26, 1]⟩ :: [⟨2, stamp [0x02, 1]⟩])

/-- A viewer that subscribes after the parameter sets were sent, and finds no
    keyframe in the window, is sent a keyframe it cannot decode. -/
theorem keyframe_without_paramSet :
    ¬ ∀ s, machine.Reachable s → s.lagged = false → ∀ c t p k xs ys, s.codec = some c →
      p ∈ s.recorded → kind s.codec p = .paramSet c t → kind s.codec k = .keyframe →
      p.index < k.index → s.out = xs ++ k :: ys → ∃ q ∈ xs, kind s.codec q = .paramSet c t := by
  intro h
  obtain ⟨s, hs, hlag, hc, hp, hparam, hk, hout⟩ :=
    machine.exists_reachable_of_run
      [.record (stamp [0x40, 1]), .send, .subscribe, .snapshot, .replayNext,
        .record (stamp [0x26, 1]), .send, .recv]
      (p := fun s => s.lagged = false ∧ s.codec = some .hevc ∧ ⟨0, stamp [0x40, 1]⟩ ∈ s.recorded ∧
        kind s.codec (⟨0, stamp [0x40, 1]⟩ : Published) = .paramSet .hevc 32 ∧
        kind s.codec (⟨1, stamp [0x26, 1]⟩ : Published) = .keyframe ∧
        s.out = [⟨1, stamp [0x26, 1]⟩])
      (by decide +kernel)
  obtain ⟨q, hq, -⟩ := h s hs hlag _ _ _ _ [] [] hc hp hparam hk (by decide) hout
  simp at hq

end Join

end XyzenRelay.Stream
