-- SUMMARY: The channel of a Windows capture session: only its own thread sends into it, and its thread ends after its receiver is gone.
import XyzenRelay.Capture.Lifecycle

/-!
# The channel of a session

The sender slot is a global. A capture thread clones the sender anew for every frame, so
that it could send into the channel of another session. And a receiver that is gone is
only noticed by a send that fails, which sets `SHUTDOWN`.
-/

namespace XyzenRelay.Capture

/-- The action is one of the thread. -/
def Action.isOf (k : SessionId) : Action → Bool
  | .thread j _ => j = k
  | _ => false

/-- The accesses a thread that has left its session for good is from its end. -/
def stepsOut : Option ThreadPhase → Option Nat
  | some .ended => some 4
  | some .exiting => some 3
  | some .clearingSender => some 2
  | some .clearingRunning => some 1
  | none => some 0
  | _ => none

namespace Publisher

variable {s s' t : Publisher} {a : Action} {k : SessionId} {p : ThreadPhase} {m : ThreadMove}

/-! ## Whose channel it is -/

/-- No frame is being sent right after it is encoded. -/
theorem encode_ne_sending {snapshot snapshot' : CaptureSnapshot}
    {dims dims' : Option (UInt32 × UInt32)} {width height : UInt32} {configured : Bool}
    {result : Encoded} {tx : SessionId} {nals : Nat} :
    encode snapshot dims width height configured result ≠
      .session snapshot' dims' (.sending tx nals) := by
  unfold encode
  dsimp only
  split
  · split
    · cases result <;> simp
    · simp
  · split
    · simp
    · cases result <;> simp

/-- A thread comes to send by cloning the sender of the slot. -/
theorem sending_of_stepThread {snapshot : CaptureSnapshot} {dims : Option (UInt32 × UInt32)}
    {tx : SessionId} {nals : Nat} (h : s.stepThread k p m = some s')
    (hk : s'.threads k = some (.session snapshot dims (.sending tx nals))) :
    s.sender = some tx ∨
      ∃ snapshot dims nals, p = .session snapshot dims (.sending tx nals) := by
  have hphase : ∀ {new : Option ThreadPhase}, (s.setThread k new).threads k = new := by
    simp [threads_setThread]
  unfold stepThread at h
  split at h <;> first | simp only [Option.some.injEq] at h | simp at h
  all_goals subst h; rw [hphase] at hk
  · split at hk <;> simp at hk
  · split at hk <;> simp at hk
  · simp at hk
  · simp at hk
  · split at hk <;> simp at hk
  · split at hk <;> simp at hk
  · simp at hk
  · split at hk <;> simp at hk
  · exact absurd (Option.some.inj hk) encode_ne_sending
  · simp at hk
  · cases hsender : s.sender with
    | none => simp [hsender] at hk
    | some tx' =>
      simp only [hsender, Option.some.injEq, ThreadPhase.session.injEq,
        FrameStage.sending.injEq] at hk
      exact .inl (congrArg some hk.2.2.1)
  · simp at hk
  · next ok =>
    cases ok with
    | false => simp at hk
    | true =>
      simp only [if_true, Option.some.injEq, ThreadPhase.session.injEq,
        FrameStage.sending.injEq] at hk
      exact .inr ⟨_, _, _, by rw [hk.2.2.1]⟩
  · simp at hk
  · split at hk <;> simp at hk
  · simp at hk
  · simp at hk
  · simp at hk

/-- Threads go their own ways. A new one is spawned by the call that is pending. -/
theorem threads_of_step (h : machine.step s a = some s') (ha : a.isOf k = false) :
    s'.threads k = s.threads k ∨
      (s'.threads k = some .starting ∧ ∃ c, s.pendingOf c = some k) := by
  cases effect_of_step h with
  | @spawns c j hc =>
    rw [threads_setThread]
    split
    · next heq => exact .inr ⟨rfl, c, heq ▸ pendingOf_eq hc⟩
    · exact .inl rfl
  | @thread j p m _ hj hthread =>
    have hne : k ≠ j := fun heq => by simp [Action.isOf, heq] at ha
    cases hthread with
    | loop hloop _ => exact .inl (by rw [hloop.threads, Function.update_of_ne hne])
    | _ => exact .inl (Function.update_of_ne hne _ _)
  | _ => exact .inl rfl

/-- Every thread that sends sends into the channel of its session. -/
structure Own (s : Publisher) : Prop where
  inv : Inv s
  sending : ∀ k snapshot dims tx nals,
    s.threads k = some (.session snapshot dims (.sending tx nals)) → tx = k

theorem own_init : Own init where
  inv := .init
  sending := by simp [init]

/-- The slot holds no sender but the one of the session that is busy. -/
theorem Inv.sender_eq (hs : Inv s) (hk : s.Busy k) {tx : SessionId} (h : s.sender = some tx) :
    tx = k :=
  Nat.succ.inj ((hs.sender tx h).2.trans (hs.current k hk).2.symm)

theorem Own.step (hs : Own s) (h : machine.step s a = some s') : Own s' := by
  refine ⟨hs.inv.effect (effect_of_step h), fun k snapshot dims tx nals hk => ?_⟩
  cases ha : a.isOf k with
  | false =>
    rcases threads_of_step h ha with hsame | ⟨hnew, -⟩
    · exact hs.sending k snapshot dims tx nals (hsame ▸ hk)
    · simp [hnew] at hk
  | true =>
    obtain ⟨m, rfl⟩ : ∃ m, a = .thread k m := by
      cases a <;> simp_all [Action.isOf]
    simp only [machine, step] at h
    split at h
    · next p hp =>
      rcases sending_of_stepThread h hk with hsender | ⟨snapshot, dims, nals, rfl⟩
      · exact hs.inv.sender_eq (.inr (by simp [hp])) hsender
      · exact hs.sending k snapshot dims tx nals hp
    · simp at h

/-- In every reachable state the slot holds no sender but that of the latest session, and that
    only while `running` is set: it stays behind when a start fails to spawn its thread. While
    a session is busy the slot holds no sender but its own, and no thread sends into the
    channel of another session. So whoever reads a channel gets frames of one session only. -/
theorem own_channel (h : machine.Reachable s) (k : SessionId) :
    (∀ tx, s.sender = some tx → s.state.running = true ∧ tx + 1 = s.sessions) ∧
    (∀ tx, s.Busy k → s.sender = some tx → tx = k) ∧
      ∀ snapshot dims tx nals,
        s.threads k = some (.session snapshot dims (.sending tx nals)) → tx = k := by
  have hs : Own s := Machine.Preserves.reachable machine (fun _ _ _ hs h => hs.step h) own_init h
  exact ⟨hs.inv.sender, fun tx hk hsender => hs.inv.sender_eq hk hsender, hs.sending k⟩

/-- A session that has cloned its sender for its first frame. -/
def firstSend : List Action :=
  firstFrame ++ [.thread 0 (.encode 1920 1080 true (.nals 2)), .thread 0 .cloneSender]

theorem own_channel_firstSend :
    (∀ tx, ((machine.run machine.init firstSend).getD machine.init).sender = some tx →
      ((machine.run machine.init firstSend).getD machine.init).state.running = true ∧
        tx + 1 = ((machine.run machine.init firstSend).getD machine.init).sessions) ∧
    (∀ tx, ((machine.run machine.init firstSend).getD machine.init).Busy 0 →
      ((machine.run machine.init firstSend).getD machine.init).sender = some tx → tx = 0) ∧
      ∀ snapshot dims tx nals,
        ((machine.run machine.init firstSend).getD machine.init).threads 0 =
          some (.session snapshot dims (.sending tx nals)) → tx = 0 :=
  own_channel (machine.reachable_getD firstSend) 0

/-! ## After the receiver is gone -/

/-- The session has hung up, and its thread has some of its last four steps left. -/
structure Leaving (k : SessionId) (as : List Action) (s : Publisher) : Prop where
  stopped : Stopped k s
  left : ∃ n, stepsOut (s.threads k) = some n ∧ as.countP (Action.isOf k) + n = 4

/-- Every step of the thread brings it closer to its end. -/
theorem stepsOut_step {n : Nat} (hs : Stopped k s) (hn : stepsOut (s.threads k) = some n)
    (h : machine.step s (.thread k m) = some s') :
    ∃ n', stepsOut (s'.threads k) = some n' ∧ n' + 1 = n := by
  simp only [machine, step] at h
  cases hk : s.threads k with
  | none => simp [hk] at h
  | some p =>
    simp only [hk] at h hn
    cases p with
    | ended =>
      have hdown : s.shutdown = true := hs.told .ended hk rfl
      cases m <;> simp only [stepThread, hdown, Option.some.injEq, reduceCtorEq] at h
      subst h
      exact ⟨3, by simp [setThread, stepsOut], Option.some.inj hn⟩
    | exiting =>
      cases m <;> simp only [stepThread, Option.some.injEq, reduceCtorEq] at h
      subst h
      exact ⟨2, by simp [setThread, stepsOut], Option.some.inj hn⟩
    | clearingSender =>
      cases m <;> simp only [stepThread, Option.some.injEq, reduceCtorEq] at h
      subst h
      exact ⟨1, by simp [setThread, stepsOut], Option.some.inj hn⟩
    | clearingRunning =>
      cases m <;> simp only [stepThread, Option.some.injEq, reduceCtorEq] at h
      subst h
      exact ⟨0, by simp [setThread, stepsOut], Option.some.inj hn⟩
    | _ => simp [stepsOut] at hn

theorem Leaving.step {as : List Action} (hs : Leaving k as s) (h : machine.step s a = some s') :
    Leaving k (as ++ [a]) s' := by
  obtain ⟨n, hn, hcount⟩ := hs.left
  refine ⟨hs.stopped.effect (effect_of_step h), ?_⟩
  rw [List.countP_append]
  cases ha : a.isOf k with
  | false =>
    rcases threads_of_step h ha with hsame | ⟨-, c, hc⟩
    · exact ⟨n, hsame ▸ hn, by simp [ha, hcount]⟩
    · exact absurd hc (hs.stopped.spawned c)
  | true =>
    obtain ⟨m, rfl⟩ : ∃ m, a = .thread k m := by
      cases a <;> simp_all [Action.isOf]
    obtain ⟨n', hn', rfl⟩ := stepsOut_step hs.stopped hn h
    exact ⟨n', hn', by simp [Action.isOf]; omega⟩

/-- A failed send ends the session and sets `SHUTDOWN`. -/
theorem stepThread_storeShutdown (h : s.stepThread k p .storeShutdown = some s') :
    s' = { s.setThread k (some .ended) with shutdown := true } := by
  unfold stepThread at h
  split at h <;> simp_all

/-- When a send has failed because the receiver is gone, the thread of the session takes its
    last four steps, whatever is called in between: it handles no frame, opens no session
    and is not there any more afterwards. -/
theorem hangup_ends {as : List Action} (h : machine.Reachable s)
    (hstep : machine.step s (.thread k .storeShutdown) = some s')
    (hrun : machine.run s' as = some t) :
    ∃ n, stepsOut (t.threads k) = some n ∧ as.countP (Action.isOf k) + n = 4 := by
  have hinv := inv_reachable h
  have hleaving : Leaving k [] s' := by
    have hinv' := hinv.effect (effect_of_step hstep)
    simp only [machine, step] at hstep
    split at hstep
    · next p hk =>
      have hcurrent := hinv.current k (.inr (by simp [hk]))
      obtain rfl := stepThread_storeShutdown hstep
      refine ⟨⟨hinv', hcurrent.2 ▸ Nat.lt_succ_self k, fun c hc => ?_, fun _ _ _ => rfl⟩, 4, ?_, rfl⟩
      · rw [hinv.exclusive c k hc] at hk
        simp at hk
      · simp [setThread, stepsOut]
    · simp at hstep
  exact (machine.invariant_run (I := Leaving k) hleaving
    (fun _ _ _ _ _ hs hstep => hs.step hstep) hrun).left

/-- Its first send finds the receiver gone. -/
def hungUp : List Action := firstSend ++ [.thread 0 (.send false)]

theorem hangup_ends_hungUp :
    ∃ n, stepsOut (((machine.run machine.init (hungUp ++ [.thread 0 .storeShutdown, .setFps 60,
        .thread 0 .loadShutdown])).getD machine.init).threads 0) = some n ∧
      ([.setFps 60, .thread 0 .loadShutdown] : List Action).countP (Action.isOf 0) + n = 4 :=
  hangup_ends (machine.reachable_of_run (machine.run_getD hungUp (by decide +kernel))) rfl rfl

end Publisher

end XyzenRelay.Capture
