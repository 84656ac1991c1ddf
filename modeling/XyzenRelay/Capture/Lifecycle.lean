-- SUMMARY: The lifecycle of the Windows publisher: one capture thread at a time, exits that touch no later session, and stops that are not lost.
import XyzenRelay.Capture.Publisher

/-!
# Lifecycle

`running` is set in the section of `start` and reset by the last access of a capture
thread. In between there is one owner: the call of `start` until it has spawned the
thread, and the thread from then on.
-/

namespace XyzenRelay.Capture

/-- The session of a start that has not spawned its thread yet. -/
def StartPhase.pending : StartPhase → Option SessionId
  | .resetting k | .installing k | .spawning k => some k
  | .returned _ => none

/-- The caller of an access that `start` makes. -/
def Action.caller : Action → Option Nat
  | .start c _ _ | .resetShutdown c | .installSender c _ | .spawn c _ => some c
  | _ => none

/-- The thread has left its loop. -/
def ThreadPhase.left : ThreadPhase → Bool
  | .exiting | .clearingSender | .clearingRunning => true
  | _ => false

namespace Publisher

variable {s s' : Publisher} {a : Action} {k : SessionId}

/-! ## What a capture thread does -/

/-- A step of a thread that has not left its loop. -/
structure LoopStep (s : Publisher) (k : SessionId) (p p' : ThreadPhase)
    (s' : Publisher) : Prop where
  inside : p.left = false
  threads : s'.threads = Function.update s.threads k (some p')
  exits : p' ≠ .clearingSender ∧ p' ≠ .clearingRunning
  starts : s'.starts = s.starts
  sessions : s'.sessions = s.sessions
  sender : s'.sender = s.sender
  running : s'.state.running = s.state.running
  settings : s'.state.toCaptureSnapshot = s.state.toCaptureSnapshot
  shutdown : s'.shutdown = s.shutdown ∨ s'.shutdown = true

/-- What a step of a thread does to the flag of the rebuild and to the snapshot. -/
inductive SnapshotStep (s : Publisher) :
    ThreadMove → ThreadPhase → ThreadPhase → Publisher → Prop where
  | takes {m : ThreadMove} {s' : Publisher} (hflag : s'.state.needsRebuild = s.state.needsRebuild) :
    SnapshotStep s m .snapshotting (.clearing s.state.toCaptureSnapshot) s'
  | clears {m : ThreadMove} {snapshot : CaptureSnapshot} {s' : Publisher}
    (hflag : s'.state.needsRebuild = false) :
    SnapshotStep s m (.clearing snapshot)
      (.opening snapshot (s.state.toCaptureSnapshot ≠ snapshot)) s'
  | opens {snapshot : CaptureSnapshot} {missed : Bool} {s' : Publisher}
    (hflag : s'.state.needsRebuild = s.state.needsRebuild) :
    SnapshotStep s (.openSession .running) (.opening snapshot missed)
      (.session snapshot none .waiting) s'
  | handles {m : ThreadMove} {snapshot : CaptureSnapshot} {dims dims' : Option (UInt32 × UInt32)}
    {stage stage' : FrameStage} {s' : Publisher}
    (hflag : s'.state.needsRebuild = s.state.needsRebuild) :
    SnapshotStep s m (.session snapshot dims stage) (.session snapshot dims' stage') s'
  | other {m : ThreadMove} {p p' : ThreadPhase} {s' : Publisher}
    (hopening : ∀ snapshot missed, p' ≠ .opening snapshot missed)
    (hsession : ∀ snapshot dims stage, p' ≠ .session snapshot dims stage) : SnapshotStep s m p p' s'

/-- The steps of a capture thread. -/
inductive ThreadEffect (s : Publisher) (k : SessionId) (m : ThreadMove) :
    ThreadPhase → Publisher → Prop where
  | loop {p p' : ThreadPhase} {s' : Publisher} (h : LoopStep s k p p' s')
    (hsnapshot : SnapshotStep s m p p' s') :
    ThreadEffect s k m p s'
  | resetShutdown :
    ThreadEffect s k m .exiting { s.setThread k (some .clearingSender) with shutdown := false }
  | clearSender : ThreadEffect s k m .clearingSender
    { s.setThread k (some .clearingRunning) with sender := none }
  | clearRunning :
    ThreadEffect s k m .clearingRunning
      { s.setThread k none with state := { s.state with running := false } }

/-- A step that touches nothing but the thread. -/
theorem effect_of_setThread {m : ThreadMove} {p p' : ThreadPhase} (hinside : p.left = false)
    (hexits : p' ≠ .clearingSender ∧ p' ≠ .clearingRunning)
    (h : SnapshotStep s m p p' (s.setThread k (some p'))) :
    ThreadEffect s k m p (s.setThread k (some p')) :=
  .loop ⟨hinside, rfl, hexits, rfl, rfl, rfl, rfl, rfl, .inl rfl⟩ h

/-- A frame is handled within its session, or ends it. -/
theorem encode_cases (snapshot : CaptureSnapshot) (dims : Option (UInt32 × UInt32))
    (width height : UInt32)
    (configured : Bool) (result : Encoded) :
    encode snapshot dims width height configured result = .ended ∨
      ∃ dims' stage,
        encode snapshot dims width height configured result = .session snapshot dims' stage := by
  unfold encode
  dsimp only
  split
  · split
    · cases result <;> simp
    · exact .inl rfl
  · split
    · exact .inr ⟨_, _, rfl⟩
    · cases result <;> simp

theorem effect_of_stepThread {p : ThreadPhase} {m : ThreadMove} (h : s.stepThread k p m = some s') :
    ThreadEffect s k m p s' := by
  unfold stepThread at h
  split at h <;> first | simp only [Option.some.injEq] at h | simp at h
  all_goals subst h
  · next ok => cases ok <;> exact effect_of_setThread rfl (by simp) (.other (by simp) (by simp))
  · split <;> exact effect_of_setThread rfl (by simp) (.other (by simp) (by simp))
  · exact effect_of_setThread rfl (by simp) (.takes rfl)
  · next snapshot =>
    exact .loop ⟨rfl, rfl, by simp, rfl, rfl, rfl, rfl, rfl, .inl rfl⟩ (.clears rfl)
  · next outcome =>
    cases outcome with
    | running => exact effect_of_setThread rfl (by simp) (.opens rfl)
    | _ => exact effect_of_setThread rfl (by simp) (.other (by simp) (by simp))
  · split
    · exact effect_of_setThread rfl (by simp) (.other (by simp) (by simp))
    · exact effect_of_setThread rfl (by simp) (.handles rfl)
  · exact effect_of_setThread rfl (by simp) (.other (by simp) (by simp))
  · split
    · exact effect_of_setThread rfl (by simp) (.other (by simp) (by simp))
    · exact effect_of_setThread rfl (by simp) (.handles rfl)
  · next snapshot dims width height configured result =>
    rcases encode_cases snapshot dims width height configured result
      with hended | ⟨dims', stage, hsession⟩
    · rw [hended]
      exact effect_of_setThread rfl (by simp) (.other (by simp) (by simp))
    · rw [hsession]
      exact effect_of_setThread rfl (by simp) (.handles rfl)
  · exact .loop ⟨rfl, rfl, by simp, rfl, rfl, rfl, rfl, rfl, .inl rfl⟩ (.other (by simp) (by simp))
  · split <;> exact effect_of_setThread rfl (by simp) (.handles rfl)
  · exact effect_of_setThread rfl (by simp) (.handles rfl)
  · split <;> exact effect_of_setThread rfl (by simp) (.handles rfl)
  · exact .loop ⟨rfl, rfl, by simp, rfl, rfl, rfl, rfl, rfl, .inr rfl⟩ (.other (by simp) (by simp))
  · split <;> exact effect_of_setThread rfl (by simp) (.other (by simp) (by simp))
  · exact .resetShutdown
  · exact .clearSender
  · exact .clearRunning

/-! ## What a step does -/

/-- The session of the call of `start`, while its thread is not spawned. -/
def pendingOf (s : Publisher) (c : Nat) : Option SessionId := (s.starts c).bind StartPhase.pending

theorem pendingOf_eq {c : Nat} {phase : StartPhase} (hc : s.starts c = some phase) :
    s.pendingOf c = phase.pending := by
  rw [pendingOf, hc, Option.bind_some]

/-- The state after a setting is changed, or not. -/
structure Retunes (state state' : State) : Prop where
  running : state'.running = state.running
  flagged : state' = state ∨ state'.needsRebuild = true

theorem retunes_self (state : State) : Retunes state state := ⟨rfl, .inl rfl⟩

/-- An access of a call of `start`. -/
inductive CallStep (s : Publisher) (c : Nat) : Action → Publisher → Prop where
  | refused {args : CaptureSnapshot} {poisoned : Bool} {e : String} (hc : s.pendingOf c = none) :
    CallStep s c (.start c args poisoned) (s.setStart c (.returned (.error e)))
  | enters {args : CaptureSnapshot} (hc : s.pendingOf c = none)
    (hrunning : s.state.running = false) :
    CallStep s c (.start c args false)
      { s.setStart c (.resetting s.sessions) with
        state := { toCaptureSnapshot := args, running := true, needsRebuild := false }
        sessions := s.sessions + 1 }
  | resets {k : SessionId} (hc : s.starts c = some (.resetting k)) :
    CallStep s c (.resetShutdown c) { s.setStart c (.installing k) with shutdown := false }
  | locked {k : SessionId} (hc : s.starts c = some (.installing k)) :
    CallStep s c (.installSender c true)
      (s.setStart c (.returned (.error "sender mutex poisoned")))
  | installs {k : SessionId} (hc : s.starts c = some (.installing k)) :
    CallStep s c (.installSender c false) { s.setStart c (.spawning k) with sender := some k }
  | unspawned {k : SessionId} (hc : s.starts c = some (.spawning k)) :
    CallStep s c (.spawn c false) (s.setStart c (.returned (.error "thread::spawn failed")))
  | spawns {k : SessionId} (hc : s.starts c = some (.spawning k)) :
    CallStep s c (.spawn c true)
      ((s.setStart c (.returned (.ok k))).setThread k (some .starting))

theorem callStep_of_enter {args : CaptureSnapshot} {poisoned : Bool} (hc : s.pendingOf c = none) :
    CallStep s c (.start c args poisoned) (s.enter c args poisoned) := by
  unfold enter
  cases poisoned with
  | true => exact .refused hc
  | false =>
    simp only [Bool.false_eq_true, if_false, State.start]
    cases hrunning : s.state.running with
    | true => exact .refused hc
    | false => exact .enters hc hrunning

theorem callStep_of_step (hc : a.caller = some c) (h : machine.step s a = some s') :
    CallStep s c a s' := by
  cases a with
  | start c' args poisoned =>
    obtain rfl : c' = c := Option.some.inj hc
    simp only [machine, step] at h
    split at h
    · next hnone => exact Option.some.inj h ▸ callStep_of_enter (by simp [pendingOf, hnone])
    · next hdone => exact Option.some.inj h ▸ callStep_of_enter (pendingOf_eq hdone)
    · simp at h
  | resetShutdown c' =>
    obtain rfl : c' = c := Option.some.inj hc
    simp only [machine, step] at h
    split at h
    · next k hk => exact Option.some.inj h ▸ .resets hk
    · simp at h
  | installSender c' poisoned =>
    obtain rfl : c' = c := Option.some.inj hc
    simp only [machine, step] at h
    split at h
    · next k hk =>
      cases poisoned with
      | true => exact Option.some.inj h ▸ .locked hk
      | false => exact Option.some.inj h ▸ .installs hk
    · simp at h
  | spawn c' ok =>
    obtain rfl : c' = c := Option.some.inj hc
    simp only [machine, step] at h
    split at h
    · next k hk =>
      cases ok with
      | true => exact Option.some.inj h ▸ .spawns hk
      | false => exact Option.some.inj h ▸ .unspawned hk
    · simp at h
  | _ => simp [Action.caller] at hc

theorem retunes_selectDisplay (state : State) (displayId : UInt32) :
    ∀ state', state.selectDisplay displayId = .ok state' → Retunes state state' := by
  intro state' h
  unfold State.selectDisplay at h
  split at h
  · simp at h
  · split at h
    · exact Except.ok.inj h ▸ retunes_self state
    · exact Except.ok.inj h ▸ ⟨rfl, .inr rfl⟩

/-- The other setters raise the flag whatever the value is. -/
theorem retunes_set {state : State} (new : State) {result : Except String State}
    (hrunning : new.running = state.running) (hflag : new.needsRebuild = true)
    (hresult : result = if !state.running then .error "capturer not started" else .ok new) :
    ∀ state', result = .ok state' → Retunes state state' := by
  rintro state' rfl
  split at hresult
  · simp at hresult
  · exact Except.ok.inj hresult ▸ ⟨hrunning, .inr hflag⟩

/-- A step that is no access of `start`. -/
inductive OtherStep (s : Publisher) : Action → Publisher → Prop where
  | stops : OtherStep s .stop { s with shutdown := true }
  | retunes {a : Action} {state : State} (h : Retunes s.state state) :
    OtherStep s a { s with state }
  | thread {k : SessionId} {p : ThreadPhase} {m : ThreadMove} {s' : Publisher}
    (hk : s.threads k = some p)
    (h : ThreadEffect s k m p s') : OtherStep s (.thread k m) s'

theorem otherStep_of_retune {result : Except String State}
    (h : ∀ state', result = .ok state' → Retunes s.state state') :
    OtherStep s a (s.retune result) := by
  unfold retune
  split
  · next state => exact .retunes (h state rfl)
  · exact .retunes (retunes_self s.state)

theorem otherStep_of_step (hc : a.caller = none) (h : machine.step s a = some s') :
    OtherStep s a s' := by
  cases a with
  | stop => exact Option.some.inj h ▸ .stops
  | selectDisplay displayId =>
    exact Option.some.inj h ▸ otherStep_of_retune (retunes_selectDisplay s.state displayId)
  | setBitrateKbps kbps =>
    exact Option.some.inj h ▸
      otherStep_of_retune
        (retunes_set { s.state with bitrateKbps := kbps, needsRebuild := true } rfl rfl rfl)
  | setFps fps =>
    exact Option.some.inj h ▸
      otherStep_of_retune (retunes_set { s.state with fps, needsRebuild := true } rfl rfl rfl)
  | setResolution width height =>
    exact Option.some.inj h ▸
      otherStep_of_retune
        (retunes_set { s.state with width, height, needsRebuild := true } rfl rfl rfl)
  | thread k m =>
    simp only [machine, step] at h
    split at h
    · next p hk => exact .thread hk (effect_of_stepThread h)
    · simp at h
  | _ => simp [Action.caller] at hc

/-- What a step does, the errors of `start` told apart no further. -/
inductive Effect (s : Publisher) : Action → Publisher → Prop where
  | enters {c : Nat} {args : CaptureSnapshot} (hc : s.pendingOf c = none)
    (hrunning : s.state.running = false) :
    Effect s (.start c args false)
      { s.setStart c (.resetting s.sessions) with
        state := { toCaptureSnapshot := args, running := true, needsRebuild := false }
        sessions := s.sessions + 1 }
  /-- A call of `start` returns before it has spawned a thread. -/
  | fails {a : Action} {c : Nat} {e : String} : Effect s a (s.setStart c (.returned (.error e)))
  | resets {c : Nat} {k : SessionId} (hc : s.starts c = some (.resetting k)) :
    Effect s (.resetShutdown c) { s.setStart c (.installing k) with shutdown := false }
  | installs {c : Nat} {k : SessionId} (hc : s.starts c = some (.installing k)) :
    Effect s (.installSender c false) { s.setStart c (.spawning k) with sender := some k }
  | spawns {c : Nat} {k : SessionId} (hc : s.starts c = some (.spawning k)) :
    Effect s (.spawn c true) ((s.setStart c (.returned (.ok k))).setThread k (some .starting))
  | stops : Effect s .stop { s with shutdown := true }
  | retunes {a : Action} {state : State} (h : Retunes s.state state) : Effect s a { s with state }
  | thread {k : SessionId} {p : ThreadPhase} {m : ThreadMove} {s' : Publisher}
    (hk : s.threads k = some p)
    (h : ThreadEffect s k m p s') : Effect s (.thread k m) s'

theorem effect_of_step (h : machine.step s a = some s') : Effect s a s' := by
  cases hcaller : a.caller with
  | some c =>
    cases callStep_of_step hcaller h with
    | enters hc hrunning => exact .enters hc hrunning
    | resets hc => exact .resets hc
    | installs hc => exact .installs hc
    | spawns hc => exact .spawns hc
    | _ => exact .fails
  | none =>
    cases otherStep_of_step hcaller h with
    | stops => exact .stops
    | retunes hstate => exact .retunes hstate
    | thread hk hthread => exact .thread hk hthread

/-! ## The owner of the publisher -/

/-- The session has been started and its thread has not gone. -/
def Busy (s : Publisher) (k : SessionId) : Prop :=
  (∃ c, s.pendingOf c = some k) ∨ s.threads k ≠ none

structure Inv (s : Publisher) : Prop where
  current : ∀ k, s.Busy k → s.state.running = true ∧ k + 1 = s.sessions
  exclusive : ∀ c k, s.pendingOf c = some k → s.threads k = none
  unique : ∀ c c' k, s.pendingOf c = some k → s.pendingOf c' = some k → c = c'
  sender : ∀ k, s.sender = some k → s.state.running = true ∧ k + 1 = s.sessions
  cleared : ∀ k, s.threads k = some .clearingRunning → s.sender = none

theorem pendingOf_setStart {c c' : Nat} {phase : StartPhase} :
    (s.setStart c phase).pendingOf c' = if c' = c then phase.pending else s.pendingOf c' := by
  unfold pendingOf setStart
  by_cases hc : c' = c
  · simp [hc]
  · simp [hc]

/-- A call that has returned is pending no more, and the others are as before. -/
theorem pendingOf_returned {c c' : Nat} {result : Except String SessionId} :
    (s.setStart c (.returned result)).pendingOf c' = some k ↔ c' ≠ c ∧ s.pendingOf c' = some k := by
  rw [pendingOf_setStart]
  split
  · next heq => simp [heq, StartPhase.pending]
  · next hne => simp [hne]

theorem threads_setThread {j : SessionId} {phase : Option ThreadPhase} :
    (s.setThread k phase).threads j = if j = k then phase else s.threads j := by
  simp [setThread, Function.update_apply]

namespace Inv

theorem init : Inv Publisher.init where
  current := by
    rintro k (⟨c, hc⟩ | hk)
    · simp [Publisher.init, pendingOf] at hc
    · exact absurd rfl hk
  exclusive := fun c k hc => rfl
  unique := fun c c' k hc => by simp [Publisher.init, pendingOf] at hc
  sender := fun k hk => by simp [Publisher.init] at hk
  cleared := fun k hk => by simp [Publisher.init] at hk

/-- Before the first start, and between two, nobody is busy. -/
theorem idle (hs : Inv s) (hrunning : s.state.running = false) (k : SessionId) : ¬ s.Busy k := by
  intro hk
  have hrun := (hs.current k hk).1
  rw [hrunning] at hrun
  simp at hrun

theorem busy_unique (hs : Inv s) {j : SessionId} (hj : s.Busy j) (hk : s.Busy k) : j = k :=
  Nat.succ.inj ((hs.current j hj).2.trans (hs.current k hk).2.symm)

/-- A state with the same owners. -/
theorem congr (hs : Inv s) (hstarts : ∀ c k, s'.pendingOf c = some k → s.pendingOf c = some k)
    (hthreads : s'.threads = s.threads) (hrunning : s'.state.running = s.state.running)
    (hsessions : s'.sessions = s.sessions) (hsender : s'.sender = s.sender) : Inv s' where
  current := by
    rintro k (⟨c, hc⟩ | hk)
    · rw [hrunning, hsessions]
      exact hs.current k (.inl ⟨c, hstarts c k hc⟩)
    · rw [hrunning, hsessions]
      exact hs.current k (.inr (hthreads ▸ hk))
  exclusive := fun c k hc => by rw [hthreads]; exact hs.exclusive c k (hstarts c k hc)
  unique := fun c c' k hc hc' => hs.unique c c' k (hstarts c k hc) (hstarts c' k hc')
  sender := fun k hk => by rw [hrunning, hsessions]; exact hs.sender k (hsender ▸ hk)
  cleared := fun k hk => by rw [hsender]; exact hs.cleared k (hthreads ▸ hk)

/-- A call of `start` that stays the owner, or returns. -/
theorem setStart (hs : Inv s) {c : Nat} {phase : StartPhase}
    (hphase : ∀ k, phase.pending = some k → s.pendingOf c = some k) : Inv (s.setStart c phase) := by
  refine hs.congr (fun c' k hc => ?_) rfl rfl rfl rfl
  rw [pendingOf_setStart] at hc
  split at hc
  · next heq => exact heq ▸ hphase k hc
  · exact hc

theorem enters (hs : Inv s) {c : Nat} {args : CaptureSnapshot}
    (hrunning : s.state.running = false) :
    Inv { s.setStart c (.resetting s.sessions) with
      state := { toCaptureSnapshot := args, running := true, needsRebuild := false }
      sessions := s.sessions + 1 } := by
  have hidle := hs.idle hrunning
  have hthreads : ∀ k, s.threads k = none := fun k => by
    by_contra hk
    exact hidle k (.inr hk)
  have hpending : ∀ c' k, (s.setStart c (.resetting s.sessions)).pendingOf c' = some k →
      c' = c ∧ k = s.sessions := by
    intro c' k hc
    rw [pendingOf_setStart] at hc
    split at hc
    · next heq => exact ⟨heq, (Option.some.inj hc).symm⟩
    · exact absurd (.inl ⟨c', hc⟩) (hidle k)
  refine ⟨?_, fun c' k _ => hthreads k, fun c' c'' k hc hc' => ?_, fun k hk => ?_, fun k hk => ?_⟩
  · rintro k (⟨c', hc⟩ | hk)
    · rw [(hpending c' k hc).2]
      exact ⟨rfl, rfl⟩
    · exact absurd (hthreads k) hk
  · rw [(hpending c' k hc).1, (hpending c'' k hc').1]
  · have hrun := (hs.sender k hk).1
    rw [hrunning] at hrun
    simp at hrun
  · change s.threads k = some .clearingRunning at hk
    rw [hthreads] at hk
    simp at hk

/-- When the call that is the owner returns, no other one is pending. -/
theorem no_pending (hs : Inv s) {c : Nat} {result : Except String SessionId}
    (hc : s.pendingOf c = some k) :
    ∀ c' j, (s.setStart c (.returned result)).pendingOf c' ≠ some j := by
  intro c' j hj
  obtain ⟨hne, hj⟩ := pendingOf_returned.mp hj
  have hjk := hs.busy_unique (.inl ⟨c', hj⟩) (.inl ⟨c, hc⟩)
  exact hne (hs.unique c' c k (hjk ▸ hj) hc)

/-- The call hands the publisher over to the thread it spawns. -/
theorem spawns (hs : Inv s) {c : Nat} (hc : s.starts c = some (.spawning k)) :
    Inv ((s.setStart c (.returned (.ok k))).setThread k (some .starting)) := by
  have howner : s.pendingOf c = some k := pendingOf_eq hc
  have hcurrent := hs.current k (.inl ⟨c, howner⟩)
  have hnone : ∀ c' j, (s.setStart c (.returned (.ok k))).pendingOf c' ≠ some j :=
    hs.no_pending howner
  refine ⟨?_, fun c' j hj => absurd hj (hnone c' j), fun c' c'' j hj => absurd hj (hnone c' j),
    hs.sender, ?_⟩
  · rintro j (⟨c', hj⟩ | hj)
    · exact absurd hj (hnone c' j)
    · rw [threads_setThread] at hj
      split at hj
      · next heq => exact heq ▸ hcurrent
      · exact hs.current j (.inr hj)
  · intro j hj
    rw [threads_setThread] at hj
    split at hj
    · simp at hj
    · exact hs.cleared j hj

/-- The thread moves on, and only the last but one access touches the sender. -/
theorem moveThread (hs : Inv s) {p p' : ThreadPhase} (hk : s.threads k = some p)
    (hthreads : s'.threads = Function.update s.threads k (some p')) (hstarts : s'.starts = s.starts)
    (hrunning : s'.state.running = s.state.running) (hsessions : s'.sessions = s.sessions)
    (hsender : (s'.sender = s.sender ∧ p' ≠ .clearingRunning) ∨ s'.sender = none) : Inv s' := by
  have hpending : ∀ c, s'.pendingOf c = s.pendingOf c :=
    fun c => by rw [pendingOf, hstarts, pendingOf]
  have hother : ∀ j phase, s'.threads j = some phase →
      (j = k ∧ phase = p') ∨ (j ≠ k ∧ s.threads j = some phase) := by
    intro j phase hj
    rw [hthreads, Function.update_apply] at hj
    split at hj
    · next heq => exact .inl ⟨heq, (Option.some.inj hj).symm⟩
    · next hne => exact .inr ⟨hne, hj⟩
  have halive : ∀ j, s'.threads j ≠ none → s.threads j ≠ none := by
    intro j hj
    obtain ⟨phase, hphase⟩ := Option.ne_none_iff_exists'.mp hj
    rcases hother j phase hphase with ⟨rfl, -⟩ | ⟨-, hsame⟩
    · simp [hk]
    · simp [hsame]
  refine ⟨?_, fun c j hc => ?_, fun c c' j hc hc' => ?_, fun j hj => ?_, fun j hj => ?_⟩
  · intro j hj
    rw [hrunning, hsessions]
    refine hs.current j ?_
    rcases hj with ⟨c, hc⟩ | hj
    · exact .inl ⟨c, hpending c ▸ hc⟩
    · exact .inr (halive j hj)
  · by_contra hj
    exact halive j hj (hs.exclusive c j (hpending c ▸ hc))
  · exact hs.unique c c' j (hpending c ▸ hc) (hpending c' ▸ hc')
  · rw [hrunning, hsessions]
    rcases hsender with ⟨hsame, -⟩ | hnone
    · exact hs.sender j (hsame ▸ hj)
    · rw [hnone] at hj
      simp at hj
  · rcases hsender with ⟨hsame, hp'⟩ | hnone
    · rcases hother j _ hj with ⟨-, heq⟩ | ⟨-, hj⟩
      · exact absurd heq.symm hp'
      · rw [hsame, hs.cleared j hj]
    · exact hnone

/-- The last access of the thread leaves nobody behind. -/
theorem clearRunning (hs : Inv s) (hk : s.threads k = some .clearingRunning) :
    Inv { s.setThread k none with state := { s.state with running := false } } := by
  have hbusy : s.Busy k := .inr (by simp [hk])
  have hpending : ∀ c j, s.pendingOf c ≠ some j := by
    intro c j hc
    obtain rfl := hs.busy_unique (.inl ⟨c, hc⟩) hbusy
    rw [hs.exclusive c j hc] at hk
    simp at hk
  have hthreads : ∀ j, (s.setThread k none).threads j = none := by
    intro j
    rw [threads_setThread]
    split
    · rfl
    · next hne =>
      by_contra hj
      exact hne (hs.busy_unique (.inr hj) hbusy)
  refine ⟨?_, fun c j _ => hthreads j, fun c c' j hc _ => absurd hc (hpending c j), fun j hj => ?_,
    fun j hj => ?_⟩
  · rintro j (⟨c, hc⟩ | hj)
    · exact absurd hc (hpending c j)
    · exact absurd (hthreads j) hj
  · have hsender : s.sender = some j := hj
    rw [hs.cleared k hk] at hsender
    simp at hsender
  · change (s.setThread k none).threads j = some .clearingRunning at hj
    rw [hthreads] at hj
    simp at hj

theorem effect (hs : Inv s) (h : Effect s a s') : Inv s' := by
  have hpending : ∀ {c k phase}, s.starts c = some phase → phase.pending = some k →
      s.pendingOf c = some k := by
    intro c k phase hc hphase
    rw [pendingOf, hc]
    exact hphase
  cases h with
  | enters hc hrunning => exact hs.enters hrunning
  | fails => exact hs.setStart (by simp [StartPhase.pending])
  | @resets c k hc =>
    have hset : Inv (s.setStart c (.installing k)) := hs.setStart fun j hj => hpending hc hj
    exact ⟨hset.current, hset.exclusive, hset.unique, hset.sender, hset.cleared⟩
  | @installs c k hc =>
    have howner := hpending hc rfl
    have hset : Inv (s.setStart c (.spawning k)) := hs.setStart fun j hj => hpending hc hj
    refine ⟨hset.current, hset.exclusive, hset.unique, fun j hj => ?_, fun j hj => ?_⟩
    · obtain rfl := Option.some.inj hj
      exact hs.current k (.inl ⟨c, howner⟩)
    · -- the caller owns the publisher, so there is no thread
      change s.threads j = some .clearingRunning at hj
      have hbusy : s.Busy j := .inr (by simp [hj])
      obtain rfl := hs.busy_unique hbusy (.inl ⟨c, howner⟩)
      rw [hs.exclusive c j howner] at hj
      simp at hj
  | spawns hc => exact hs.spawns hc
  | stops => exact ⟨hs.current, hs.exclusive, hs.unique, hs.sender, hs.cleared⟩
  | retunes hstate => exact hs.congr (fun _ _ hc => hc) rfl hstate.running rfl rfl
  | thread hk hthread =>
    cases hthread with
    | loop hloop _ =>
      exact hs.moveThread hk hloop.threads hloop.starts hloop.running hloop.sessions
        (.inl ⟨hloop.sender, hloop.exits.2⟩)
    | resetShutdown => exact hs.moveThread hk rfl rfl rfl rfl (.inl ⟨rfl, by simp⟩)
    | clearSender => exact hs.moveThread hk rfl rfl rfl rfl (.inr rfl)
    | clearRunning => exact hs.clearRunning hk

end Inv

theorem inv_reachable (h : machine.Reachable s) : Inv s :=
  Machine.Preserves.reachable machine (fun _ _ _ hs h => hs.effect (effect_of_step h)) .init h

/-! ## Stops -/

/-- The session has been spawned, and as long as its thread is in the loop, it is told to
    stop. -/
structure Stopped (k : SessionId) (s : Publisher) : Prop where
  inv : Inv s
  begun : k < s.sessions
  spawned : ∀ c, s.pendingOf c ≠ some k
  told : ∀ p, s.threads k = some p → p.left = false → s.shutdown = true

namespace Stopped

/-- An access of an exit closure leaves no thread in its loop, and resets `SHUTDOWN` only if
    the thread of the session is the one that exits. -/
theorem exits (hs : Stopped k s) (hinv : Inv s') {j : SessionId} {new : Option ThreadPhase}
    (hthreads : s'.threads = Function.update s.threads j new) (hnew : ∀ q ∈ new, q.left = true)
    (hstarts : s'.starts = s.starts) (hsessions : s'.sessions = s.sessions)
    (hshutdown : s'.shutdown = s.shutdown ∨ ∀ p, s.threads k = some p → j = k) :
    Stopped k s' := by
  refine ⟨hinv, hsessions ▸ hs.begun, fun c => ?_, fun q hq hleft => ?_⟩
  · rw [pendingOf, hstarts]
    exact hs.spawned c
  · rw [hthreads, Function.update_apply] at hq
    split at hq
    · simp [hnew q hq] at hleft
    · next hkj =>
      rcases hshutdown with hsame | howner
      · rw [hsame]
        exact hs.told q hq hleft
      · exact absurd (howner q hq).symm hkj

/-- An access of a loop changes `SHUTDOWN` to true only. -/
theorem loop (hs : Stopped k s) (hinv : Inv s') {j : SessionId} {p p' : ThreadPhase}
    (hj : s.threads j = some p) (hloop : LoopStep s j p p' s') : Stopped k s' := by
  refine ⟨hinv, hloop.sessions ▸ hs.begun, fun c => ?_, fun q hq hleft => ?_⟩
  · rw [pendingOf, hloop.starts]
    exact hs.spawned c
  · have htold : s.shutdown = true := by
      rw [hloop.threads, Function.update_apply] at hq
      split at hq
      · next heq => exact hs.told p (heq ▸ hj) hloop.inside
      · exact hs.told q hq hleft
    rcases hloop.shutdown with hsame | htrue
    · rw [hsame, htold]
    · exact htrue

theorem effect (hs : Stopped k s) (h : Effect s a s') : Stopped k s' := by
  have hinv := hs.inv.effect h
  -- while the thread is there, nobody else owns the publisher
  have howner : ∀ {j p}, s.threads k = some p → s.Busy j → j = k := fun hk hj =>
    hs.inv.busy_unique hj (.inr (by simp [hk]))
  have hset : ∀ {c phase}, phase.pending ≠ some k → ∀ c',
      (s.setStart c phase).pendingOf c' ≠ some k := by
    intro c phase hphase c'
    rw [pendingOf_setStart]
    split
    · exact hphase
    · exact hs.spawned c'
  have hpending : ∀ {c j phase}, s.starts c = some phase → phase.pending = some j →
      s.pendingOf c = some j := by
    intro c j phase hc hphase
    rw [pendingOf, hc]
    exact hphase
  have hne : ∀ {c j phase}, s.starts c = some phase → phase.pending = some j → j ≠ k := by
    rintro c j phase hc hphase rfl
    exact hs.spawned c (hpending hc hphase)
  cases h with
  | enters hc hrunning =>
    have hnew : (StartPhase.resetting s.sessions).pending ≠ some k := fun heq =>
      absurd hs.begun (by rw [Option.some.inj heq]; exact Nat.lt_irrefl _)
    exact ⟨hinv, Nat.lt_succ_of_lt hs.begun, hset hnew, hs.told⟩
  | fails => exact ⟨hinv, hs.begun, hset (by simp [StartPhase.pending]), hs.told⟩
  | @resets c j hc =>
    refine ⟨hinv, hs.begun, hset fun heq => hne hc rfl (Option.some.inj heq), fun p hp _ => ?_⟩
    exact absurd (howner hp (.inl ⟨c, hpending hc rfl⟩)) (hne hc rfl)
  | @installs c j hc =>
    exact ⟨hinv, hs.begun, hset fun heq => hne hc rfl (Option.some.inj heq), hs.told⟩
  | @spawns c j hc =>
    refine ⟨hinv, hs.begun, hset (by simp [StartPhase.pending]), fun p hp hleft => ?_⟩
    rw [threads_setThread, if_neg (hne hc rfl).symm] at hp
    exact hs.told p hp hleft
  | stops => exact ⟨hinv, hs.begun, hs.spawned, fun _ _ _ => rfl⟩
  | retunes => exact ⟨hinv, hs.begun, hs.spawned, hs.told⟩
  | @thread j p m _ hj hthread =>
    cases hthread with
    | loop hloop _ => exact hs.loop hinv hj hloop
    | resetShutdown =>
      have hbusy : s.Busy j := .inr (by simp [hj])
      exact hs.exits hinv rfl (by simp [ThreadPhase.left]) rfl rfl
        (.inr fun _ hk => howner hk hbusy)
    | clearSender => exact hs.exits hinv rfl (by simp [ThreadPhase.left]) rfl rfl (.inl rfl)
    | clearRunning => exact hs.exits hinv rfl (by simp) rfl rfl (.inl rfl)

end Stopped

/-- In every reachable state there is at most one capture thread. An access of the exit
    closure of a session changes the sender only if it is the one of that session, and
    `running` only if no later session has begun. And after a `stop` during a session
    `SHUTDOWN` is set whenever its thread is in its loop. -/
theorem lifecycle (h : machine.Reachable s) :
    (∀ j k, s.threads j ≠ none → s.threads k ≠ none → j = k) ∧
    (∀ k s', machine.step s (.thread k .exit) = some s' →
      (s'.sender ≠ s.sender → s.sender = some k) ∧
      (s'.state.running ≠ s.state.running → k + 1 = s.sessions)) ∧
    ∀ k p, s.threads k = some p → p.left = false →
      ∀ s' as t, machine.step s .stop = some s' → machine.run s' as = some t →
        ∀ q, t.threads k = some q → q.left = false → t.shutdown = true := by
  have hinv := inv_reachable h
  refine ⟨fun j k hj hk => hinv.busy_unique (.inr hj) (.inr hk), fun k s' hstep => ?_, ?_⟩
  · cases effect_of_step hstep with
    | fails => exact ⟨fun hne => absurd rfl hne, fun hne => absurd rfl hne⟩
    | retunes hstate => exact ⟨fun hne => absurd rfl hne, fun hne => absurd hstate.running hne⟩
    | @thread _ p _ _ hk hthread =>
      have hcurrent := hinv.current k (.inr (by simp [hk]))
      refine ⟨fun hne => ?_, fun _ => hcurrent.2⟩
      cases hthread with
      | loop hloop _ => exact absurd hloop.sender hne
      | resetShutdown => exact absurd rfl hne
      | clearRunning => exact absurd rfl hne
      | clearSender =>
        obtain ⟨j, hj⟩ := Option.ne_none_iff_exists'.mp (Ne.symm hne)
        rw [hj, Nat.succ.inj ((hinv.sender j hj).2.trans hcurrent.2.symm)]
  · intro k p hk _ s' as t hstep hrun q hq hleft
    obtain rfl : { s with shutdown := true } = s' := Option.some.inj hstep
    have hcurrent := hinv.current k (.inr (by simp [hk]))
    have hstopped : Stopped k { s with shutdown := true } := by
      refine ⟨hinv.effect .stops, ?_, fun c hc => ?_, fun _ _ _ => rfl⟩
      · exact hcurrent.2 ▸ Nat.lt_succ_self k
      · rw [hinv.exclusive c k hc] at hk
        simp at hk
    have hend := Machine.Preserves.run machine (I := Stopped k)
      (fun _ _ _ hs h => hs.effect (effect_of_step h)) hstopped hrun
    exact hend.told q hq hleft

/-- A session that is started and takes its first frame. -/
def firstFrame : List Action :=
  [.start 0 ⟨1920, 1080, 30, 4000, 0⟩ false, .resetShutdown 0, .installSender 0 false,
    .spawn 0 true, .thread 0 (.startup true), .thread 0 .loadShutdown, .thread 0 .takeSnapshot,
    .thread 0 .clearRebuild, .thread 0 (.openSession .running), .thread 0 .loadShutdown,
    .thread 0 .readRebuild]

theorem lifecycle_firstFrame :
    let s := (machine.run machine.init firstFrame).getD machine.init
    (∀ j k, s.threads j ≠ none → s.threads k ≠ none → j = k) ∧
    (∀ k s', machine.step s (.thread k .exit) = some s' →
      (s'.sender ≠ s.sender → s.sender = some k) ∧
      (s'.state.running ≠ s.state.running → k + 1 = s.sessions)) ∧
    ∀ k p, s.threads k = some p → p.left = false →
      ∀ s' as t, machine.step s .stop = some s' → machine.run s' as = some t →
        ∀ q, t.threads k = some q → q.left = false → t.shutdown = true :=
  lifecycle (machine.reachable_of_run (machine.run_getD firstFrame (by decide +kernel)))

end Publisher

end XyzenRelay.Capture
