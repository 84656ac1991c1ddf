-- SUMMARY: The resolution that is asked for on Windows, which nothing but the getter ever reports.
import XyzenRelay.Capture.Publisher

/-!
# The requested resolution

`set_resolution` has the pipeline rebuilt. But the encoder is configured for the size of
the first frame that arrives, and the capture session is not told any. Two runs that
differ in nothing but the sizes asked for are the same but for these sizes.
-/

namespace XyzenRelay.Capture

/-- The settings without the size. -/
def CaptureSnapshot.unsized (s : CaptureSnapshot) : CaptureSnapshot :=
  { s with width := 0, height := 0 }

/-- A phase without the sizes asked for. Whether a change was missed only depends on
    them as far as it is remembered. -/
def ThreadPhase.unsized : ThreadPhase → ThreadPhase
  | .clearing snapshot => .clearing snapshot.unsized
  | .opening snapshot _ => .opening snapshot.unsized false
  | .session snapshot dims stage => .session snapshot.unsized dims stage
  | phase => phase

@[simp] theorem ThreadPhase.unsized_unsized (phase : ThreadPhase) :
    phase.unsized.unsized = phase.unsized := by
  cases phase <;> rfl

def State.unsized (s : State) : State :=
  { s with toCaptureSnapshot := s.toCaptureSnapshot.unsized }

namespace State

variable (s : State)

theorem unsized_selectDisplay (displayId : UInt32) :
    (s.unsized.selectDisplay displayId).map unsized = (s.selectDisplay displayId).map unsized := by
  obtain ⟨⟨_, _, _, _, id⟩, running, _⟩ := s
  cases running with
  | false => rfl
  | true => by_cases hid : id = displayId <;>
      simp [selectDisplay, unsized, CaptureSnapshot.unsized, Except.map, hid]

theorem unsized_setBitrateKbps (kbps : UInt32) :
    (s.unsized.setBitrateKbps kbps).map unsized = (s.setBitrateKbps kbps).map unsized := by
  obtain ⟨_, running, _⟩ := s
  cases running <;> rfl

theorem unsized_setFps (fps : UInt32) :
    (s.unsized.setFps fps).map unsized = (s.setFps fps).map unsized := by
  obtain ⟨_, running, _⟩ := s
  cases running <;> rfl

theorem unsized_setResolution (width height : UInt32) :
    (s.unsized.setResolution 0 0).map unsized = (s.setResolution width height).map unsized := by
  obtain ⟨_, running, _⟩ := s
  cases running <;> rfl

end State

/-- An action that asks for no size. The sizes of frames stay. -/
def Action.unsized : Action → Action
  | .start c args poisoned => .start c args.unsized poisoned
  | .setResolution _ _ => .setResolution 0 0
  | a => a

namespace Publisher

/-- The publisher without the sizes asked for. -/
def unsized (s : Publisher) : Publisher :=
  { s with
    state := s.state.unsized
    threads := fun k => (s.threads k).map ThreadPhase.unsized }

variable {s s' t : Publisher} {a b : Action} {as bs : List Action}

@[simp] theorem unsized_unsized (s : Publisher) : s.unsized.unsized = s.unsized := by
  simp only [unsized, Option.map_map, Publisher.mk.injEq, true_and, and_true]
  refine ⟨rfl, funext fun k => ?_⟩
  cases s.threads k <;> simp

@[simp] theorem unsized_shutdown (s : Publisher) : s.unsized.shutdown = s.shutdown := rfl

@[simp] theorem unsized_starts (s : Publisher) : s.unsized.starts = s.starts := rfl

@[simp] theorem unsized_sender (s : Publisher) : s.unsized.sender = s.sender := rfl

@[simp] theorem unsized_needsRebuild (s : Publisher) :
    s.unsized.state.needsRebuild = s.state.needsRebuild := rfl

theorem unsized_setThread (s : Publisher) (k : SessionId) (phase : Option ThreadPhase) :
    (s.setThread k phase).unsized = s.unsized.setThread k (phase.map ThreadPhase.unsized) := by
  simp only [unsized, setThread, Publisher.mk.injEq, true_and, and_true]
  funext j
  by_cases hj : j = k
  · subst hj
    simp
  · simp [Function.update_of_ne hj]

/-- A thread that moves on to the same phase but for the sizes. -/
theorem unsized_moved (s : Publisher) (k : SessionId) {phase phase' : Option ThreadPhase}
    (h : phase.map ThreadPhase.unsized = phase'.map ThreadPhase.unsized) :
    some (s.setThread k phase).unsized = some (s.unsized.setThread k phase').unsized := by
  rw [unsized_setThread, unsized_setThread, unsized_unsized, h]

theorem unsized_encode (snapshot : CaptureSnapshot) (dims : Option (UInt32 × UInt32))
    (width height : UInt32) (configured : Bool) (result : Encoded) :
    (encode snapshot dims width height configured result).unsized =
      encode snapshot.unsized dims width height configured result := by
  cases dims with
  | none => cases configured <;> cases result <;> rfl
  | some d =>
    simp only [encode]
    split_ifs
    · rfl
    · cases result <;> rfl

/-- What a thread does next does not depend on the sizes asked for. -/
theorem unsized_stepThread (s : Publisher) (k : SessionId) (phase : ThreadPhase) (m : ThreadMove) :
    (s.stepThread k phase m).map unsized =
      (s.unsized.stepThread k phase.unsized m).map unsized := by
  cases phase with
  | starting =>
    cases m with
    | startup ok => exact unsized_moved s k rfl
    | _ => rfl
  | looping =>
    cases m with
    | loadShutdown => exact unsized_moved s k rfl
    | _ => rfl
  | snapshotting =>
    cases m with
    | takeSnapshot => exact unsized_moved s k rfl
    | _ => rfl
  | clearing snapshot =>
    cases m with
    | clearRebuild =>
      exact unsized_moved { s with state := { s.state with needsRebuild := false } } k rfl
    | _ => rfl
  | opening snapshot missed =>
    cases m with
    | openSession outcome => exact unsized_moved s k (by cases outcome <;> rfl)
    | _ => rfl
  | session snapshot dims stage =>
    cases stage with
    | waiting =>
      cases m with
      | loadShutdown => exact unsized_moved s k (by cases hstop : s.shutdown <;> simp [hstop]; rfl)
      | sessionEnds => exact unsized_moved s k rfl
      | _ => rfl
    | checked =>
      cases m with
      | readRebuild =>
        exact unsized_moved s k (by cases hflag : s.state.needsRebuild <;> simp [hflag]; rfl)
      | _ => rfl
    | admitted =>
      cases m with
      | encode width height configured result =>
        exact unsized_moved s k (by simp [unsized_encode]; rfl)
      | _ => rfl
    | mismatched =>
      cases m with
      | flagRebuild =>
        exact unsized_moved { s with state := { s.state with needsRebuild := true } } k rfl
      | _ => rfl
    | drained nals =>
      cases m with
      | cloneSender => exact unsized_moved s k (by simp only [unsized_sender]; cases s.sender <;> rfl)
      | _ => rfl
    | sending tx nals =>
      cases m with
      | send ok =>
        cases nals with
        | zero => exact unsized_moved s k rfl
        | succ nals => exact unsized_moved s k (by cases ok <;> rfl)
      | _ => cases nals <;> rfl
    | disconnected =>
      cases m with
      | storeShutdown => exact unsized_moved { s with shutdown := true } k rfl
      | _ => rfl
  | ended =>
    cases m with
    | loadShutdown => exact unsized_moved s k rfl
    | _ => rfl
  | exiting =>
    cases m with
    | exit => exact unsized_moved { s with shutdown := false } k rfl
    | _ => rfl
  | clearingSender =>
    cases m with
    | exit => exact unsized_moved { s with sender := none } k rfl
    | _ => rfl
  | clearingRunning =>
    cases m with
    | exit => exact unsized_moved { s with state := { s.state with running := false } } k rfl
    | _ => rfl

/-- A public call comes to the same but for the sizes. -/
theorem unsized_retune (s : Publisher) {result result' : Except String State}
    (h : result'.map State.unsized = result.map State.unsized) :
    (s.retune result).unsized = (s.unsized.retune result').unsized := by
  cases result with
  | error e =>
    cases result' with
    | error e' => exact (unsized_unsized s).symm
    | ok state' => simp [Except.map] at h
  | ok state =>
    cases result' with
    | error e' => simp [Except.map] at h
    | ok state' =>
      have hstate : state'.unsized = state.unsized := by simpa [Except.map] using h
      have hthreads := congrArg threads (unsized_unsized s)
      simp only [retune, unsized, hstate] at hthreads ⊢
      rw [hthreads]

theorem unsized_enter (s : Publisher) (c : Nat) (args : CaptureSnapshot) (poisoned : Bool) :
    (s.enter c args poisoned).unsized = (s.unsized.enter c args.unsized poisoned).unsized := by
  cases poisoned with
  | true => exact (unsized_unsized (s.setStart c _)).symm
  | false =>
    cases hrunning : s.state.running with
    | true =>
      have hrunning' : s.unsized.state.running = true := hrunning
      simp only [enter, State.start, hrunning, hrunning', Bool.false_eq_true, if_false, if_true]
      exact (unsized_unsized (s.setStart c _)).symm
    | false =>
      have hrunning' : s.unsized.state.running = false := hrunning
      simp only [enter, State.start, hrunning, hrunning', Bool.false_eq_true, if_false]
      exact (unsized_unsized { s.setStart c _ with state := _, sessions := s.sessions + 1 }).symm

theorem unsized_spawn (s : Publisher) (c : Nat) (k : SessionId) (ok : Bool) :
    (s.spawn c k ok).unsized = (s.unsized.spawn c k ok).unsized := by
  cases ok with
  | true => exact Option.some.inj (unsized_moved (s.setStart c (.returned (.ok k))) k rfl)
  | false => exact (unsized_unsized (s.setStart c _)).symm

theorem unsized_step (s : Publisher) (a : Action) :
    (s.step a).map unsized = (s.unsized.step a.unsized).map unsized := by
  cases a with
  | start c args poisoned =>
    simp only [step, Action.unsized, unsized_starts]
    split
    · exact congrArg some (unsized_enter s c args poisoned)
    · exact congrArg some (unsized_enter s c args poisoned)
    · rfl
  | resetShutdown c =>
    simp only [step, Action.unsized, unsized_starts]
    split
    · exact congrArg some (unsized_unsized { s.setStart c _ with shutdown := false }).symm
    · rfl
  | installSender c poisoned =>
    simp only [step, Action.unsized, unsized_starts]
    split
    · next k _ => cases poisoned <;> exact congrArg some (unsized_unsized (s.install c k _)).symm
    · rfl
  | spawn c ok =>
    simp only [step, Action.unsized, unsized_starts]
    split
    · next k _ => exact congrArg some (unsized_spawn s c k ok)
    · rfl
  | stop => exact congrArg some (unsized_unsized { s with shutdown := true }).symm
  | selectDisplay displayId =>
    exact congrArg some (unsized_retune s (s.state.unsized_selectDisplay displayId))
  | setBitrateKbps kbps =>
    exact congrArg some (unsized_retune s (s.state.unsized_setBitrateKbps kbps))
  | setFps fps => exact congrArg some (unsized_retune s (s.state.unsized_setFps fps))
  | setResolution width height =>
    exact congrArg some (unsized_retune s (s.state.unsized_setResolution width height))
  | thread k m =>
    have hthread : s.unsized.threads k = (s.threads k).map ThreadPhase.unsized := rfl
    simp only [step, Action.unsized, hthread]
    cases s.threads k with
    | none => rfl
    | some phase => exact unsized_stepThread s k phase m

/-- Two runs that differ in nothing but the sizes asked for reach the same state but for
    these sizes: with the same sessions, encoder sizes and flags. -/
theorem resolution_ignored (has : as.map Action.unsized = bs.map Action.unsized)
    (hrun : machine.run machine.init as = some t) :
    ∃ u, machine.run machine.init bs = some u ∧ u.unsized = t.unsized := by
  have hstep : ∀ {s t : Publisher} {a b : Action}, s.unsized = t.unsized →
      a.unsized = b.unsized → (s.step a).map unsized = (t.step b).map unsized := by
    intro s t a b hst hab
    rw [unsized_step s, unsized_step t, hst, hab]
  have hruns := machine.run_map_congr hstep has (rfl : machine.init.unsized = _)
  rw [hrun] at hruns
  exact Option.map_eq_some_iff.mp hruns.symm

/-- A session whose first frame is of 2560 by 1440 pixels, after some size was asked for. -/
def askedFor (width height : UInt32) : List Action :=
  [.start 0 ⟨1920, 1080, 30, 8000, 0⟩ false, .resetShutdown 0, .installSender 0 false,
    .spawn 0 true, .setResolution width height, .thread 0 (.startup true), .thread 0 .loadShutdown,
    .thread 0 .takeSnapshot, .thread 0 .clearRebuild, .thread 0 (.openSession .running),
    .thread 0 .loadShutdown, .thread 0 .readRebuild, .thread 0 (.encode 2560 1440 true (.nals 3))]

theorem resolution_ignored_small :
    ∃ u, machine.run machine.init (askedFor 640 480) = some u ∧
      u.unsized = ((machine.run machine.init (askedFor 1280 720)).getD machine.init).unsized :=
  @resolution_ignored _ (askedFor 1280 720) _ rfl rfl

end Publisher

end XyzenRelay.Capture
