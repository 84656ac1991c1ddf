-- SUMMARY: The Windows publisher: its three globals, the calls of its public API and its capture threads, one atomic access or mutex section at a time.
import XyzenRelay.Lib.Machine
import Mathlib.Logic.Function.Basic

/-!
# The Windows publisher

Model of `crates/win-capturer/src/publisher.rs`: the state mutex, `SHUTDOWN` and the
sender slot, any number of callers, and the capture threads they spawn. The capture
session, the encoder and the receiver are part of the environment: an action says what
they do next.

Sessions are numbered by the starts that have set `running`. The channel of a session
is named by its number, and so is its capture thread. `sessions`, and `missed` in a
thread that opens a session, only remember what happened.
-/

namespace XyzenRelay.Capture

abbrev SessionId := Nat

structure CaptureSnapshot where
  width : UInt32
  height : UInt32
  fps : UInt32
  bitrateKbps : UInt32
  displayId : UInt32
  deriving DecidableEq, Repr

/-- The settings, and whether a publisher runs and is to rebuild its pipeline. -/
structure State extends CaptureSnapshot where
  running : Bool
  needsRebuild : Bool
  deriving DecidableEq, Repr

namespace State

/-- `State::default`. -/
def default : State where
  width := 0
  height := 0
  fps := 0
  bitrateKbps := 0
  displayId := 0
  running := false
  needsRebuild := false

/-! ## Sections of the public calls -/

/-- The section of `start`. -/
def start (s : State) (args : CaptureSnapshot) : Except String State :=
  if s.running then .error "publisher already running"
  else .ok { toCaptureSnapshot := args, running := true, needsRebuild := false }

/-- `select_display`. -/
def selectDisplay (s : State) (displayId : UInt32) : Except String State :=
  if !s.running then .error "capturer not started"
  else if s.displayId = displayId then .ok s
  else .ok { s with displayId, needsRebuild := true }

/-- `set_bitrate_kbps`. -/
def setBitrateKbps (s : State) (kbps : UInt32) : Except String State :=
  if !s.running then .error "capturer not started"
    else .ok { s with bitrateKbps := kbps, needsRebuild := true }

/-- `set_fps`. -/
def setFps (s : State) (fps : UInt32) : Except String State :=
  if !s.running then .error "capturer not started" else .ok { s with fps, needsRebuild := true }

/-- `set_resolution`. -/
def setResolution (s : State) (width height : UInt32) : Except String State :=
  if !s.running then .error "capturer not started"
    else .ok { s with width, height, needsRebuild := true }

end State

/-- How far a call of `start` has come. -/
inductive StartPhase where
  /-- The section is left and `SHUTDOWN` is still to be reset. -/
  | resetting (k : SessionId)
  /-- The channel is still to be put into the slot. -/
  | installing (k : SessionId)
  | spawning (k : SessionId)
  | returned (result : Except String SessionId)
  deriving DecidableEq, Repr

/-- Where a callback of a session is. -/
inductive FrameStage where
  /-- No frame is being handled. -/
  | waiting
  /-- `SHUTDOWN` was not set. -/
  | checked
  /-- `needs_rebuild` was not set either. -/
  | admitted
  /-- The frame is not of the configured size. -/
  | mismatched
  /-- The encoder has given some NALs. -/
  | drained (nals : Nat)
  | sending (tx : SessionId) (nals : Nat)
  /-- The receiver is gone. -/
  | disconnected
  deriving DecidableEq, Repr

/-- How far a capture thread has come. -/
inductive ThreadPhase where
  /-- COM and MediaFoundation are still to be initialised. -/
  | starting
  /-- At the head of the loop. -/
  | looping
  | snapshotting
  /-- The snapshot is taken and the rebuild flag still to be cleared. -/
  | clearing (snapshot : CaptureSnapshot)
  /-- The flag is cleared and the session not yet running. `missed` says that the settings
      had changed in between. -/
  | opening (snapshot : CaptureSnapshot) (missed : Bool)
  /-- A capture session runs. The size is the one its encoder is configured for. -/
  | session (snapshot : CaptureSnapshot) (dims : Option (UInt32 × UInt32)) (stage : FrameStage)
  /-- The session is over. -/
  | ended
  /-- The loop is left: the three accesses of the exit closure. -/
  | exiting
  | clearingSender
  | clearingRunning
  deriving DecidableEq, Repr

structure Publisher where
  state : State
  /-- `SHUTDOWN` -/
  shutdown : Bool
  /-- `SENDER` -/
  sender : Option SessionId
  starts : Nat → Option StartPhase
  threads : SessionId → Option ThreadPhase
  /-- The number of sessions so far. -/
  sessions : Nat

/-- What comes of a frame that is of the right size. -/
inductive Encoded where
  /-- The buffer of the frame cannot be read. -/
  | unreadable
  /-- `submit_frame` or `drain` fails, which is only logged. -/
  | nothing
  | nals (count : Nat)
  deriving DecidableEq, Repr

/-- What comes of opening a session. -/
inductive Opened where
  /-- There is no monitor: `run_capture_thread` returns the error. -/
  | noMonitor
  | failed
  | running
  deriving DecidableEq, Repr

inductive ThreadMove where
  /-- `MFStartup` -/
  | startup (ok : Bool)
  | loadShutdown
  | takeSnapshot
  | clearRebuild
  | openSession (outcome : Opened)
  | readRebuild
  /-- The frame is compared with the configured size, or configures the encoder, and encoded. -/
  | encode (width height : UInt32) (configured : Bool) (result : Encoded)
  | flagRebuild
  | cloneSender
  | send (ok : Bool)
  | storeShutdown
  /-- The session ends by itself. -/
  | sessionEnds
  /-- One access of the exit closure. -/
  | exit
  deriving DecidableEq, Repr

inductive Action where
  | start (c : Nat) (args : CaptureSnapshot) (poisoned : Bool)
  | resetShutdown (c : Nat)
  | installSender (c : Nat) (poisoned : Bool)
  | spawn (c : Nat) (ok : Bool)
  | stop
  | selectDisplay (displayId : UInt32)
  | setBitrateKbps (kbps : UInt32)
  | setFps (fps : UInt32)
  | setResolution (width height : UInt32)
  | thread (k : SessionId) (m : ThreadMove)
  deriving DecidableEq, Repr

namespace Publisher

def init : Publisher where
  state := .default
  shutdown := false
  sender := none
  starts := fun _ => none
  threads := fun _ => none
  sessions := 0

def setStart (s : Publisher) (c : Nat) (phase : StartPhase) : Publisher :=
  { s with starts := Function.update s.starts c (some phase) }

def setThread (s : Publisher) (k : SessionId) (phase : Option ThreadPhase) : Publisher :=
  { s with threads := Function.update s.threads k phase }

/-! ## `start` -/

/-- The section of `start`, entered by a caller that is in no other call. -/
def enter (s : Publisher) (c : Nat) (args : CaptureSnapshot) (poisoned : Bool) : Publisher :=
  if poisoned then s.setStart c (.returned (.error "state mutex poisoned"))
  else
    match s.state.start args with
    | .error e => s.setStart c (.returned (.error e))
    | .ok state => { s.setStart c (.resetting s.sessions) with state, sessions := s.sessions + 1 }

def install (s : Publisher) (c : Nat) (k : SessionId) (poisoned : Bool) : Publisher :=
  if poisoned then s.setStart c (.returned (.error "sender mutex poisoned"))
  else { s.setStart c (.spawning k) with sender := some k }

def spawn (s : Publisher) (c : Nat) (k : SessionId) (ok : Bool) : Publisher :=
  if ok then (s.setStart c (.returned (.ok k))).setThread k (some .starting)
  else s.setStart c (.returned (.error "thread::spawn failed"))

/-- A setting is changed. A call that fails changes nothing. -/
def retune (s : Publisher) (result : Except String State) : Publisher :=
  match result with
  | .ok state => { s with state }
  | .error _ => s

/-! ## The capture thread -/

/-- A frame is compared with the configured size and encoded. -/
def encode (snapshot : CaptureSnapshot) (dims : Option (UInt32 × UInt32)) (width height : UInt32)
    (configured : Bool)
    (result : Encoded) : ThreadPhase :=
  let submitted (dims : UInt32 × UInt32) : ThreadPhase :=
    match result with
    | .unreadable => .ended
    | .nothing => .session snapshot (some dims) .waiting
    | .nals count => .session snapshot (some dims) (.drained count)
  match dims with
  | none => if configured then submitted (width, height) else .ended
  | some d => if (width, height) ≠ d then .session snapshot dims .mismatched else submitted d

def stepThread (s : Publisher) (k : SessionId) (phase : ThreadPhase) (m : ThreadMove) :
    Option Publisher :=
  match phase, m with
  | .starting, .startup ok => some (s.setThread k (some (if ok then .looping else .exiting)))
  | .looping, .loadShutdown =>
    some (s.setThread k (some (if s.shutdown then .exiting else .snapshotting)))
  | .snapshotting, .takeSnapshot =>
    some (s.setThread k (some (.clearing s.state.toCaptureSnapshot)))
  | .clearing snapshot, .clearRebuild =>
    some { s.setThread k (some (.opening snapshot (s.state.toCaptureSnapshot ≠ snapshot))) with
      state := { s.state with needsRebuild := false } }
  | .opening snapshot _, .openSession outcome =>
    some (s.setThread k (some (match outcome with
      | .noMonitor => .exiting
      | .failed => .ended
      | .running => .session snapshot none .waiting)))
  | .session snapshot dims .waiting, .loadShutdown =>
    some (s.setThread k (some (if s.shutdown then .ended else .session snapshot dims .checked)))
  | .session _ _ .waiting, .sessionEnds => some (s.setThread k (some .ended))
  | .session snapshot dims .checked, .readRebuild =>
    some (s.setThread k
      (some (if s.state.needsRebuild then .ended else .session snapshot dims .admitted)))
  | .session snapshot dims .admitted, .encode width height configured result =>
    some (s.setThread k (some (encode snapshot dims width height configured result)))
  | .session _ _ .mismatched, .flagRebuild =>
    some { s.setThread k (some .ended) with state := { s.state with needsRebuild := true } }
  | .session snapshot dims (.drained nals), .cloneSender =>
    some (s.setThread k (some (.session snapshot dims (match s.sender with
      | some tx => .sending tx nals
      | none => .waiting))))
  | .session snapshot dims (.sending _ 0), .send _ =>
    some (s.setThread k (some (.session snapshot dims .waiting)))
  | .session snapshot dims (.sending tx (nals + 1)), .send ok =>
    some (s.setThread k
      (some (.session snapshot dims (if ok then .sending tx nals else .disconnected))))
  | .session _ _ .disconnected, .storeShutdown =>
    some { s.setThread k (some .ended) with shutdown := true }
  | .ended, .loadShutdown => some (s.setThread k (some (if s.shutdown then .exiting else .looping)))
  | .exiting, .exit => some { s.setThread k (some .clearingSender) with shutdown := false }
  | .clearingSender, .exit => some { s.setThread k (some .clearingRunning) with sender := none }
  | .clearingRunning, .exit =>
    some { s.setThread k none with state := { s.state with running := false } }
  | _, _ => none

def step (s : Publisher) : Action → Option Publisher
  | .start c args poisoned =>
    match s.starts c with
    | none | some (.returned _) => some (s.enter c args poisoned)
    | some _ => none
  | .resetShutdown c =>
    match s.starts c with
    | some (.resetting k) => some { s.setStart c (.installing k) with shutdown := false }
    | _ => none
  | .installSender c poisoned =>
    match s.starts c with
    | some (.installing k) => some (s.install c k poisoned)
    | _ => none
  | .spawn c ok =>
    match s.starts c with
    | some (.spawning k) => some (s.spawn c k ok)
    | _ => none
  | .stop => some { s with shutdown := true }
  | .selectDisplay displayId => some (s.retune (s.state.selectDisplay displayId))
  | .setBitrateKbps kbps => some (s.retune (s.state.setBitrateKbps kbps))
  | .setFps fps => some (s.retune (s.state.setFps fps))
  | .setResolution width height => some (s.retune (s.state.setResolution width height))
  | .thread k m =>
    match s.threads k with
    | some phase => s.stepThread k phase m
    | none => none

def machine : Machine Publisher Action := { init := init, step := step }

end Publisher

end XyzenRelay.Capture
