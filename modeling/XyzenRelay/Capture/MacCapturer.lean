-- SUMMARY: The macOS capturer behind its C ABI: the running capturer, its compression session and stream, and the calls that retune them.
import XyzenRelay.Lib.Machine

/-!
# The macOS capturer

Model of the live controls of `crates/mac-capturer/swift/MacCapturer.swift`.
ScreenCaptureKit and VideoToolbox are part of the environment: a call carries what they
answer. A Swift method that throws keeps what it has assigned so far, so the methods are
programs over the state with errors.

VideoToolbox numbers its compression sessions in the order of their creation.
-/

namespace XyzenRelay.Capture.Mac

structure NSError where
  domain : String
  code : Int
  localizedDescription : String
  deriving DecidableEq, Repr

/-- The errors the capturer raises itself. -/
def macCapturerError (code : Int) (localizedDescription : String) : NSError :=
  ⟨"MacCapturer", code, localizedDescription⟩

-- ---------------------------------------------------------------------------
-- ScreenCaptureKit and VideoToolbox
-- ---------------------------------------------------------------------------

/-- What a completion handler was given within five seconds. -/
inductive Completion (α : Type) where
  | timedOut
  | completed (result : α) (error : Option NSError)
  deriving DecidableEq, Repr

/-- Wait for a completion handler. -/
def Completion.wait {α : Type} (timeout : NSError) : Completion α → Except NSError α
  | .timedOut => .error timeout
  | .completed _ (some e) => .error e
  | .completed result none => .ok result

/-- The handler was called without an error. -/
def Completion.Done (c : Completion Unit) : Prop := c = .completed () none

instance (c : Completion Unit) : Decidable c.Done := inferInstanceAs (Decidable (_ = _))

/-- The size a stream is to deliver, and the frame rate of its `minimumFrameInterval`. -/
structure SCStreamConfiguration where
  width : Int
  height : Int
  fps : Int
  deriving DecidableEq, Repr

/-- A running stream, with the configuration and the display that were last confirmed. -/
structure SCStream where
  configuration : SCStreamConfiguration
  displayId : UInt32
  deriving DecidableEq, Repr

abbrev SessionId := Nat

/-- A compression session: what it was created at, and the properties it has taken since.
    One it has always refused is `none`, and has a default of VideoToolbox. -/
structure VTCompressionSession where
  id : SessionId
  width : Int
  height : Int
  averageBitRate : Option Int
  dataLimitBytes : Option Int
  expectedFrameRate : Option Int
  maxKeyFrameInterval : Option Int
  deriving DecidableEq, Repr

/-- A property once `VTSessionSetProperty` has answered with `status`. -/
def setProperty (status value : Int) (old : Option Int) : Option Int :=
  if status = 0 then some value else old

/-- What makes it the session it is. -/
def VTCompressionSession.origin (e : VTCompressionSession) : SessionId × Int × Int :=
  (e.id, e.width, e.height)

/-- The sessions VideoToolbox has created and those that were invalidated. -/
structure VideoToolbox where
  created : Nat
  invalidated : List SessionId
  deriving DecidableEq, Repr

/-- The session exists and was not invalidated. -/
def VideoToolbox.Live (vt : VideoToolbox) (id : SessionId) : Prop :=
  id < vt.created ∧ id ∉ vt.invalidated

instance (vt : VideoToolbox) (id : SessionId) : Decidable (vt.Live id) :=
  inferInstanceAs (Decidable (_ ∧ _))

/-- The statuses with which the two properties of the frame rate were set. -/
structure FrameRateStatuses where
  expectedFrameRate : Int
  maxKeyFrameInterval : Int
  deriving DecidableEq, Repr

/-- The answers to `makeEncoder`: the status of `VTCompressionSessionCreate`, whether it gave
    a session, and the statuses of the properties that were set on the session. -/
structure Creation where
  status : Int
  session : Bool
  averageBitRate : Int
  dataRateLimits : Int
  frameRate : FrameRateStatuses
  deriving DecidableEq, Repr

def Creation.Succeeded (r : Creation) : Prop := r.status = 0 ∧ r.session = true

instance (r : Creation) : Decidable r.Succeeded := inferInstanceAs (Decidable (_ ∧ _))

-- ---------------------------------------------------------------------------
-- The capturer
-- ---------------------------------------------------------------------------

structure MacCapturer where
  width : Int
  height : Int
  fps : Int
  currentBitrateKbps : Int
  preferredDisplayId : Option UInt32
  currentDisplayId : UInt32
  stream : Option SCStream
  encoder : Option VTCompressionSession
  deriving DecidableEq, Repr

namespace MacCapturer

/-- The initialiser. -/
def init (width height fps bitrateKbps : Int) (initialDisplayId : Option UInt32) : MacCapturer where
  width := width
  height := height
  fps := fps
  currentBitrateKbps := bitrateKbps
  preferredDisplayId := initialDisplayId
  currentDisplayId := 0
  stream := none
  encoder := none

/-- A throwing method. What it has assigned before it throws stays assigned. -/
abbrev Method := ExceptT NSError (StateM (MacCapturer × VideoToolbox))

def get : Method MacCapturer := fun s => (.ok s.1, s)

def modify (f : MacCapturer → MacCapturer) : Method Unit := fun s => (.ok (), f s.1, s.2)

/-- Wait for a completion handler, inside a method. -/
def wait {α : Type} (c : Completion α) (timeout : NSError) : Method α :=
  fun s => (c.wait timeout, s)

/-! ### Running a method -/

variable {α β : Type}

@[simp] theorem bind_apply (x : Method α) (f : α → Method β) (s : MacCapturer × VideoToolbox) :
    (x >>= f) s = match x s with
      | (.ok a, s') => f a s'
      | (.error e, s') => (.error e, s') := by
  simp only [bind, ExceptT.bind, ExceptT.mk, StateT.bind]
  rcases x s with ⟨_ | a, s'⟩ <;> rfl

@[simp] theorem pure_apply (a : α) (s : MacCapturer × VideoToolbox) :
    (pure a : Method α) s = (.ok a, s) := rfl

@[simp] theorem throw_apply (e : NSError) (s : MacCapturer × VideoToolbox) :
    (throw e : Method α) s = (.error e, s) := rfl

@[simp] theorem get_apply (s : MacCapturer × VideoToolbox) : get s = (.ok s.1, s) := rfl

@[simp] theorem modify_apply (f : MacCapturer → MacCapturer) (s : MacCapturer × VideoToolbox) :
    modify f s = (.ok (), f s.1, s.2) := rfl

@[simp] theorem wait_apply (c : Completion α) (timeout : NSError) (s : MacCapturer × VideoToolbox) :
    wait c timeout s = (c.wait timeout, s) := rfl

/-! ### Methods -/

/-- The configuration the capturer builds for its stream. -/
def configuration (width height fps : Int) : SCStreamConfiguration := ⟨width, height, fps⟩

/-- `VTCompressionSessionInvalidate`, if there is a session. -/
def invalidateEncoder : Method Unit := fun s =>
  (.ok (), s.1, { s.2 with invalidated := (s.1.encoder.map (·.id)).toList ++ s.2.invalidated })

/-- Only the creation can fail: nobody looks at the statuses of the properties. -/
def makeEncoder (create : Creation) : Method Unit := fun s =>
  if create.Succeeded then
    let bps := s.1.currentBitrateKbps * 1000
    let session : VTCompressionSession := {
      id := s.2.created
      width := s.1.width
      height := s.1.height
      averageBitRate := setProperty create.averageBitRate bps none
      dataLimitBytes := setProperty create.dataRateLimits ((bps.tdiv 8 * 3).tdiv 2) none
      expectedFrameRate := setProperty create.frameRate.expectedFrameRate s.1.fps none
      maxKeyFrameInterval := setProperty create.frameRate.maxKeyFrameInterval s.1.fps none }
    (.ok (), { s.1 with encoder := some session }, { s.2 with created := s.2.created + 1 })
  else (.error (macCapturerError create.status "VTCompressionSessionCreate(HEVC)"), s)

/-- `fetchShareableContent`: the displays there are. -/
def fetchShareableContent (content : Completion (Option (List UInt32))) : Method (List UInt32) := do
  match ← wait content (macCapturerError (-2) "SCShareableContent timeout") with
  | some displays => return displays
  | none => throw (macCapturerError (-3) "no content")

def pickDisplay (c : MacCapturer) (displays : List UInt32) : Option UInt32 :=
  match c.preferredDisplayId with
  | some id => if id ∈ displays then some id else displays.head?
  | none => displays.head?

/-- What ScreenCaptureKit answers to `startCapture`. -/
structure StartAnswers where
  content : Completion (Option (List UInt32))
  addStreamOutput : Except NSError Unit
  started : Completion Unit

def startCapture (answers : StartAnswers) : Method Unit := do
  let displays ← fetchShareableContent answers.content
  let some display := (← get).pickDisplay displays | throw (macCapturerError (-1) "no display")
  modify fun c => { c with currentDisplayId := display }
  let c ← get
  let stream : SCStream := ⟨configuration c.width c.height c.fps, display⟩
  match answers.addStreamOutput with
  | .error e => throw e
  | .ok () => wait answers.started (macCapturerError (-3) "SCStream.startCapture timeout")
  modify fun c => { c with stream := some stream }

def start (create : Creation) (answers : StartAnswers) : Method Unit := do
  makeEncoder create
  startCapture answers

def selectDisplay (id : UInt32) (content : Completion (Option (List UInt32)))
    (update : Completion Unit) :
    Method Unit := do
  let c ← get
  let some stream := c.stream | throw (macCapturerError (-10) "stream not started")
  if id = c.currentDisplayId then return
  let displays ← fetchShareableContent content
  unless id ∈ displays do throw (macCapturerError (-11) s!"display {id} not available")
  wait update (macCapturerError (-12) "updateContentFilter timeout")
  modify fun c => { c with stream := some { stream with displayId := id }, currentDisplayId := id }

def setFps (newFps : Int) (update : Completion Unit) (statuses : FrameRateStatuses) :
    Method Unit := do
  let c ← get
  if newFps = c.fps then return
  let some stream := c.stream | throw (macCapturerError (-20) "stream not started")
  wait update (macCapturerError (-21) "updateConfiguration timeout")
  modify fun c => { c with
    stream := some { stream with configuration := configuration c.width c.height newFps }
    encoder := c.encoder.map fun e => { e with
      expectedFrameRate := setProperty statuses.expectedFrameRate newFps e.expectedFrameRate
      maxKeyFrameInterval := setProperty statuses.maxKeyFrameInterval newFps e.maxKeyFrameInterval }
    fps := newFps }

def setResolution (newW newH : Int) (update : Completion Unit) (create : Creation) :
    Method Unit := do
  let c ← get
  if newW = c.width ∧ newH = c.height then return
  let some stream := c.stream | throw (macCapturerError (-30) "stream not started")
  wait update (macCapturerError (-31) "updateConfiguration timeout")
  modify fun c =>
    { c with stream := some { stream with configuration := configuration newW newH c.fps } }
  invalidateEncoder
  -- The old encoder is given up before there is a new one.
  modify fun c => { c with encoder := none, width := newW, height := newH }
  makeEncoder create

end MacCapturer

-- ---------------------------------------------------------------------------
-- The C ABI
-- ---------------------------------------------------------------------------

/-- The capturer of the process, if one was started, and VideoToolbox. -/
structure Process where
  sharedCapturer : Option MacCapturer
  videoToolbox : VideoToolbox
  deriving DecidableEq, Repr

/-- The range a call brings its argument into. -/
def clamp (low high : Int) (n : Int32) : Int := max low (min high n.toInt)

/-- The arguments of `xz_capturer_start`. -/
structure StartArgs where
  width : Int32
  height : Int32
  fps : Int32
  bitrateKbps : Int32
  displayId : UInt32
  deriving DecidableEq, Repr

namespace Process

/-- Run a method of the running capturer: 1 if there is none, 2 if the method throws. -/
def retune (method : MacCapturer.Method Unit) (p : Process) : Int × Process :=
  match p.sharedCapturer with
  | none => (1, p)
  | some c =>
    match method (c, p.videoToolbox) with
    | (.ok (), c', vt) => (0, ⟨some c', vt⟩)
    | (.error _, c', vt) => (2, ⟨some c', vt⟩)

/-- `xz_capturer_start`. -/
def start (args : StartArgs) (create : Creation) (answers : MacCapturer.StartAnswers)
    (p : Process) : Int × Process :=
  let s := MacCapturer.init args.width.toInt args.height.toInt args.fps.toInt args.bitrateKbps.toInt
    (if args.displayId = 0 then none else some args.displayId)
  match MacCapturer.start create answers (s, p.videoToolbox) with
  | (.ok (), s', vt) => (0, ⟨some s', vt⟩)
  | (.error _, _, vt) => (1, { p with videoToolbox := vt })

/-- `xz_capturer_select_display`. -/
def selectDisplay (displayId : UInt32) (content : Completion (Option (List UInt32)))
    (update : Completion Unit) :
    Process → Int × Process :=
  retune (MacCapturer.selectDisplay displayId content update)

/-- `xz_capturer_set_bitrate`. `status` is the answer of `VTSessionSetProperty`. -/
def setBitrate (kbps : Int32) (status : Int) (p : Process) : Int × Process :=
  match p.sharedCapturer with
  | none => (1, p)
  | some c =>
    match c.encoder with
    | none => (1, p)
    | some e =>
      let clamped := clamp 100 100000 kbps
      if status ≠ 0 then (2, p)
      else (0, { p with sharedCapturer := some { c with
        encoder := some { e with averageBitRate := some (clamped * 1000) }
        currentBitrateKbps := clamped } })

/-- `xz_capturer_set_fps`. -/
def setFps (fps : Int32) (update : Completion Unit) (statuses : FrameRateStatuses) :
    Process → Int × Process :=
  retune (MacCapturer.setFps (clamp 5 120 fps) update statuses)

/-- `xz_capturer_set_resolution`. -/
def setResolution (width height : Int32) (update : Completion Unit) (create : Creation) :
    Process → Int × Process :=
  retune (MacCapturer.setResolution (clamp 160 7680 width) (clamp 120 4320 height) update create)

end Process

/-- The calls of the C ABI that change something, with what the frameworks answer to them. -/
inductive Call where
  | start (args : StartArgs) (create : Creation) (answers : MacCapturer.StartAnswers)
  | selectDisplay (displayId : UInt32) (content : Completion (Option (List UInt32)))
    (update : Completion Unit)
  | setBitrate (kbps : Int32) (status : Int)
  | setFps (fps : Int32) (update : Completion Unit) (statuses : FrameRateStatuses)
  | setResolution (width height : Int32) (update : Completion Unit) (create : Creation)

/-- The code a call returns, and what it leaves. -/
def Process.call (p : Process) : Call → Int × Process
  | .start args create answers => p.start args create answers
  | .selectDisplay displayId content update => p.selectDisplay displayId content update
  | .setBitrate kbps status => p.setBitrate kbps status
  | .setFps fps update statuses => p.setFps fps update statuses
  | .setResolution width height update create => p.setResolution width height update create

/-- A process, call after call. -/
def machine : Machine Process Call where
  init := ⟨none, ⟨0, []⟩⟩
  step p a := some (p.call a).2

end XyzenRelay.Capture.Mac
