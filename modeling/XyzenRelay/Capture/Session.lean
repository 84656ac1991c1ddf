-- SUMMARY: A capture session on Windows, callback by callback: the media time of the samples the encoder is fed, and what of its output reaches the channel.
import XyzenRelay.Capture.FrameSize
import XyzenRelay.Capture.Stamp
import XyzenRelay.Lib.Machine
import Mathlib.Data.List.Forall2

/-!
# Capture sessions

Model of `ScreenshareHandler::on_frame_arrived` in `crates/win-capturer/src/publisher.rs`
with all it does to the encoder of `encoder.rs` and to the channel: `configure`,
`submit_frame` with its media time, `drain` and the sends. MediaFoundation, the capture
API and the receiver are part of the environment: a callback brings their answers.
`inputs` and `samples` only remember what the encoder was handed and has given.
-/

namespace XyzenRelay.Capture.Win

open Nv12

/-! ## The encoder -/

/-- `saturating_add` of two `i64` that are not negative. -/
def saturatingAdd (a b : Nat) : Nat := min (a + b) (2 ^ 63 - 1)

/-- The encoder with its media time, in units of 100 ns. Neither is ever negative. -/
structure TimedEncoder extends H264Encoder where
  frameDuration : Nat
  nextPts : Nat
  deriving DecidableEq, Repr

/-- A sample handed to `ProcessInput`. -/
structure InputSample where
  time : Nat
  duration : Nat
  nv12 : Bytes
  deriving DecidableEq, Repr

/-- What MediaFoundation answers to the calls of `submit_frame`. -/
structure MediaAnswers where
  memory : (n : UInt32) → Except HResult (Memory n.toNat)
  /-- `SetCurrentLength` to `SetSampleDuration` -/
  prepared : Except HResult Unit
  processInput : Bytes → Except HResult Unit

/-- The answers to all that is behind the conversion. -/
def MediaAnswers.submission (mf : MediaAnswers) : Submission where
  memory := mf.memory
  process := fun nv12 => mf.prepared.bind fun _ => mf.processInput nv12

/-- `10_000_000 / i64::from(fps.max(1))` -/
def durationOf (fps : UInt32) : Nat := 10000000 / max fps.toNat 1

namespace TimedEncoder

def new : TimedEncoder := { H264Encoder.new with frameDuration := 0, nextPts := 0 }

/-- `configure`. -/
def configure (e : TimedEncoder) (width height fps : UInt32) (calls : Except Error Unit) :
    Except Error Unit × TimedEncoder :=
  match e.toH264Encoder.configure width height calls with
  | (.error err, encoder) => (.error err, { e with toH264Encoder := encoder })
  | (.ok (), encoder) =>
    (.ok (), { toH264Encoder := encoder, frameDuration := durationOf fps, nextPts := 0 })

/-- `submit_frame`, with the sample that is handed to `ProcessInput`. `none` is a panic of
    the conversion, or a conversion into memory that is too small. -/
def submitFrame (e : TimedEncoder) (bgra : Bytes) (mf : MediaAnswers) :
    Option (Except Error Unit × List InputSample × TimedEncoder) :=
  if !e.transform then some (.error .notConfigured, [], e)
  else
    let expected := usize (e.width.toNat * e.height.toNat * 4)
    if bgra.length < expected then some (.error (.inputBufferSize bgra.length expected), [], e)
    else
      match mf.memory (UInt32.ofNat e.nv12Len) with
      | .error err => some (.error (.mf err), [], e)
      | .ok mem =>
        if mem.val.length < e.nv12Len then none
        else
          match bgraToNv12 bgra e.width.toNat e.height.toNat (mem.val.take e.nv12Len) with
          | none => none
          | some nv12 =>
            match mf.prepared with
            | .error err => some (.error (.mf err), [], e)
            | .ok () =>
              -- the time is used up before `ProcessInput` has a say
              some ((mf.processInput nv12).mapError .mf,
                [{ time := e.nextPts, duration := e.frameDuration, nv12 }],
                { e with nextPts := saturatingAdd e.nextPts e.frameDuration })

end TimedEncoder

/-! ## The session -/

/-- A call of `on_frame_arrived`, with what it is told. -/
structure Callback where
  shutdown : Bool
  needsRebuild : Bool
  width : UInt32
  height : UInt32
  configureCalls : Except Error Unit
  /-- The tightly packed pixels, unless the capture API fails. -/
  buffer : Except HResult Bytes
  media : MediaAnswers
  /-- The iterations of the loop in `drain`. -/
  outputs : List ProcessOutput
  /-- There is a sender in the slot. -/
  sender : Bool
  /-- How many NALs the channel takes until its receiver is gone. -/
  takes : Nat

/-- The samples the loop of `drain` comes across. -/
def samplesOf : List ProcessOutput → List (WallClock × Bytes)
  | .sample wallUs (some bytes) :: rest => (wallUs, bytes) :: samplesOf rest
  | .noSample :: rest => samplesOf rest
  | _ => []

/-- The callback as far as it is about sizes and pixels. -/
def Callback.arrival (c : Callback) : Arrival where
  shutdown := c.shutdown
  needsRebuild := c.needsRebuild
  width := c.width
  height := c.height
  configureCalls := c.configureCalls
  buffer := c.buffer
  submission := c.media.submission

structure Session where
  encoder : TimedEncoder
  configuredDims : Option (UInt32 × UInt32)
  /-- A send has failed and set `SHUTDOWN`. -/
  hungUp : Bool
  /-- What the channel has taken. -/
  sent : List Bytes
  inputs : List InputSample
  /-- The samples of the drains that have succeeded. -/
  samples : List (WallClock × Bytes)

namespace Session

def new : Session where
  encoder := .new
  configuredDims := none
  hungUp := false
  sent := []
  inputs := []
  samples := []

/-- The loop over the drained NALs. -/
def send (s : Session) (c : Callback) (nals : List Bytes) : Session :=
  if c.sender then
    { s with sent := s.sent ++ nals.take c.takes, hungUp := s.hungUp || c.takes < nals.length }
  else s

/-- `drain` and what follows. `none` as long as it does not return. -/
def deliver (s : Session) (c : Callback) : Option Session :=
  match drain [] c.outputs with
  | none => none
  | some (.error ()) => some s
  | some (.ok nals) => some ({ s with samples := s.samples ++ samplesOf c.outputs }.send c nals)

/-- From `frame.buffer()` on. A frame that is not accepted is only logged. -/
def submit (s : Session) (c : Callback) : Option Session :=
  match c.buffer with
  | .error _ => some s
  | .ok bgra =>
    match s.encoder.submitFrame bgra c.media with
    | none => none
    | some (.error _, fed, encoder) => some { s with encoder, inputs := s.inputs ++ fed }
    | some (.ok (), fed, encoder) =>
      { s with encoder, inputs := s.inputs ++ fed }.deliver c

/-- `on_frame_arrived`, in a session with `fps` frames a second. `none` when it panics or
    does not return. -/
def onFrameArrived (fps : UInt32) (s : Session) (c : Callback) : Option Session :=
  if c.shutdown then some s
  else if c.needsRebuild then some s
  else
    match s.configuredDims with
    | none =>
      match s.encoder.configure c.width c.height fps c.configureCalls with
      | (.error _, encoder) => some { s with encoder }
      | (.ok (), encoder) =>
        { s with encoder, configuredDims := some (c.width, c.height) }.submit c
    | some (cw, ch) => if c.width ≠ cw ∨ c.height ≠ ch then some s else s.submit c

/-- The callbacks of a session with `fps` frames a second. -/
def machine (fps : UInt32) : Machine Session Callback where
  init := new
  step := onFrameArrived fps

/-- The session as far as it is about sizes. -/
def handler (s : Session) : ScreenshareHandler where
  encoder := s.encoder.toH264Encoder
  configuredDims := s.configuredDims

end Session

/-! ## What a submission does -/

/-- The media time of the `k`-th sample. -/
def mediaTime (duration k : Nat) : Nat := min (k * duration) (2 ^ 63 - 1)

theorem saturatingAdd_mediaTime (duration k : Nat) :
    saturatingAdd (mediaTime duration k) duration = mediaTime duration (k + 1) := by
  simp only [saturatingAdd, mediaTime, Nat.succ_mul]
  omega

namespace TimedEncoder

variable {e e' : TimedEncoder} {bgra : Bytes} {mf : MediaAnswers} {r : Except Error Unit}
  {fed : List InputSample}

/-- The answer is that of the encoder without media time. -/
theorem submitFrame_answer (e : TimedEncoder) (bgra : Bytes) (mf : MediaAnswers) :
    (e.submitFrame bgra mf).map Prod.fst = e.toH264Encoder.submitFrame bgra mf.submission := by
  simp only [submitFrame, H264Encoder.submitFrame, MediaAnswers.submission]
  split_ifs
  · rfl
  · rfl
  · cases mf.memory (UInt32.ofNat e.nv12Len) with
    | error err => rfl
    | ok mem =>
      simp only
      split_ifs
      · rfl
      · cases bgraToNv12 bgra e.width.toNat e.height.toNat (mem.val.take e.nv12Len) with
        | none => rfl
        | some nv12 => cases mf.prepared <;> rfl

/-- Nothing is handed to `ProcessInput`, or one sample with the next time, which is a
    converted frame of the size of the encoder. -/
theorem submitFrame_cases (h : e.submitFrame bgra mf = some (r, fed, e')) :
    (fed = [] ∧ e' = e) ∨
      ∃ dst nv12, usize (e.width.toNat * e.height.toNat * 4) ≤ bgra.length ∧
        dst.length = e.nv12Len ∧
        bgraToNv12 bgra e.width.toNat e.height.toNat dst = some nv12 ∧
        fed = [{ time := e.nextPts, duration := e.frameDuration, nv12 }] ∧
        e' = { e with nextPts := saturatingAdd e.nextPts e.frameDuration } := by
  simp only [submitFrame] at h
  split_ifs at h with htransform hshort
  · simp only [Option.some.injEq, Prod.mk.injEq] at h
    exact .inl ⟨h.2.1.symm, h.2.2.symm⟩
  · simp only [Option.some.injEq, Prod.mk.injEq] at h
    exact .inl ⟨h.2.1.symm, h.2.2.symm⟩
  · cases hmem : mf.memory (UInt32.ofNat e.nv12Len) with
    | error err =>
      simp only [hmem, Option.some.injEq, Prod.mk.injEq] at h
      exact .inl ⟨h.2.1.symm, h.2.2.symm⟩
    | ok mem =>
      simp only [hmem] at h
      split_ifs at h with hroom
      cases hnv12 : bgraToNv12 bgra e.width.toNat e.height.toNat (mem.val.take e.nv12Len) with
      | none => simp [hnv12] at h
      | some nv12 =>
        simp only [hnv12] at h
        cases hprepared : mf.prepared with
        | error err =>
          simp only [hprepared, Option.some.injEq, Prod.mk.injEq] at h
          exact .inl ⟨h.2.1.symm, h.2.2.symm⟩
        | ok u =>
          simp only [hprepared, Option.some.injEq, Prod.mk.injEq] at h
          have hlen : (mem.val.take e.nv12Len).length = e.nv12Len := by
            rw [List.length_take]
            omega
          exact .inr ⟨_, nv12, by omega, hlen, hnv12, h.2.1.symm, h.2.2.symm⟩

end TimedEncoder

namespace Session

variable {fps : UInt32} {s s' : Session} {c : Callback} {cs : List Callback}

/-! ## What a callback does -/

/-- The sends leave everything else alone. -/
theorem deliver_keeps (h : s.deliver c = some s') :
    s'.encoder = s.encoder ∧ s'.configuredDims = s.configuredDims ∧ s'.inputs = s.inputs := by
  simp only [deliver] at h
  split at h
  · simp at h
  · obtain rfl := Option.some.inj h
    exact ⟨rfl, rfl, rfl⟩
  · obtain rfl := Option.some.inj h
    simp only [send]
    split_ifs <;> exact ⟨rfl, rfl, rfl⟩

/-- The encoder is fed nothing, or the converted frame with the next time. -/
theorem submit_cases (h : s.submit c = some s') :
    s'.configuredDims = s.configuredDims ∧
      ((s'.encoder = s.encoder ∧ s'.inputs = s.inputs) ∨
        ∃ bgra dst nv12, c.buffer = .ok bgra ∧
          usize (s.encoder.width.toNat * s.encoder.height.toNat * 4) ≤ bgra.length ∧
          dst.length = s.encoder.nv12Len ∧
          bgraToNv12 bgra s.encoder.width.toNat s.encoder.height.toNat dst = some nv12 ∧
          s'.inputs = s.inputs ++
            [{ time := s.encoder.nextPts, duration := s.encoder.frameDuration, nv12 }] ∧
          s'.encoder = { s.encoder with
            nextPts := saturatingAdd s.encoder.nextPts s.encoder.frameDuration }) := by
  simp only [submit] at h
  cases hbuffer : c.buffer with
  | error e =>
    simp only [hbuffer, Option.some.injEq] at h
    subst h
    exact ⟨rfl, .inl ⟨rfl, rfl⟩⟩
  | ok bgra =>
    simp only [hbuffer] at h
    have hfed : ∃ r fed encoder, s.encoder.submitFrame bgra c.media = some (r, fed, encoder) ∧
        s'.configuredDims = s.configuredDims ∧ s'.encoder = encoder ∧
        s'.inputs = s.inputs ++ fed := by
      split at h
      · simp at h
      · next hsubmit =>
        obtain rfl := Option.some.inj h
        exact ⟨_, _, _, hsubmit, rfl, rfl, rfl⟩
      · next hsubmit =>
        obtain ⟨hencoder, hdims, hinputs⟩ := deliver_keeps h
        exact ⟨_, _, _, hsubmit, hdims, hencoder, hinputs⟩
    obtain ⟨r, fed, encoder, hsubmit, hdims, rfl, hinputs⟩ := hfed
    refine ⟨hdims, ?_⟩
    rcases TimedEncoder.submitFrame_cases hsubmit with ⟨rfl, hkeep⟩ |
      ⟨dst, nv12, hsize, hdst, hnv12, rfl, hnext⟩
    · exact .inl ⟨hkeep, by simp [hinputs]⟩
    · exact .inr ⟨bgra, dst, nv12, rfl, hsize, hdst, hnv12, hinputs, hnext⟩

/-- The session with its encoder configured for a frame. -/
def configured (fps : UInt32) (s : Session) (c : Callback) : Session :=
  { s with
    encoder :=
      { transform := true
        width := roundUp c.width
        height := roundUp c.height
        frameDuration := durationOf fps
        nextPts := 0 }
    configuredDims := some (c.width, c.height) }

/-- Nothing happens, or a frame is submitted that is of the configured size, or the first
    one. -/
theorem step_cases (h : s.onFrameArrived fps c = some s') :
    s' = s ∨ (s.configuredDims = none ∧ (s.configured fps c).submit c = some s') ∨
      (s.configuredDims = some (c.width, c.height) ∧ s.submit c = some s') := by
  simp only [onFrameArrived] at h
  split_ifs at h
  · exact .inl (Option.some.inj h).symm
  · exact .inl (Option.some.inj h).symm
  · cases hdims : s.configuredDims with
    | none =>
      cases hcalls : c.configureCalls with
      | error err =>
        simp only [hdims, hcalls, TimedEncoder.configure, H264Encoder.configure,
          Option.some.injEq] at h
        exact .inl (by rw [← h, ← hdims])
      | ok u =>
        simp only [hdims, hcalls, TimedEncoder.configure, H264Encoder.configure] at h
        exact .inr (.inl ⟨rfl, h⟩)
    | some dims =>
      obtain ⟨cw, ch⟩ := dims
      simp only [hdims] at h
      split_ifs at h with hsize
      · exact .inl (Option.some.inj h).symm
      · simp only [ne_eq, not_or, not_not] at hsize
        exact .inr (.inr ⟨by rw [hsize.1, hsize.2], h⟩)

/-- A submission is no matter of sizes. -/
theorem handler_submit (h : s.submit c = some s') : s'.handler = s.handler := by
  obtain ⟨hdims, ⟨hencoder, -⟩ | ⟨_, _, _, -, -, -, -, -, hencoder⟩⟩ := submit_cases h
  · rw [handler, handler, hdims, hencoder]
  · rw [handler, handler, hdims, hencoder]

/-- The session goes through the sizes that the handler goes through. -/
theorem handler_step (h : s.onFrameArrived fps c = some s') :
    (s.handler.onFrameArrived c.arrival).2 = s'.handler := by
  simp only [onFrameArrived] at h
  simp only [ScreenshareHandler.onFrameArrived, Callback.arrival, handler]
  by_cases hdown : c.shutdown = true
  · simp only [hdown, if_true, Option.some.injEq] at h ⊢
    rw [← h]
  by_cases hrebuild : c.needsRebuild = true
  · simp only [hdown, hrebuild, if_true, ite_self, Option.some.injEq] at h ⊢
    rw [← h]
  simp only [hdown, hrebuild, Bool.false_eq_true, if_false] at h ⊢
  cases hdims : s.configuredDims with
  | none =>
    cases hcalls : c.configureCalls with
    | error err =>
      simp only [hdims, hcalls, TimedEncoder.configure, H264Encoder.configure,
        Option.some.injEq] at h ⊢
      rw [← h]
    | ok u =>
      simp only [hdims, hcalls, TimedEncoder.configure, H264Encoder.configure] at h ⊢
      exact (handler_submit h).symm
  | some dims =>
    obtain ⟨cw, ch⟩ := dims
    simp only [hdims] at h ⊢
    split_ifs at h ⊢
    · rw [← Option.some.inj h, ← hdims]
    · have hkeep : s'.handler = s.handler := handler_submit h
      rw [← hdims]
      exact hkeep.symm

/-- In terms of sizes a session is the handler after the arrivals. -/
theorem handler_of_run (hrun : (machine fps).run (machine fps).init cs = some s) :
    s.handler = ScreenshareHandler.after (cs.map Callback.arrival) := by
  refine (machine fps).invariant_run (I := fun cs s =>
    s.handler = ScreenshareHandler.after (cs.map Callback.arrival)) rfl ?_ hrun
  intro cs s c s' _ ih hstep
  rw [← handler_step hstep, ih, ScreenshareHandler.after, ScreenshareHandler.after, List.map_append,
    List.foldl_append]
  rfl

/-! ## The samples the encoder is fed -/

/-- The sample is a frame of the size the encoder is configured for, converted. -/
structure IsPicture (dims : Option (UInt32 × UInt32)) (c : Callback) (x : InputSample) : Prop where
  size : dims = some (c.width, c.height)
  picture : ∃ bgra, c.buffer = .ok bgra ∧
    Converted bgra (roundUp c.width).toNat (roundUp c.height).toNat x.nv12

/-- The samples so far are some of the frames, in the order they came, with consecutive
    times. -/
structure Fed (fps : UInt32) (cs : List Callback) (s : Session) : Prop where
  unconfigured : s.configuredDims = none → s.inputs = []
  encoder : ∀ w h, s.configuredDims = some (w, h) →
    s.encoder =
      { transform := true
        width := roundUp w
        height := roundUp h
        frameDuration := durationOf fps
        nextPts := mediaTime (durationOf fps) s.inputs.length }
  times : ∀ k x, s.inputs[k]? = some x →
    x.time = mediaTime (durationOf fps) k ∧ x.duration = durationOf fps
  pictures : ∃ frames, List.Sublist frames cs ∧ List.Forall₂ (IsPicture s.configuredDims) frames s.inputs

theorem fed_new (fps : UInt32) : Fed fps [] new where
  unconfigured := fun _ => rfl
  encoder := by simp [new]
  times := by simp [new]
  pictures := ⟨[], .slnil, .nil⟩

/-- The encoder is configured before it is fed. -/
theorem Fed.configured (h : Fed fps cs s) (hdims : s.configuredDims = none) :
    Fed fps cs (s.configured fps c) where
  unconfigured := by simp [Session.configured]
  encoder := by
    intro w h' heq
    simp only [Session.configured, Option.some.injEq, Prod.mk.injEq] at heq
    obtain ⟨rfl, rfl⟩ := heq
    simp [Session.configured, h.unconfigured hdims, mediaTime]
  times := h.times
  pictures := by
    refine ⟨[], List.nil_sublist _, ?_⟩
    have hempty : (s.configured fps c).inputs = [] := h.unconfigured hdims
    rw [hempty]
    exact .nil

/-- What is converted for an encoder that has the rounded size of the frame. -/
theorem converted_of_submit {w h : UInt32} {bgra dst nv12 : Bytes} (hsmall : Small w h)
    (hsize : usize ((roundUp w).toNat * (roundUp h).toNat * 4) ≤ bgra.length)
    (hdst : dst.length = usize (usize ((roundUp w).toNat * (roundUp h).toNat) +
      usize ((roundUp w).toNat * (roundUp h).toNat) / 2))
    (hnv12 : bgraToNv12 bgra (roundUp w).toNat (roundUp h).toNat dst = some nv12) :
    Converted bgra (roundUp w).toNat (roundUp h).toNat nv12 := by
  have hw : (roundUp w).toNat = (w.toNat + 1) / 2 * 2 := roundUp_toNat hsmall.width
  have hh : (roundUp h).toNat = (h.toNat + 1) / 2 * 2 := roundUp_toNat hsmall.height
  have hbytes := hsmall.bytes
  rw [← hw, ← hh] at hbytes
  rw [usize, Nat.mod_eq_of_lt hbytes] at hsize
  have hluma : usize ((roundUp w).toNat * (roundUp h).toNat) =
      (roundUp w).toNat * (roundUp h).toNat := Nat.mod_eq_of_lt (by omega)
  have hall : dst.length = (roundUp w).toNat * (roundUp h).toNat +
      (roundUp w).toNat * (roundUp h).toNat / 2 := by
    rw [hdst, hluma]
    exact Nat.mod_eq_of_lt (by omega)
  obtain ⟨writes, out, -, -, hout, -, hconverted⟩ := @bgraToNv12_exact bgra dst _ _
    (by omega) (by omega) (by rw [Nat.mul_assoc]; omega) hall
  rw [hnv12, Option.some.injEq] at hout
  exact hout ▸ hconverted

theorem Fed.submit (hfed : Fed fps cs s) (hdims : s.configuredDims = some (c.width, c.height))
    (hsmall : Small c.width c.height) (h : s.submit c = some s') : Fed fps (cs ++ [c]) s' := by
  obtain ⟨hdims', hcases⟩ := submit_cases h
  obtain ⟨frames, hsub, hpictures⟩ := hfed.pictures
  have hencoder := hfed.encoder _ _ hdims
  rcases hcases with ⟨hkeep, hinputs⟩ |
    ⟨bgra, dst, nv12, hbuffer, hsize, hdst, hnv12, hinputs, hnext⟩
  · refine ⟨by simp [hdims', hdims], ?_, hinputs ▸ hfed.times, frames,
      hsub.trans (List.sublist_append_left _ _), ?_⟩
    · rw [hdims', hkeep, hinputs]
      exact hfed.encoder
    · rw [hdims', hinputs]
      exact hpictures
  · rw [hencoder] at hsize hdst hnv12 hinputs hnext
    refine ⟨by simp [hdims', hdims], ?_, ?_, frames ++ [c], hsub.append (.refl _), ?_⟩
    · intro w h heq
      rw [hdims', hdims, Option.some.injEq, Prod.mk.injEq] at heq
      obtain ⟨rfl, rfl⟩ := heq
      rw [hnext, hinputs]
      simp [saturatingAdd_mediaTime]
    · intro k x hx
      rw [hinputs] at hx
      rcases Nat.lt_trichotomy k s.inputs.length with hlt | rfl | hgt
      · rw [List.getElem?_append_left hlt] at hx
        exact hfed.times k x hx
      · rw [List.getElem?_concat_length, Option.some.injEq] at hx
        subst hx
        exact ⟨rfl, rfl⟩
      · rw [List.getElem?_eq_none (by simp; omega)] at hx
        simp at hx
    · rw [hdims', hinputs]
      refine List.rel_append hpictures (.cons ⟨hdims, bgra, hbuffer, ?_⟩ .nil)
      exact converted_of_submit hsmall hsize hdst hnv12

theorem Fed.step (hfed : Fed fps cs s) (hsmall : Small c.width c.height)
    (h : s.onFrameArrived fps c = some s') : Fed fps (cs ++ [c]) s' := by
  rcases step_cases h with rfl | ⟨hdims, h⟩ | ⟨hdims, h⟩
  · obtain ⟨frames, hsub, hpictures⟩ := hfed.pictures
    exact ⟨hfed.unconfigured, hfed.encoder, hfed.times, frames,
      hsub.trans (List.sublist_append_left _ _), hpictures⟩
  · exact (hfed.configured hdims).submit rfl hsmall h
  · exact hfed.submit hdims hsmall h

theorem fed_of_run (hsmall : ∀ c ∈ cs, Small c.width c.height)
    (hrun : (machine fps).run (machine fps).init cs = some s) : Fed fps cs s := by
  refine (machine fps).invariant_run (I := fun cs s =>
    (∀ c ∈ cs, Small c.width c.height) → Fed fps cs s) (fun _ => fed_new fps) ?_ hrun hsmall
  intro cs s c s' _ ih hstep hsmall
  exact (ih fun c hc => hsmall c (List.mem_append_left _ hc)).step (hsmall c (by simp)) hstep

theorem durationOf_pos (hfps : fps.toNat ≤ 10000000) : 0 < durationOf fps :=
  Nat.div_pos (max_le hfps (by decide)) (Nat.lt_of_lt_of_le Nat.one_pos (Nat.le_max_right _ _))

theorem mediaTime_lt {duration i j n : Nat} (hduration : 0 < duration) (hij : i < j) (hj : j < n)
    (hfits : n * duration < 2 ^ 63) : mediaTime duration i < mediaTime duration j := by
  have hlt : i * duration < j * duration := Nat.mul_lt_mul_of_pos_right hij hduration
  have hle : j * duration ≤ n * duration := Nat.mul_le_mul_right _ (Nat.le_of_lt hj)
  simp only [mediaTime]
  omega

/-- In every session the encoder is fed frames of the size it is configured for, converted,
    in the order they came, and with media times that only count them: a frame that is
    refused before `ProcessInput` uses none. The times grow as long as they fit and there is
    one for every frame of a second. -/
theorem samples_in_order (hsmall : ∀ c ∈ cs, Small c.width c.height)
    (hrun : (machine fps).run (machine fps).init cs = some s) :
    (∃ frames, List.Sublist frames cs ∧
      List.Forall₂ (IsPicture s.configuredDims) frames s.inputs) ∧
    (∀ k x, s.inputs[k]? = some x →
      x.time = mediaTime (durationOf fps) k ∧ x.duration = durationOf fps) ∧
    (fps.toNat ≤ 10000000 → s.inputs.length * durationOf fps < 2 ^ 63 →
      s.inputs.Pairwise fun x y => x.time < y.time) := by
  have hfed : Fed fps cs s := fed_of_run hsmall hrun
  refine ⟨hfed.pictures, hfed.times, fun hfps hfits => ?_⟩
  rw [List.pairwise_iff_getElem]
  intro i j hi hj hij
  obtain ⟨hitime, -⟩ := hfed.times i _ (List.getElem?_eq_getElem hi)
  obtain ⟨hjtime, -⟩ := hfed.times j _ (List.getElem?_eq_getElem hj)
  rw [hitime, hjtime]
  exact mediaTime_lt (durationOf_pos hfps) hij hj hfits

/-- A frame of two by two white pixels, for which MediaFoundation answers every call. -/
def whiteSquare (outputs : List ProcessOutput) : Callback where
  shutdown := false
  needsRebuild := false
  width := 2
  height := 2
  configureCalls := .ok ()
  buffer := .ok (List.replicate 16 0xff)
  media :=
    { memory := (firstFrame 2 2 []).submission.memory
      prepared := .ok ()
      processInput := fun _ => .ok () }
  outputs := outputs
  sender := true
  takes := 100

/-- Two frames, with another one between them that cannot be read. -/
def threeFrames : List Callback :=
  [whiteSquare [.needMoreInput], { whiteSquare [] with buffer := .error ⟨-1⟩ },
    whiteSquare [.needMoreInput]]

theorem samples_in_order_white :
    (∃ frames, List.Sublist frames threeFrames ∧
      List.Forall₂ (IsPicture (some (2, 2))) frames
        (((machine 30).run new threeFrames).getD new).inputs) ∧
    (∀ k x, (((machine 30).run new threeFrames).getD new).inputs[k]? = some x →
      x.time = mediaTime 333333 k ∧ x.duration = 333333) ∧
    ((30 : UInt32).toNat ≤ 10000000 → 2 * 333333 < 2 ^ 63 →
      (((machine 30).run new threeFrames).getD new).inputs.Pairwise fun x y => x.time < y.time) :=
  @samples_in_order 30 _ threeFrames
    (by simpa [threeFrames, whiteSquare] using ⟨by decide, by decide, by decide⟩)
    ((machine 30).run_getD threeFrames (by decide))

/-! ## What reaches the channel -/

/-- The frames of a sample of the encoder. -/
def framesOf (x : WallClock × Bytes) : List Bytes := sampleToAnnexb x.1 x.2

theorem drain_ok {outNals nals : List Bytes} {outputs : List ProcessOutput}
    (h : drain outNals outputs = some (.ok nals)) :
    nals = outNals ++ (samplesOf outputs).flatMap framesOf := by
  induction outputs generalizing outNals with
  | nil => simp [drain] at h
  | cons output outputs ih =>
    cases output with
    | sample wallUs bytes =>
      cases bytes with
      | none => simp [drain] at h
      | some bytes =>
        rw [ih h]
        simp [samplesOf, framesOf]
    | noSample => exact ih h
    | needMoreInput =>
      simp only [drain, Option.some.injEq, Except.ok.injEq] at h
      simp [samplesOf, h]
    | failed => simp [drain] at h

/-- Unless a send has failed, the channel has taken all that was drained. -/
def Complete (s : Session) : Prop := s.hungUp = false → s.sent = s.samples.flatMap framesOf

theorem Complete.deliver (hs : Complete s) (hsender : c.sender = true)
    (h : s.deliver c = some s') : Complete s' := by
  simp only [Session.deliver] at h
  split at h
  · simp at h
  · obtain rfl := Option.some.inj h
    exact hs
  · next nals hdrain =>
    obtain rfl := Option.some.inj h
    intro hup
    simp only [send, hsender, if_true, Bool.or_eq_false_iff, decide_eq_false_iff_not,
      Nat.not_lt] at hup ⊢
    rw [List.take_of_length_le hup.2, hs hup.1, drain_ok hdrain]
    simp

theorem Complete.submit (hs : Complete s) (hsender : c.sender = true)
    (h : s.submit c = some s') : Complete s' := by
  simp only [Session.submit] at h
  split at h
  · obtain rfl := Option.some.inj h
    exact hs
  · split at h
    · simp at h
    · obtain rfl := Option.some.inj h
      exact hs
    · exact Complete.deliver (by exact hs) hsender h

theorem Complete.step (hs : Complete s) (hsender : c.sender = true)
    (h : s.onFrameArrived fps c = some s') : Complete s' := by
  rcases step_cases h with rfl | ⟨-, h⟩ | ⟨-, h⟩
  · exact hs
  · exact Complete.submit (s := s.configured fps c) hs hsender h
  · exact hs.submit hsender h

theorem complete_of_run (hsender : ∀ c ∈ cs, c.sender = true)
    (hrun : (machine fps).run (machine fps).init cs = some s) : Complete s :=
  (machine fps).keeps_run (P := fun c => c.sender = true) (I := Complete)
    (fun _ _ _ hc hs hstep => hs.step hc hstep) hsender (fun _ => rfl) hrun

end Session

end XyzenRelay.Capture.Win
