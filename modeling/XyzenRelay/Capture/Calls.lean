-- SUMMARY: What each call of the macOS capturer answers and what it makes of the running capturer.
import XyzenRelay.Capture.Resolution

/-!
# What the calls do

A call of the C ABI either fails, or finds that there is nothing to do, or changes the
running capturer in one way of its own. `Called` lists these ways, so that an invariant
of the capturer is an invariant of each of them. The exception among the failures is a
size change that VideoToolbox refuses its session.
-/

namespace XyzenRelay.Capture.Mac

namespace MacCapturer

variable {s : MacCapturer × VideoToolbox} {c : MacCapturer}

/-! ## Changes -/

/-- The cap that `makeEncoder` sets, in bytes per second: one and a half times the bitrate. -/
def dataLimit (kbps : Int) : Int := ((kbps * 1000).tdiv 8 * 3).tdiv 2

/-- The session that `makeEncoder` makes. -/
def session (c : MacCapturer) (create : Creation) (id : SessionId) : VTCompressionSession where
  id := id
  width := c.width
  height := c.height
  averageBitRate := setProperty create.averageBitRate (c.currentBitrateKbps * 1000) none
  dataLimitBytes := setProperty create.dataRateLimits (dataLimit c.currentBitrateKbps) none
  expectedFrameRate := setProperty create.frameRate.expectedFrameRate c.fps none
  maxKeyFrameInterval := setProperty create.frameRate.maxKeyFrameInterval c.fps none

/-- With a session of its own making. -/
def encoding (c : MacCapturer) (create : Creation) (id : SessionId) : MacCapturer :=
  { c with encoder := some (c.session create id) }

/-- With a stream of the display. -/
def streaming (c : MacCapturer) (display : UInt32) : MacCapturer :=
  { c with
    currentDisplayId := display
    stream := some ⟨configuration c.width c.height c.fps, display⟩ }

def withDisplay (id : UInt32) (c : MacCapturer) : MacCapturer :=
  { c with
    stream := c.stream.map fun stream => { stream with displayId := id }
    currentDisplayId := id }

def withFps (fps : Int) (statuses : FrameRateStatuses) (c : MacCapturer) : MacCapturer :=
  { c with
    stream := c.stream.map fun stream =>
      { stream with configuration := configuration c.width c.height fps }
    encoder := c.encoder.map fun e => { e with
      expectedFrameRate := setProperty statuses.expectedFrameRate fps e.expectedFrameRate
      maxKeyFrameInterval := setProperty statuses.maxKeyFrameInterval fps e.maxKeyFrameInterval }
    fps }

def withBitrate (c : MacCapturer) (e : VTCompressionSession) (kbps : Int) : MacCapturer :=
  { c with
    encoder := some { e with averageBitRate := some (kbps * 1000) }
    currentBitrateKbps := kbps }

/-- Of a new size, and without an encoder as yet. -/
def withSize (c : MacCapturer) (width height : Int) : MacCapturer :=
  { c with
    stream := c.stream.map fun stream =>
      { stream with configuration := configuration width height c.fps }
    encoder := none
    width
    height }

/-! ## Methods -/

theorem makeEncoder_succeeded {create : Creation} (h : create.Succeeded) :
    makeEncoder create s =
      (.ok (), s.1.encoding create s.2.created, { s.2 with created := s.2.created + 1 }) :=
  if_pos h

/-- What comes of a method that waits for ScreenCaptureKit before it assigns anything. -/
inductive Outcome (s : MacCapturer × VideoToolbox) (same : Prop) (f : MacCapturer → MacCapturer) :
    Except NSError Unit × MacCapturer × VideoToolbox → Prop
  | same (h : same) : Outcome s same f (.ok (), s)
  | failed (e : NSError) : Outcome s same f (.error e, s)
  | changed : Outcome s same f (.ok (), f s.1, s.2)

theorem selectDisplay_outcome (id : UInt32) (content : Completion (Option (List UInt32)))
    (update : Completion Unit) :
    Outcome s (id = s.1.currentDisplayId) (withDisplay id) (selectDisplay id content update s) := by
  simp only [selectDisplay, bind_apply, get_apply]
  cases hstream : s.1.stream with
  | none => exact .failed _
  | some stream =>
    have hchanged : Outcome s (id = s.1.currentDisplayId) (withDisplay id)
        (.ok (), withDisplay id s.1, s.2) := .changed
    dsimp only
    split_ifs with hsame
    · exact .same hsame
    · simp only [fetchShareableContent, bind_apply, wait_apply]
      cases content.wait (macCapturerError (-2) "SCShareableContent timeout") with
      | error e => exact .failed e
      | ok displays =>
        cases displays with
        | none => exact .failed _
        | some displays =>
          simp only [pure_apply]
          by_cases hid : id ∈ displays
          · simp only [hid, if_true, bind_apply, wait_apply, modify_apply]
            cases update.wait (macCapturerError (-12) "updateContentFilter timeout") with
            | error e => exact .failed e
            | ok u => simpa [withDisplay, hstream] using hchanged
          · simp only [hid, if_false, bind_apply, throw_apply]
            exact .failed _

theorem setFps_outcome (fps : Int) (update : Completion Unit) (statuses : FrameRateStatuses) :
    Outcome s (fps = s.1.fps) (withFps fps statuses) (setFps fps update statuses s) := by
  simp only [setFps, bind_apply, get_apply]
  split_ifs with hsame
  · exact .same hsame
  · cases hstream : s.1.stream with
    | none => exact .failed _
    | some stream =>
      simp only [bind_apply, wait_apply, modify_apply]
      cases update.wait (macCapturerError (-21) "updateConfiguration timeout") with
      | error e => exact .failed e
      | ok u =>
        have hchanged : Outcome s (fps = s.1.fps) (withFps fps statuses)
            (.ok (), withFps fps statuses s.1, s.2) := .changed
        simpa [withFps, hstream] using hchanged

theorem bind_ok {α β : Type} {x : Method α} {f : α → Method β} {b : β}
    {s' : MacCapturer × VideoToolbox} (h : (x >>= f) s = (.ok b, s')) :
    ∃ a t, x s = (.ok a, t) ∧ f a t = (.ok b, s') := by
  rw [bind_apply] at h
  rcases hx : x s with ⟨e | a, t⟩
  · rw [hx] at h
    cases h
  · rw [hx] at h
    exact ⟨a, t, rfl, h⟩

theorem wait_ok {α : Type} {c : Completion α} {timeout : NSError} {a : α}
    {s' : MacCapturer × VideoToolbox} (h : wait c timeout s = (.ok a, s')) :
    c = .completed a none ∧ s' = s := by
  obtain ⟨hwait, rfl⟩ := Prod.mk.inj h
  rcases c with _ | ⟨result, _ | e⟩
  · cases hwait
  · cases hwait
    exact ⟨rfl, rfl⟩
  · cases hwait

theorem fetchShareableContent_ok {content : Completion (Option (List UInt32))}
    {displays : List UInt32} {s' : MacCapturer × VideoToolbox}
    (h : fetchShareableContent content s = (.ok displays, s')) :
    content = .completed (some displays) none ∧ s' = s := by
  obtain ⟨result, t, hwait, h⟩ := bind_ok h
  obtain ⟨rfl, rfl⟩ := wait_ok hwait
  cases result with
  | none => cases h
  | some displays' =>
    obtain ⟨hdisplays, rfl⟩ := Prod.mk.inj h
    cases hdisplays
    exact ⟨rfl, rfl⟩

/-- A stream that has started shows the display that was picked. -/
theorem startCapture_ok {answers : StartAnswers} {c' : MacCapturer} {vt' : VideoToolbox}
    (h : startCapture answers s = (.ok (), c', vt')) :
    ∃ displays d, answers.content = .completed (some displays) none ∧
      s.1.pickDisplay displays = some d ∧ c' = s.1.streaming d := by
  obtain ⟨displays, t, hfetch, hstart⟩ := bind_ok h
  obtain ⟨hcontent, rfl⟩ := fetchShareableContent_ok hfetch
  cases hpick : t.1.pickDisplay displays with
  | none =>
    simp only [bind_apply, get_apply, hpick] at hstart
    cases hstart
  | some d =>
    simp only [bind_apply, get_apply, hpick, modify_apply] at hstart
    refine ⟨displays, d, hcontent, hpick, ?_⟩
    cases hadd : answers.addStreamOutput with
    | error e =>
      rw [hadd] at hstart
      cases hstart
    | ok u =>
      rw [hadd] at hstart
      obtain ⟨u, t', hwait, hset⟩ := bind_ok hstart
      obtain ⟨-, rfl⟩ := wait_ok hwait
      cases hset
      rfl

/-- A capturer that has started: the encoder first, then the stream. -/
theorem start_done {create : Creation} {answers : StartAnswers} {c' : MacCapturer}
    {vt' : VideoToolbox} (h : start create answers s = (.ok (), c', vt')) :
    ∃ displays d, answers.content = .completed (some displays) none ∧
      s.1.pickDisplay displays = some d ∧
      c' = (s.1.encoding create s.2.created).streaming d := by
  rw [start, bind_apply] at h
  by_cases hcreate : create.Succeeded
  · rw [makeEncoder_succeeded hcreate] at h
    exact startCapture_ok h
  · rw [makeEncoder_error hcreate] at h
    cases h

end MacCapturer

/-! ## Calls -/

open MacCapturer

/-- The capturer that `xz_capturer_start` starts. -/
def StartArgs.capturer (args : StartArgs) : MacCapturer :=
  .init args.width.toInt args.height.toInt args.fps.toInt args.bitrateKbps.toInt
    (if args.displayId = 0 then none else some args.displayId)

namespace Process

variable {p : Process} {c : MacCapturer}

/-- Why a call has failed, where it matters. -/
def Refused (p : Process) : Call → Prop
  | .setBitrate _ status => status = 0 → ∀ c ∈ p.sharedCapturer, c.encoder = none
  | .setResolution _ _ update _ => ∀ c ∈ p.sharedCapturer, c.stream.isSome → ¬ update.Done
  | _ => True

/-- What a call answers, and the capturer it leaves. -/
inductive Called (p : Process) : Call → Int → Option MacCapturer → Prop where
  | failed {a : Call} {code : Int} (hcode : code ≠ 0) (ha : p.Refused a) :
    Called p a code p.sharedCapturer
  | started {args : StartArgs} {create : Creation} {answers : StartAnswers}
    {displays : List UInt32} {d : UInt32} {id : SessionId}
    (hcontent : answers.content = .completed (some displays) none)
    (hpick : args.capturer.pickDisplay displays = some d) :
    Called p (.start args create answers) 0 (some ((args.capturer.encoding create id).streaming d))
  | sameDisplay {c : MacCapturer} {id : UInt32} {content : Completion (Option (List UInt32))}
    {update : Completion Unit} (hc : p.sharedCapturer = some c) (hsame : id = c.currentDisplayId) :
    Called p (.selectDisplay id content update) 0 (some c)
  | display {c : MacCapturer} {id : UInt32} {content : Completion (Option (List UInt32))}
    {update : Completion Unit} (hc : p.sharedCapturer = some c) :
    Called p (.selectDisplay id content update) 0 (some (c.withDisplay id))
  | bitrate {c : MacCapturer} {e : VTCompressionSession} {kbps : Int32}
    (hc : p.sharedCapturer = some c) (he : c.encoder = some e) :
    Called p (.setBitrate kbps 0) 0 (some (c.withBitrate e (clamp 100 100000 kbps)))
  | sameFps {c : MacCapturer} {fps : Int32} {update : Completion Unit}
    {statuses : FrameRateStatuses} (hc : p.sharedCapturer = some c)
    (hsame : clamp 5 120 fps = c.fps) :
    Called p (.setFps fps update statuses) 0 (some c)
  | fps {c : MacCapturer} {fps : Int32} {update : Completion Unit}
    {statuses : FrameRateStatuses} (hc : p.sharedCapturer = some c) :
    Called p (.setFps fps update statuses) 0 (some (c.withFps (clamp 5 120 fps) statuses))
  | sameSize {c : MacCapturer} {width height : Int32} {update : Completion Unit}
    {create : Creation} (hc : p.sharedCapturer = some c)
    (hsame : clamp 160 7680 width = c.width ∧ clamp 120 4320 height = c.height) :
    Called p (.setResolution width height update create) 0 (some c)
  | size {c : MacCapturer} {width height : Int32} {update : Completion Unit}
    {create : Creation} {id : SessionId} (hc : p.sharedCapturer = some c)
    (hsize : ¬ (clamp 160 7680 width = c.width ∧ clamp 120 4320 height = c.height))
    (hupdate : update.Done) (hcreate : create.Succeeded) :
    Called p (.setResolution width height update create) 0
      (some ((c.withSize (clamp 160 7680 width) (clamp 120 4320 height)).encoding create id))
  | lost {c : MacCapturer} {width height : Int32} {update : Completion Unit}
    {create : Creation} (hc : p.sharedCapturer = some c)
    (hsize : ¬ (clamp 160 7680 width = c.width ∧ clamp 120 4320 height = c.height))
    (hupdate : update.Done) (hcreate : ¬ create.Succeeded) :
    Called p (.setResolution width height update create) 2
      (some (c.withSize (clamp 160 7680 width) (clamp 120 4320 height)))

/-- A call of a method, on the running capturer. -/
theorem retune_eq (hc : p.sharedCapturer = some c) (m : Method Unit) :
    p.retune m = (if (m (c, p.videoToolbox)).1.isOk then 0 else 2,
      ⟨some (m (c, p.videoToolbox)).2.1, (m (c, p.videoToolbox)).2.2⟩) := by
  simp only [retune, hc]
  rcases m (c, p.videoToolbox) with ⟨e | u, c', vt⟩ <;> rfl

theorem retune_none (hc : p.sharedCapturer = none) (m : Method Unit) : p.retune m = (1, p) := by
  rw [retune, hc]

/-- A method that waits for ScreenCaptureKit first. -/
theorem called_retune {a : Call} {m : Method Unit} {same : MacCapturer → Prop}
    {f : MacCapturer → MacCapturer} (ha : p.Refused a)
    (hm : ∀ c, Outcome (c, p.videoToolbox) (same c) f (m (c, p.videoToolbox)))
    (hsame : ∀ c, p.sharedCapturer = some c → same c → Called p a 0 (some c))
    (hchanged : ∀ c, p.sharedCapturer = some c → Called p a 0 (some (f c))) :
    Called p a (p.retune m).1 (p.retune m).2.sharedCapturer := by
  cases hc : p.sharedCapturer with
  | none =>
    rw [retune_none hc]
    exact .failed Int.one_ne_zero ha
  | some c =>
    rw [retune_eq hc]
    have houtcome := hm c
    generalize m (c, p.videoToolbox) = r at houtcome
    cases houtcome with
    | same h => exact hsame c hc h
    | failed e =>
      have hfailed : Called p a 2 p.sharedCapturer := .failed (by decide) ha
      rwa [hc] at hfailed
    | changed => exact hchanged c hc

theorem called_start (args : StartArgs) (create : Creation) (answers : StartAnswers) :
    Called p (.start args create answers) (p.start args create answers).1
      (p.start args create answers).2.sharedCapturer := by
  simp only [Process.start]
  rcases hrun : MacCapturer.start create answers (args.capturer, p.videoToolbox) with
    ⟨e | u, c', vt⟩
  · simp only [StartArgs.capturer] at hrun
    rw [hrun]
    exact .failed Int.one_ne_zero trivial
  · obtain ⟨displays, d, hcontent, hpick, rfl⟩ := start_done hrun
    simp only [StartArgs.capturer] at hrun
    rw [hrun]
    exact .started hcontent hpick

theorem called_setBitrate (kbps : Int32) (status : Int) :
    Called p (.setBitrate kbps status) (p.setBitrate kbps status).1
      (p.setBitrate kbps status).2.sharedCapturer := by
  unfold Process.setBitrate
  split
  · next hc => exact .failed Int.one_ne_zero fun _ c hc' => by simp [hc] at hc'
  · next c hc =>
    split
    · next he =>
      refine .failed Int.one_ne_zero fun _ c' hc' => ?_
      obtain rfl := Option.some.inj (hc.symm.trans hc')
      exact he
    · next e he =>
      by_cases hstatus : status = 0
      · subst hstatus
        exact .bitrate hc he
      · simp only [if_pos hstatus, ne_eq]
        exact .failed (by decide) fun hzero => absurd hzero hstatus

theorem called_setResolution (width height : Int32) (update : Completion Unit)
    (create : Creation) :
    Called p (.setResolution width height update create)
      (p.setResolution width height update create).1
      (p.setResolution width height update create).2.sharedCapturer := by
  simp only [Process.setResolution]
  cases hc : p.sharedCapturer with
  | none =>
    rw [retune_none hc]
    exact .failed Int.one_ne_zero fun c hc' => by simp [hc] at hc'
  | some c =>
    rw [retune_eq hc]
    by_cases hsize : clamp 160 7680 width = c.width ∧ clamp 120 4320 height = c.height
    · rw [setResolution_same (s := (c, p.videoToolbox)) update create hsize]
      exact .sameSize hc hsize
    by_cases hdone : c.stream.isSome ∧ update.Done
    · obtain ⟨hsome, hupdate⟩ := hdone
      obtain ⟨stream, hstream⟩ := Option.isSome_iff_exists.mp hsome
      rw [setResolution_done (s := (c, p.videoToolbox)) create hsize hupdate hstream]
      have hgiven : (givenUp stream (clamp 160 7680 width) (clamp 120 4320 height)
          (c, p.videoToolbox)).1 =
            c.withSize (clamp 160 7680 width) (clamp 120 4320 height) := by
        simp [givenUp, withSize, hstream]
      by_cases hcreate : create.Succeeded
      · rw [makeEncoder_succeeded hcreate, hgiven]
        exact .size hc hsize hupdate hcreate
      · rw [makeEncoder_error hcreate]
        simp only [hgiven]
        exact .lost hc hsize hupdate hcreate
    · obtain ⟨e, hrun⟩ := setResolution_refused (s := (c, p.videoToolbox)) create hsize
        fun hsome hupdate => hdone ⟨hsome, hupdate⟩
      rw [hrun]
      have hfailed : Called p (.setResolution width height update create) 2 p.sharedCapturer := by
        refine .failed (by decide) fun c' hc' hsome hupdate => ?_
        obtain rfl := Option.some.inj (hc.symm.trans hc')
        exact hdone ⟨hsome, hupdate⟩
      rwa [hc] at hfailed

theorem called (p : Process) (a : Call) : Called p a (p.call a).1 (p.call a).2.sharedCapturer := by
  cases a with
  | start args create answers => exact called_start args create answers
  | setBitrate kbps status => exact called_setBitrate kbps status
  | setResolution width height update create =>
    exact called_setResolution width height update create
  | selectDisplay displayId content update =>
    exact called_retune trivial (fun c => selectDisplay_outcome displayId content update)
      (fun c hc hsame => .sameDisplay hc hsame) fun c hc => .display hc
  | setFps fps update statuses =>
    exact called_retune trivial (fun c => setFps_outcome _ update statuses)
      (fun c hc hsame => .sameFps hc hsame) fun c hc => .fps hc

end Process

end XyzenRelay.Capture.Mac
