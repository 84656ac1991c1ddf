-- SUMMARY: The getters of the macOS capturer: what they report of its stream and encoder, and that a call that returns 0 reads back.
import XyzenRelay.Capture.Calls
import Mathlib.Algebra.Group.Int.Defs
import Mathlib.Algebra.Group.Nat.Defs

/-!
# Reading the controls back

Model of the getters in `crates/mac-capturer/swift/MacCapturer.swift` and of their
wrappers in `crates/mac-capturer/src/lib.rs`. They read what the capturer has assigned,
and ask neither ScreenCaptureKit nor VideoToolbox. `none` is a trap of Swift's `Int32(_:)`.
-/

namespace XyzenRelay.Capture.Mac

/-- The range of Swift's `Int32`. -/
def InInt32 (n : Int) : Prop := -2 ^ 31 ≤ n ∧ n < 2 ^ 31

instance (n : Int) : Decidable (InInt32 n) := inferInstanceAs (Decidable (_ ∧ _))

/-- `Int32(n)`. -/
def int32 (n : Int) : Option Int32 := if InInt32 n then some (.ofInt n) else none

/-- What a wrapper makes of a value that is not to be negative. -/
def orZero (v : Int32) : UInt32 := if v < 0 then 0 else v.toUInt32

namespace Process

/-- `xz_capturer_active_display_id`. -/
def activeDisplayId (p : Process) : UInt32 := (p.sharedCapturer.map (·.currentDisplayId)).getD 0

/-- `xz_capturer_bitrate_kbps` and `bitrate_kbps`. -/
def bitrateKbps (p : Process) : Option UInt32 :=
  (int32 ((p.sharedCapturer.map (·.currentBitrateKbps)).getD 0)).map orZero

/-- `xz_capturer_fps` and `fps`. -/
def fps (p : Process) : Option UInt32 :=
  (int32 ((p.sharedCapturer.map (·.fps)).getD 0)).map orZero

/-- `xz_capturer_resolution`: the two halves of one value. -/
def packedResolution (p : Process) : Option Int32 :=
  match p.sharedCapturer with
  | none => some 0
  | some c => do
    let w ← int32 (min 0xFFFF c.width)
    let h ← int32 (min 0xFFFF c.height)
    return (w <<< 16) ||| h

/-- `resolution`. -/
def resolution (p : Process) : Option (UInt32 × UInt32) :=
  p.packedResolution.map fun v : Int32 =>
    if v ≤ 0 then (0, 0) else ((v.toUInt32 >>> 16) &&& 0xFFFF, v.toUInt32 &&& 0xFFFF)

end Process

/-! ## Numbers -/

theorem int32_eq {n : Int} (h : InInt32 n) : int32 n = some (.ofInt n) := if_pos h

theorem toInt_inInt32 (n : Int32) : InInt32 n.toInt :=
  ⟨n.minValue_le_toInt, n.toInt_lt⟩

theorem orZero_ofInt {n : Int} (h : InInt32 n) : orZero (.ofInt n) = .ofNat n.toNat := by
  have hlt : Int32.ofInt n < 0 ↔ n < 0 := by
    rw [Int32.lt_iff_toInt_lt, Int32.toInt_ofInt_of_le h.1 h.2]
    rfl
  by_cases hneg : n < 0
  · rw [orZero, if_pos (hlt.mpr hneg), Int.toNat_of_nonpos (Int.le_of_lt hneg)]
    rfl
  · obtain ⟨k, rfl⟩ := Int.eq_ofNat_of_zero_le (Int.not_lt.mp hneg)
    rw [orZero, if_neg (mt hlt.mp hneg), Int.toNat_natCast]
    exact Int32.toUInt32_ofNat'

theorem toNat_ofInt {n : Int} (h0 : 0 ≤ n) (h : n < 2 ^ 32) :
    (Int32.ofInt n).toUInt32.toNat = n.toNat := by
  obtain ⟨k, rfl⟩ := Int.eq_ofNat_of_zero_le h0
  have hofNat : (Int32.ofInt (k : Int)).toUInt32 = UInt32.ofNat k := Int32.toUInt32_ofNat'
  rw [hofNat, UInt32.toNat_ofNat']
  omega

theorem toNat_lt_of_pos {v : Int32} (h : 0 < v) : v.toUInt32.toNat < 2 ^ 31 := by
  rw [Int32.toNat_toUInt32_of_le (Int32.le_of_lt h)]
  exact v.toNatClampNeg_lt

theorem toNat_eq_zero {v : Int32} (h : v ≤ 0) (hlt : v.toUInt32.toNat < 2 ^ 31) :
    v.toUInt32.toNat = 0 := by
  have hint : v.toInt = v.toUInt32.toNat :=
    BitVec.toInt_eq_toNat_of_lt (by rw [Int32.toNat_toBitVec]; omega)
  rw [Int32.le_iff_toInt_le, hint] at h
  exact Int.ofNat_eq_zero.mp (Int.le_antisymm h (Int.natCast_nonneg _))

theorem toNat_high (u : UInt32) : ((u >>> 16) &&& 0xFFFF).toNat = u.toNat / 2 ^ 16 := by
  have hmask : (0xFFFF : UInt32).toNat = 2 ^ 16 - 1 := rfl
  have hshift : (16 : UInt32).toNat % 32 = 16 := rfl
  have hlt := u.toNat_lt
  rw [UInt32.toNat_and, UInt32.toNat_shiftRight, hmask, hshift, Nat.and_two_pow_sub_one_eq_mod,
    Nat.shiftRight_eq_div_pow]
  omega

theorem toNat_low (u : UInt32) : (u &&& 0xFFFF).toNat = u.toNat % 2 ^ 16 := by
  have hmask : (0xFFFF : UInt32).toNat = 2 ^ 16 - 1 := rfl
  rw [UInt32.toNat_and, hmask, Nat.and_two_pow_sub_one_eq_mod]

/-- The two halves side by side, if the upper one leaves the sign alone. -/
theorem toNat_packed {w h : Int} (hw : 0 ≤ w ∧ w < 2 ^ 15) (hh : 0 ≤ h ∧ h < 2 ^ 16) :
    ((Int32.ofInt w <<< 16) ||| Int32.ofInt h).toUInt32.toNat = w.toNat * 2 ^ 16 + h.toNat := by
  have hor : ((Int32.ofInt w <<< 16) ||| Int32.ofInt h).toUInt32 =
      ((Int32.ofInt w).toUInt32 <<< 16) ||| (Int32.ofInt h).toUInt32 := rfl
  have hshift : (16 : UInt32).toNat % 32 = 16 := rfl
  have hhigh : w.toNat * 2 ^ 16 % 2 ^ 32 = 2 ^ 16 * w.toNat := by omega
  rw [hor, UInt32.toNat_or, UInt32.toNat_shiftLeft, hshift, toNat_ofInt hw.1 (by omega),
    toNat_ofInt hh.1 (by omega), Nat.shiftLeft_eq, hhigh,
    ← Nat.two_pow_add_eq_or_of_lt (by omega : h.toNat < 2 ^ 16)]
  omega

namespace Process

variable {p : Process} {c : MacCapturer}

/-- A resolution is reported in any case, and it is the one that is set exactly if the width
    leaves the sign alone and the height fits into the lower half. -/
theorem resolution_exact (hc : p.sharedCapturer = some c) (hw : InInt32 c.width)
    (hh : InInt32 c.height) :
    ∃ w h, p.resolution = some (w, h) ∧
      (((w.toNat : Int) = c.width ∧ (h.toNat : Int) = c.height) ↔
        (0 ≤ c.width ∧ c.width < 2 ^ 15) ∧ 0 ≤ c.height ∧ c.height < 2 ^ 16) := by
  have hsmall {n : Int} (hn : InInt32 n) : InInt32 (min 0xFFFF n) := by
    simp only [InInt32] at *
    omega
  have hpacked : p.packedResolution =
      some ((Int32.ofInt (min 0xFFFF c.width) <<< 16) ||| Int32.ofInt (min 0xFFFF c.height)) := by
    simp [packedResolution, hc, int32_eq (hsmall hw), int32_eq (hsmall hh)]
  rw [resolution, hpacked, Option.map_some]
  generalize hv : (Int32.ofInt (min 0xFFFF c.width) <<< 16) |||
    Int32.ofInt (min 0xFFFF c.height) = v
  -- in range, the value is that of the two halves
  have hvalue (hwidth : 0 ≤ c.width ∧ c.width < 2 ^ 15) (hheight : 0 ≤ c.height ∧ c.height < 2 ^ 16) :
      v.toUInt32.toNat = c.width.toNat * 2 ^ 16 + c.height.toNat := by
    rw [Int.min_eq_right (by omega), Int.min_eq_right (by omega)] at hv
    rw [← hv, toNat_packed hwidth hheight]
  by_cases hpos : v ≤ 0
  · refine ⟨0, 0, congrArg some (if_pos hpos), fun hread => ?_, fun hrange => ?_⟩
    · simp only [UInt32.toNat_zero] at hread
      omega
    · have hpair := hvalue hrange.1 hrange.2
      have hzero := toNat_eq_zero hpos (by omega)
      simp only [UInt32.toNat_zero]
      omega
  · refine ⟨_, _, congrArg some (if_neg hpos), fun hread => ?_, fun hrange => ?_⟩
    · have hlt := toNat_lt_of_pos (Int32.not_le.mp hpos)
      rw [toNat_high, toNat_low] at hread
      omega
    · have hpair := hvalue hrange.1 hrange.2
      rw [toNat_high, toNat_low]
      omega

theorem resolution_eq (hc : p.sharedCapturer = some c) (hw : 0 ≤ c.width ∧ c.width < 2 ^ 15)
    (hh : 0 ≤ c.height ∧ c.height < 2 ^ 16) :
    p.resolution = some (.ofNat c.width.toNat, .ofNat c.height.toNat) := by
  obtain ⟨w, h, hread, hiff⟩ := resolution_exact hc (by simp only [InInt32]; omega)
    (by simp only [InInt32]; omega)
  obtain ⟨hwidth, hheight⟩ := hiff.mpr ⟨hw, hh⟩
  rw [hread, ← hwidth, ← hheight]
  simp

theorem fps_eq (hc : p.sharedCapturer = some c) (h : InInt32 c.fps) :
    p.fps = some (.ofNat c.fps.toNat) := by
  simp [Process.fps, hc, int32_eq h, orZero_ofInt h]

theorem bitrateKbps_eq (hc : p.sharedCapturer = some c) (h : InInt32 c.currentBitrateKbps) :
    p.bitrateKbps = some (.ofNat c.currentBitrateKbps.toNat) := by
  simp [bitrateKbps, hc, int32_eq h, orZero_ofInt h]

theorem activeDisplayId_eq (hc : p.sharedCapturer = some c) :
    p.activeDisplayId = c.currentDisplayId := by
  simp [activeDisplayId, hc]

end Process

/-! ## What the capturer has set -/

namespace MacCapturer

variable {c : MacCapturer}

/-- The stream was last set to what the capturer says, all of which is an `Int32`, and the
    encoder has its size and aims at its bitrate, if it has ever taken one. -/
structure Agrees (c : MacCapturer) : Prop where
  stream : c.stream = some ⟨configuration c.width c.height c.fps, c.currentDisplayId⟩
  encoder : ∀ e ∈ c.encoder, e.width = c.width ∧ e.height = c.height ∧
    ∀ rate ∈ e.averageBitRate, rate = c.currentBitrateKbps * 1000
  width : InInt32 c.width
  height : InInt32 c.height
  fps : InInt32 c.fps
  bitrate : InInt32 c.currentBitrateKbps

/-- The encoder was last set to the bitrate and the frame rate the capturer says. -/
def InStep (c : MacCapturer) : Prop :=
  ∀ e ∈ c.encoder, e.averageBitRate = some (c.currentBitrateKbps * 1000) ∧
    e.expectedFrameRate = some c.fps ∧ e.maxKeyFrameInterval = some c.fps

theorem session_rate (c : MacCapturer) (create : Creation) (id : SessionId) {rate : Int}
    (h : rate ∈ (c.session create id).averageBitRate) : rate = c.currentBitrateKbps * 1000 := by
  simp only [session, setProperty, Option.mem_def, Option.ite_none_right_eq_some] at h
  exact (Option.some.inj h.2).symm

theorem Agrees.streaming {create : Creation} {id : SessionId} (display : UInt32)
    (hw : InInt32 c.width) (hh : InInt32 c.height) (hfps : InInt32 c.fps)
    (hrate : InInt32 c.currentBitrateKbps) : ((c.encoding create id).streaming display).Agrees where
  stream := rfl
  encoder := by
    intro e he
    obtain rfl := Option.some.inj he
    exact ⟨rfl, rfl, fun _ => session_rate c create id⟩
  width := hw
  height := hh
  fps := hfps
  bitrate := hrate

theorem Agrees.withDisplay (hc : c.Agrees) (id : UInt32) : (c.withDisplay id).Agrees where
  stream := by simp [MacCapturer.withDisplay, hc.stream]
  encoder := hc.encoder
  width := hc.width
  height := hc.height
  fps := hc.fps
  bitrate := hc.bitrate

theorem Agrees.withFps (hc : c.Agrees) {fps : Int} (statuses : FrameRateStatuses)
    (hfps : InInt32 fps) : (c.withFps fps statuses).Agrees where
  stream := by simp [MacCapturer.withFps, hc.stream]
  encoder := by
    intro e' he'
    obtain ⟨e, he, rfl⟩ := Option.map_eq_some_iff.mp he'
    exact hc.encoder e he
  width := hc.width
  height := hc.height
  fps := hfps
  bitrate := hc.bitrate

theorem Agrees.withBitrate (hc : c.Agrees) {e : VTCompressionSession} (he : e ∈ c.encoder)
    {kbps : Int} (hkbps : InInt32 kbps) : (c.withBitrate e kbps).Agrees where
  stream := hc.stream
  encoder := by
    intro e' he'
    obtain rfl := Option.some.inj he'
    obtain ⟨hw, hh, -⟩ := hc.encoder e he
    exact ⟨hw, hh, fun rate hrate => (Option.some.inj hrate).symm⟩
  width := hc.width
  height := hc.height
  fps := hc.fps
  bitrate := hkbps

theorem Agrees.withSize (hc : c.Agrees) {width height : Int} (hw : InInt32 width)
    (hh : InInt32 height) : (c.withSize width height).Agrees where
  stream := by simp [MacCapturer.withSize, hc.stream]
  encoder e he := by cases he
  width := hw
  height := hh
  fps := hc.fps
  bitrate := hc.bitrate

theorem Agrees.encoding (hc : c.Agrees) (create : Creation) (id : SessionId) :
    (c.encoding create id).Agrees where
  stream := hc.stream
  encoder := by
    intro e he
    obtain rfl := Option.some.inj he
    exact ⟨rfl, rfl, fun _ => session_rate c create id⟩
  width := hc.width
  height := hc.height
  fps := hc.fps
  bitrate := hc.bitrate

theorem encoding_inStep (c : MacCapturer) {create : Creation} (id : SessionId)
    (h : create.averageBitRate = 0 ∧ create.frameRate = ⟨0, 0⟩) : (c.encoding create id).InStep := by
  intro e he
  obtain rfl := Option.some.inj he
  simp [session, setProperty, encoding, h.1, h.2]

end MacCapturer

open MacCapturer

/-- Every property that a call sets is taken. -/
def Call.Taken : Call → Prop
  | .start _ create _ | .setResolution _ _ _ create =>
    create.averageBitRate = 0 ∧ create.frameRate = ⟨0, 0⟩
  | .setFps _ _ statuses => statuses = ⟨0, 0⟩
  | .selectDisplay _ _ _ | .setBitrate _ _ => True

namespace Process

variable {p : Process} {c : MacCapturer}

/-- The running capturer has set its stream and encoder to what it says. -/
def Agrees (p : Process) : Prop := ∀ c ∈ p.sharedCapturer, c.Agrees

def InStep (p : Process) : Prop := ∀ c ∈ p.sharedCapturer, c.InStep

theorem inInt32_clamp {low high : Int} (hlow : -2 ^ 31 ≤ low) (hrange : low ≤ high)
    (hhigh : high < 2 ^ 31) (n : Int32) : InInt32 (clamp low high n) := by
  simp only [InInt32, clamp]
  omega

theorem Agrees.call (hp : p.Agrees) (a : Call) : (p.call a).2.Agrees := by
  have hcalled := p.called a
  unfold Agrees
  generalize (p.call a).1 = code, (p.call a).2.sharedCapturer = shared at hcalled
  intro c' hc'
  cases hcalled with
  | failed => exact hp c' hc'
  | started =>
    obtain rfl := Option.some.inj hc'
    exact .streaming _ (toInt_inInt32 _) (toInt_inInt32 _) (toInt_inInt32 _) (toInt_inInt32 _)
  | sameDisplay hc | sameFps hc | sameSize hc =>
    obtain rfl := Option.some.inj hc'
    exact hp _ hc
  | display hc =>
    obtain rfl := Option.some.inj hc'
    exact (hp _ hc).withDisplay _
  | bitrate hc he =>
    obtain rfl := Option.some.inj hc'
    exact (hp _ hc).withBitrate he (inInt32_clamp (by decide) (by decide) (by decide) _)
  | fps hc =>
    obtain rfl := Option.some.inj hc'
    exact (hp _ hc).withFps _ (inInt32_clamp (by decide) (by decide) (by decide) _)
  | size hc =>
    obtain rfl := Option.some.inj hc'
    exact ((hp _ hc).withSize (inInt32_clamp (by decide) (by decide) (by decide) _)
      (inInt32_clamp (by decide) (by decide) (by decide) _)).encoding _ _
  | lost hc =>
    obtain rfl := Option.some.inj hc'
    exact (hp _ hc).withSize (inInt32_clamp (by decide) (by decide) (by decide) _)
      (inInt32_clamp (by decide) (by decide) (by decide) _)

theorem InStep.call (hp : p.InStep) {a : Call} (ha : a.Taken) : (p.call a).2.InStep := by
  have hcalled := p.called a
  unfold InStep
  generalize (p.call a).1 = code, (p.call a).2.sharedCapturer = shared at hcalled
  intro c' hc'
  cases hcalled with
  | failed => exact hp c' hc'
  | started =>
    obtain rfl := Option.some.inj hc'
    exact encoding_inStep _ _ ha
  | sameDisplay hc | sameFps hc | sameSize hc =>
    obtain rfl := Option.some.inj hc'
    exact hp _ hc
  | @display c _ _ _ hc =>
    obtain rfl := Option.some.inj hc'
    exact hp c hc
  | bitrate hc he =>
    obtain rfl := Option.some.inj hc'
    intro e' he'
    obtain rfl := Option.some.inj he'
    obtain ⟨-, hfps, hkey⟩ := hp _ hc _ he
    exact ⟨rfl, hfps, hkey⟩
  | fps hc =>
    obtain rfl := Option.some.inj hc'
    intro e' he'
    obtain ⟨e, he, rfl⟩ := Option.map_eq_some_iff.mp he'
    obtain ⟨hrate, -, -⟩ := hp _ hc _ he
    obtain rfl : _ = (⟨0, 0⟩ : FrameRateStatuses) := ha
    exact ⟨hrate, rfl, rfl⟩
  | size hc =>
    obtain rfl := Option.some.inj hc'
    exact encoding_inStep _ _ ha
  | lost hc =>
    obtain rfl := Option.some.inj hc'
    exact fun e he => by cases he

theorem agrees_visits (calls : List Call) : ∀ p ∈ machine.visits machine.init calls, p.Agrees :=
  (machine.meets_true machine.init calls).visits machine
    (fun p a p' hp _ hstep => Option.some.inj hstep ▸ Agrees.call hp a) (fun c hc => by cases hc)

theorem inStep_visits {calls : List Call} (h : ∀ a ∈ calls, a.Taken) :
    ∀ p ∈ machine.visits machine.init calls, p.InStep :=
  (machine.meets_of_forall h).visits machine
    (fun p a p' hp ha hstep => Option.some.inj hstep ▸ InStep.call hp ha) (fun c hc => by cases hc)

/-! ## What is read -/

/-- What the getters report of a capturer with a stream. -/
structure Reads (p : Process) (c : MacCapturer) (stream : SCStream) : Prop where
  display : p.activeDisplayId = stream.displayId
  fps : ∃ v, p.fps = some v ∧ (v.toNat : Int) = max 0 stream.configuration.fps
  bitrate : ∃ v, p.bitrateKbps = some v ∧ (v.toNat : Int) = max 0 c.currentBitrateKbps
  resolution : ∃ w h, p.resolution = some (w, h) ∧
    (((w.toNat : Int) = stream.configuration.width ∧
        (h.toNat : Int) = stream.configuration.height) ↔
      (0 ≤ stream.configuration.width ∧ stream.configuration.width < 2 ^ 15) ∧
        0 ≤ stream.configuration.height ∧ stream.configuration.height < 2 ^ 16)
  encoder : ∀ e ∈ c.encoder, e.width = stream.configuration.width ∧
    e.height = stream.configuration.height ∧
      ∀ rate ∈ e.averageBitRate, rate = c.currentBitrateKbps * 1000

theorem toNat_reported {n : Int} (h : InInt32 n) : ((UInt32.ofNat n.toNat).toNat : Int) = max 0 n := by
  have hlt : n.toNat < 2 ^ 32 := by
    simp only [InInt32] at h
    omega
  rw [UInt32.toNat_ofNat', Nat.mod_eq_of_lt hlt]
  omega

/-- In every state between the calls, the getters report what the stream was last set to, and
    the bitrate and the size of the encoder: the bitrate if the encoder has taken it, the
    resolution if its width leaves the sign of the packed value alone and its height fits.
    They report zeros before the first start, and never trap. Where no property is refused,
    the encoder has the bitrate and the frame rate that are reported. -/
theorem readings_true (calls : List Call) : ∀ p ∈ machine.visits machine.init calls,
    (p.sharedCapturer = none → p.activeDisplayId = 0 ∧ p.bitrateKbps = some 0 ∧ p.fps = some 0 ∧
      p.resolution = some (0, 0)) ∧
    ∀ c ∈ p.sharedCapturer, ∃ stream ∈ c.stream, p.Reads c stream ∧
      ((∀ a ∈ calls, a.Taken) → ∀ e ∈ c.encoder,
        e.averageBitRate = some (c.currentBitrateKbps * 1000) ∧
          e.expectedFrameRate = some stream.configuration.fps ∧
          e.maxKeyFrameInterval = some stream.configuration.fps) := by
  intro p hp
  constructor
  · intro hnone
    simp only [activeDisplayId, bitrateKbps, fps, resolution, packedResolution, hnone]
    decide
  · intro c hc
    have hagrees := agrees_visits calls p hp c hc
    refine ⟨_, hagrees.stream, ⟨activeDisplayId_eq hc, ⟨_, fps_eq hc hagrees.fps,
      toNat_reported hagrees.fps⟩, ⟨_, bitrateKbps_eq hc hagrees.bitrate,
      toNat_reported hagrees.bitrate⟩, resolution_exact hc hagrees.width hagrees.height,
      hagrees.encoder⟩, fun htaken => inStep_visits htaken p hp c hc⟩

def started : Process := (machine.init.call startCall).2

theorem readings_true_started :
    (started.sharedCapturer = none → started.activeDisplayId = 0 ∧ started.bitrateKbps = some 0 ∧
      started.fps = some 0 ∧ started.resolution = some (0, 0)) ∧
    ∀ c ∈ started.sharedCapturer, ∃ stream ∈ c.stream, started.Reads c stream ∧
      ((∀ a ∈ [startCall], a.Taken) → ∀ e ∈ c.encoder,
        e.averageBitRate = some (c.currentBitrateKbps * 1000) ∧
          e.expectedFrameRate = some stream.configuration.fps ∧
          e.maxKeyFrameInterval = some stream.configuration.fps) :=
  readings_true [startCall] started (by simp [Machine.visits, machine, started])

example : started.resolution = some (1920, 1080) := by decide +kernel

/-! ## Reading back -/

/-- Everything there is to be read. -/
def readings (p : Process) :
    UInt32 × Option UInt32 × Option UInt32 × Option (UInt32 × UInt32) :=
  (p.activeDisplayId, p.bitrateKbps, p.fps, p.resolution)

/-- What the getters are to report once a call has returned 0. The display of a start is a
    preference, and its size is not clamped. -/
def ReadsBack (p : Process) : Call → Prop
  | .start args _ answers =>
    (∃ displays, answers.content = .completed (some displays) none ∧
      if args.displayId ≠ 0 ∧ args.displayId ∈ displays then p.activeDisplayId = args.displayId
      else displays.head? = some p.activeDisplayId) ∧
    p.bitrateKbps = some (orZero args.bitrateKbps) ∧ p.fps = some (orZero args.fps) ∧
      ∃ w h, p.resolution = some (w, h) ∧
        (((w.toNat : Int) = args.width.toInt ∧ (h.toNat : Int) = args.height.toInt) ↔
          (0 ≤ args.width.toInt ∧ args.width.toInt < 2 ^ 15) ∧
            0 ≤ args.height.toInt ∧ args.height.toInt < 2 ^ 16)
  | .selectDisplay id _ _ => p.activeDisplayId = id
  | .setBitrate kbps _ => p.bitrateKbps = some (.ofNat (clamp 100 100000 kbps).toNat)
  | .setFps fps _ _ => p.fps = some (.ofNat (clamp 5 120 fps).toNat)
  | .setResolution width height _ _ =>
    p.resolution =
      some (.ofNat (clamp 160 7680 width).toNat, .ofNat (clamp 120 4320 height).toNat)

/-- A call that returns 0 reads back, and one that fails leaves all readings alone. -/
def Faithful (p : Process) (a : Call) : Prop :=
  ((p.call a).1 = 0 → (p.call a).2.ReadsBack a) ∧
    ((p.call a).1 ≠ 0 → (p.call a).2.readings = p.readings)

theorem readings_congr {p' : Process} (h : p'.sharedCapturer = p.sharedCapturer) :
    p'.readings = p.readings := by
  simp [readings, activeDisplayId, bitrateKbps, fps, resolution, packedResolution, h]

theorem ofNat_toInt (n : Int32) : UInt32.ofNat n.toInt.toNat = orZero n := by
  rw [← orZero_ofInt (toInt_inInt32 n), Int32.ofInt_toInt]

theorem pickDisplay_capturer {args : StartArgs} {displays : List UInt32} {d : UInt32}
    (h : args.capturer.pickDisplay displays = some d) :
    if args.displayId ≠ 0 ∧ args.displayId ∈ displays then d = args.displayId
    else displays.head? = some d := by
  by_cases hzero : args.displayId = 0
  · rw [if_neg fun hlisted => hlisted.1 hzero]
    simpa [StartArgs.capturer, MacCapturer.init, pickDisplay, hzero] using h
  · by_cases hmem : args.displayId ∈ displays
    · rw [if_pos ⟨hzero, hmem⟩]
      simpa [StartArgs.capturer, MacCapturer.init, pickDisplay, hzero, hmem, eq_comm] using h
    · rw [if_neg fun hlisted => hmem hlisted.2]
      simpa [StartArgs.capturer, MacCapturer.init, pickDisplay, hzero, hmem] using h

theorem start_readsBack {args : StartArgs} {create : Creation} {answers : StartAnswers}
    {displays : List UInt32} {d : UInt32} {id : SessionId}
    (hcontent : answers.content = .completed (some displays) none)
    (hpick : args.capturer.pickDisplay displays = some d)
    (hc : p.sharedCapturer = some ((args.capturer.encoding create id).streaming d)) :
    p.ReadsBack (.start args create answers) := by
  refine ⟨⟨displays, hcontent, ?_⟩, ?_, ?_, ?_⟩
  · rw [activeDisplayId_eq hc]
    exact pickDisplay_capturer hpick
  · exact (bitrateKbps_eq hc (toInt_inInt32 _)).trans (congrArg some (ofNat_toInt _))
  · exact (fps_eq hc (toInt_inInt32 _)).trans (congrArg some (ofNat_toInt _))
  · exact resolution_exact hc (toInt_inInt32 _) (toInt_inInt32 _)

theorem setResolution_readsBack {width height : Int32} {update : Completion Unit}
    {create : Creation} (hc : p.sharedCapturer = some c)
    (hsize : clamp 160 7680 width = c.width ∧ clamp 120 4320 height = c.height) :
    p.ReadsBack (.setResolution width height update create) := by
  have hwidth : 0 ≤ clamp 160 7680 width ∧ clamp 160 7680 width < 2 ^ 15 := by
    simp only [clamp]
    omega
  have hheight : 0 ≤ clamp 120 4320 height ∧ clamp 120 4320 height < 2 ^ 16 := by
    simp only [clamp]
    omega
  rw [ReadsBack, hsize.1, hsize.2]
  exact resolution_eq hc (hsize.1 ▸ hwidth) (hsize.2 ▸ hheight)

theorem faithful (p : Process) {a : Call} (hgiven : p.SessionGiven a) : p.Faithful a := by
  have hcalled := p.called a
  unfold Faithful
  generalize p.call a = r at hcalled ⊢
  obtain ⟨code, p'⟩ := r
  generalize hshared : p'.sharedCapturer = shared at hcalled
  have hdone : ∀ {Q : Prop}, (0 : Int) ≠ 0 → Q := fun hne => absurd rfl hne
  cases hcalled with
  | failed hcode => exact ⟨fun hzero => absurd hzero hcode, fun _ => readings_congr hshared⟩
  | started hcontent hpick => exact ⟨fun _ => start_readsBack hcontent hpick hshared, hdone⟩
  | sameDisplay hc hsame =>
    exact ⟨fun _ => (activeDisplayId_eq hshared).trans hsame.symm, hdone⟩
  | display hc => exact ⟨fun _ => activeDisplayId_eq hshared, hdone⟩
  | bitrate hc he =>
    exact ⟨fun _ => bitrateKbps_eq hshared (inInt32_clamp (by decide) (by decide) (by decide) _),
      hdone⟩
  | @sameFps c fps _ _ hc hsame =>
    have hrange : InInt32 (clamp 5 120 fps) :=
      inInt32_clamp (by decide) (by decide) (by decide) fps
    refine ⟨fun _ => ?_, hdone⟩
    rw [ReadsBack, hsame]
    exact fps_eq hshared (hsame ▸ hrange)
  | fps hc =>
    exact ⟨fun _ => fps_eq hshared (inInt32_clamp (by decide) (by decide) (by decide) _), hdone⟩
  | sameSize hc hsame => exact ⟨fun _ => setResolution_readsBack hshared hsame, hdone⟩
  | size hc => exact ⟨fun _ => setResolution_readsBack hshared ⟨rfl, rfl⟩, hdone⟩
  | @lost c _ _ _ _ hc hsize hupdate hcreate =>
    exact absurd (hgiven c hc hsize hupdate) hcreate

/-- Throughout every run of calls, one that returns 0 reads back as it was clamped, and one
    that fails leaves every reading alone; except that a new resolution is reported although
    VideoToolbox refused the session for it. -/
theorem set_then_get (calls : List Call) :
    machine.Meets (fun p a => p.SessionGiven a → p.Faithful a) machine.init calls :=
  (machine.meets_true machine.init calls).imp machine (J := fun _ => True)
    (fun _ _ _ _ _ _ => trivial) (fun p _ _ _ => p.faithful) trivial

end Process

end XyzenRelay.Capture.Mac
