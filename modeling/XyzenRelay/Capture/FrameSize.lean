-- SUMMARY: From a frame's size to the encoder's: what the Windows capturer configures, and which sizes it can then submit.
import XyzenRelay.Capture.Nv12
import Mathlib.Data.Nat.Bitwise

/-!
# Frame sizes

Model of `H264Encoder::configure` and `submit_frame` in
`crates/win-capturer/src/encoder.rs` and of `ScreenshareHandler::on_frame_arrived` in
`publisher.rs`, as far as they read or write sizes and pixels. MediaFoundation and the
capture API are part of the environment: an arrival brings their answers.
-/

namespace XyzenRelay.Capture.Win

open Nv12

/-! ## The encoder -/

/-- `windows::core::Error`, which carries the code of the failed call. -/
structure HResult where
  code : Int
  deriving DecidableEq, Repr

/-- `encoder::Error`. -/
inductive Error where
  | mf (e : HResult)
  | notConfigured
  | noEncoderFound
  | inputBufferSize (got expected : Nat)
  deriving DecidableEq, Repr

structure H264Encoder where
  /-- Whether `transform` is `Some`. -/
  transform : Bool
  width : UInt32
  height : UInt32
  deriving DecidableEq, Repr

/-- The memory MediaFoundation hands out for a buffer of `n` bytes. -/
abbrev Memory (n : Nat) := { b : Bytes // b.length = n }

/-- What MediaFoundation answers to the calls of `submit_frame`: to the allocation of
    the buffer, and to everything behind the conversion. -/
structure Submission where
  memory : (n : UInt32) → Except HResult (Memory n.toNat)
  process : Bytes → Except HResult Unit

/-- Rounding up to an even number, on `u32`. -/
def roundUp (n : UInt32) : UInt32 := (n + 1) &&& ~~~1

/-- A product of sizes on `usize`. -/
def usize (n : Nat) : Nat := n % 2 ^ 64

namespace H264Encoder

def new : H264Encoder := { transform := false, width := 0, height := 0 }

/-- `configure`, with the error of the first call that fails, if any does. -/
def configure (e : H264Encoder) (width height : UInt32) (calls : Except Error Unit) :
    Except Error Unit × H264Encoder :=
  match calls with
  | .error err => (.error err, e)
  | .ok () => (.ok (), { transform := true, width := roundUp width, height := roundUp height })

/-- `nv12_len`. -/
def nv12Len (e : H264Encoder) : Nat :=
  usize (usize (e.width.toNat * e.height.toNat) + usize (e.width.toNat * e.height.toNat) / 2)

/-- `submit_frame`. `none` is a panic of the conversion, or a conversion into memory
    that is too small. -/
def submitFrame (e : H264Encoder) (bgra : Bytes) (mf : Submission) : Option (Except Error Unit) :=
  if !e.transform then some (.error .notConfigured)
  else
    let expected := usize (e.width.toNat * e.height.toNat * 4)
    if bgra.length < expected then some (.error (.inputBufferSize bgra.length expected))
    else
      match mf.memory (UInt32.ofNat e.nv12Len) with
      | .error err => some (.error (.mf err))
      | .ok mem =>
        if mem.val.length < e.nv12Len then none
        else
          match bgraToNv12 bgra e.width.toNat e.height.toNat (mem.val.take e.nv12Len) with
          | none => none
          | some nv12 => some ((mf.process nv12).mapError .mf)

end H264Encoder

/-! ## The handler -/

structure ScreenshareHandler where
  encoder : H264Encoder
  configuredDims : Option (UInt32 × UInt32)
  deriving DecidableEq, Repr

/-- A frame, and what else a call of `on_frame_arrived` is told. -/
structure Arrival where
  shutdown : Bool
  needsRebuild : Bool
  width : UInt32
  height : UInt32
  configureCalls : Except Error Unit
  /-- The tightly packed pixels, unless the capture API fails. -/
  buffer : Except HResult Bytes
  submission : Submission

/-- How a call of `on_frame_arrived` goes. -/
inductive Outcome where
  | stopped
  | rebuild
  | failed (e : Error)
  | submitted (r : Option (Except Error Unit))
  deriving DecidableEq

namespace ScreenshareHandler

def new : ScreenshareHandler := { encoder := .new, configuredDims := none }

/-- From `frame.buffer()` on. A frame that is not accepted is only logged. -/
def submit (s : ScreenshareHandler) (a : Arrival) : Outcome :=
  match a.buffer with
  | .error e => .failed (.mf e)
  | .ok bgra => .submitted (s.encoder.submitFrame bgra a.submission)

/-- `on_frame_arrived`. -/
def onFrameArrived (s : ScreenshareHandler) (a : Arrival) : Outcome × ScreenshareHandler :=
  if a.shutdown then (.stopped, s)
  else if a.needsRebuild then (.stopped, s)
  else
    match s.configuredDims with
    | none =>
      match s.encoder.configure a.width a.height a.configureCalls with
      | (.error e, encoder) => (.failed e, { s with encoder })
      | (.ok (), encoder) =>
        -- the dimensions that are remembered are the unrounded ones
        let s := { encoder, configuredDims := some (a.width, a.height) }
        (submit s a, s)
    | some (cw, ch) =>
      if a.width ≠ cw ∨ a.height ≠ ch then (.rebuild, s) else (submit s a, s)

/-- The handler of a session after some arrivals. -/
def after (arrivals : List Arrival) : ScreenshareHandler :=
  arrivals.foldl (fun s a => (s.onFrameArrived a).2) new

/-! ## The configured size -/

/-- The encoder has the rounded dimensions of the frame it was configured from. -/
def Inv (s : ScreenshareHandler) : Prop :=
  ∀ w h, s.configuredDims = some (w, h) →
    s.encoder = { transform := true, width := roundUp w, height := roundUp h }

theorem inv_onFrameArrived {s : ScreenshareHandler} (hs : Inv s) (a : Arrival) :
    Inv (s.onFrameArrived a).2 := by
  cases hdims : s.configuredDims with
  | some dims =>
    have hkeep : (s.onFrameArrived a).2 = s := by
      simp only [onFrameArrived, hdims]
      split_ifs <;> rfl
    rw [hkeep]
    exact hs
  | none =>
    simp only [onFrameArrived, hdims]
    split_ifs
    · exact hs
    · exact hs
    · cases a.configureCalls with
      | error e =>
        intro w h heq
        simp [H264Encoder.configure] at heq
      | ok u =>
        intro w h heq
        simp only [H264Encoder.configure, Option.some.injEq, Prod.mk.injEq] at heq
        obtain ⟨rfl, rfl⟩ := heq
        rfl

theorem inv_foldl {s : ScreenshareHandler} (hs : Inv s) (arrivals : List Arrival) :
    Inv (arrivals.foldl (fun s a => (s.onFrameArrived a).2) s) := by
  induction arrivals generalizing s with
  | nil => exact hs
  | cons a arrivals ih => exact ih (inv_onFrameArrived hs a)

theorem inv_after (arrivals : List Arrival) : Inv (after arrivals) :=
  inv_foldl (fun _ _ heq => by simp [new] at heq) arrivals

end ScreenshareHandler

/-! ## Rounding -/

/-- Clearing the lowest bit of a 32-bit number. -/
theorem and_not_one {n : Nat} (hn : n < 2 ^ 32) : n &&& (2 ^ 32 - 2) = n / 2 * 2 := by
  have hmask : 2 ^ 32 - 2 = (2 ^ 31 - 1) * 2 := by decide
  apply Nat.eq_of_testBit_eq
  intro i
  rw [hmask, Nat.testBit_and]
  cases i with
  | zero => simp
  | succ i =>
    rw [Nat.testBit_succ, Nat.testBit_succ, Nat.testBit_succ, Nat.mul_div_cancel _ (by decide),
      Nat.mul_div_cancel _ (by decide), Nat.testBit_two_pow_sub_one]
    by_cases hi : i < 31
    · simp [hi]
    · have hsmall : n / 2 < 2 ^ i :=
        Nat.lt_of_lt_of_le (by omega : n / 2 < 2 ^ 31) (Nat.pow_le_pow_right (by decide) (by omega))
      rw [Nat.testBit_lt_two_pow hsmall]
      simp

theorem roundUp_toNat {n : UInt32} (hn : n.toNat + 1 < 2 ^ 32) :
    (roundUp n).toNat = (n.toNat + 1) / 2 * 2 := by
  have hadd : (n + 1).toNat = n.toNat + 1 := by
    rw [UInt32.toNat_add]
    exact Nat.mod_eq_of_lt hn
  have hmask : (~~~(1 : UInt32)).toNat = 2 ^ 32 - 2 := by decide
  rw [roundUp, UInt32.toNat_and, hadd, hmask, and_not_one hn]

/-! ## Submission -/

/-- The sizes computed from the frame size do not overflow. -/
structure Small (w h : UInt32) : Prop where
  width : w.toNat + 1 < 2 ^ 32
  height : h.toNat + 1 < 2 ^ 32
  bytes : (w.toNat + 1) / 2 * 2 * ((h.toNat + 1) / 2 * 2) * 4 < 2 ^ 64

/-- A frame of `w` by `h` pixels can be submitted: it is not refused for its size, and
    converted into a buffer of the encoder's size it is read in range, with the luma of
    every pixel at its place. -/
structure Submittable (e : H264Encoder) (w h : Nat) (bgra : Bytes) : Prop where
  accepted : ∀ mf got expected,
    e.submitFrame bgra mf ≠ some (.error (.inputBufferSize got expected))
  converted : ∀ dst : Bytes, dst.length = e.nv12Len →
    ∃ out, bgraToNv12 bgra e.width.toNat e.height.toNat dst = some out ∧
      ∀ x < w, ∀ y < h, ∃ v : UInt8, out[y * e.width.toNat + x]? = some v ∧
        (v.toNat : Int) = (pixel bgra w x y).yVal + 16

theorem submitFrame_short {e : H264Encoder} {bgra : Bytes} (ht : e.transform = true)
    (h : bgra.length < usize (e.width.toNat * e.height.toNat * 4)) (mf : Submission) :
    e.submitFrame bgra mf = some (.error (.inputBufferSize bgra.length
      (usize (e.width.toNat * e.height.toNat * 4)))) := by
  simp [H264Encoder.submitFrame, ht, h]

/-- A buffer that is large enough is never refused for its size. -/
theorem submitFrame_accepts {e : H264Encoder} {bgra : Bytes}
    (h : usize (e.width.toNat * e.height.toNat * 4) ≤ bgra.length) (mf : Submission)
    (got expected : Nat) :
    e.submitFrame bgra mf ≠ some (.error (.inputBufferSize got expected)) := by
  have hlong : ¬ bgra.length < usize (e.width.toNat * e.height.toNat * 4) := by omega
  simp only [H264Encoder.submitFrame, hlong, if_false]
  split_ifs
  · simp
  · cases mf.memory (UInt32.ofNat e.nv12Len) with
    | error err => simp
    | ok mem =>
      dsimp only
      split_ifs
      · simp
      · cases bgraToNv12 bgra e.width.toNat e.height.toNat (mem.val.take e.nv12Len) with
        | none => simp
        | some nv12 =>
          dsimp only
          cases mf.process nv12 <;> simp [Except.mapError]

/-- Rounding an odd dimension up adds pixels. -/
theorem lt_rounded {w h : Nat} (hw : 1 ≤ w) (hh : 1 ≤ h) (hodd : ¬ (w % 2 = 0 ∧ h % 2 = 0)) :
    w * h < (w + 1) / 2 * 2 * ((h + 1) / 2 * 2) := by
  have hwle : w ≤ (w + 1) / 2 * 2 := by omega
  have hhle : h ≤ (h + 1) / 2 * 2 := by omega
  rcases Nat.lt_or_ge w ((w + 1) / 2 * 2) with hlt | hge
  · exact Nat.mul_lt_mul_of_lt_of_le hlt hhle (by omega)
  · exact Nat.mul_lt_mul_of_le_of_lt hwle (by omega) (by omega)

/-- Whatever the handler has been through: a frame of the size it is configured for can
    be submitted exactly if both of its dimensions are even. -/
theorem submittable_iff {arrivals : List Arrival} {w h : UInt32} {bgra : Bytes}
    (hdims : (ScreenshareHandler.after arrivals).configuredDims = some (w, h))
    (hw : 1 ≤ w.toNat) (hh : 1 ≤ h.toNat) (hsmall : Small w h)
    (hlen : bgra.length = w.toNat * h.toNat * 4) :
    Submittable (ScreenshareHandler.after arrivals).encoder w.toNat h.toNat bgra ↔
      w.toNat % 2 = 0 ∧ h.toNat % 2 = 0 := by
  rw [ScreenshareHandler.inv_after arrivals w h hdims]
  have hround := roundUp_toNat hsmall.width
  have hround' := roundUp_toNat hsmall.height
  have hsize : usize ((roundUp w).toNat * (roundUp h).toNat * 4) =
      (roundUp w).toNat * (roundUp h).toNat * 4 := by
    rw [hround, hround']
    exact Nat.mod_eq_of_lt hsmall.bytes
  constructor
  · intro hsub
    by_contra hodd
    -- the rounded size has more pixels than the frame
    have hmore : w.toNat * h.toNat < (roundUp w).toNat * (roundUp h).toNat := by
      rw [hround, hround']
      exact lt_rounded hw hh hodd
    have hrefused := @submitFrame_short
      { transform := true, width := roundUp w, height := roundUp h } bgra rfl
      (by rw [hsize, hlen]; omega)
    exact hsub.accepted ⟨fun _ => .error ⟨0⟩, fun _ => .ok ()⟩ _ _ (hrefused _)
  · rintro ⟨hweven, hheven⟩
    have hweq : (roundUp w).toNat = w.toNat := by omega
    have hheq : (roundUp h).toNat = h.toNat := by omega
    rw [hweq, hheq] at hsize
    constructor
    · apply submitFrame_accepts
      simp only [hweq, hheq]
      rw [hsize, hlen]
    · intro dst hdst
      simp only [hweq, hheq]
      have hnv12 : dst.length = w.toNat * h.toNat + w.toNat * h.toNat / 2 := by
        rw [hdst, H264Encoder.nv12Len]
        simp only [hweq, hheq]
        rw [usize, Nat.mod_eq_iff_lt (by decide)] at hsize
        simp only [usize]
        omega
      obtain ⟨hpos, hconvert⟩ := @bgraToNv12_eq bgra dst w.toNat h.toNat
        (w.toNat / 2) (h.toNat / 2) (by omega) (by omega)
        (by rw [Nat.mul_assoc, hlen]; omega) hnv12
      refine ⟨_, hconvert, fun x hx y hy => ⟨lumaByte bgra w.toNat x y, ?_, ?_⟩⟩
      · exact Stores.getElem?_of_store hpos (List.mem_append_left _ (mem_lumaStores hx hy))
      · exact (lumaByte_eq bgra w.toNat x y).1

/-- The first frame of a session, with MediaFoundation answering every call. -/
def firstFrame (width height : UInt32) (bgra : Bytes) : Arrival where
  shutdown := false
  needsRebuild := false
  width := width
  height := height
  configureCalls := .ok ()
  buffer := .ok bgra
  submission :=
    { memory := fun n => .ok ⟨List.replicate n.toNat 0, List.length_replicate⟩
      process := fun _ => .ok () }

theorem submittable_iff_square :
    Submittable (ScreenshareHandler.after [firstFrame 2 2 (List.replicate 16 0xff)]).encoder 2 2
        (List.replicate 16 0xff) ↔ 2 % 2 = 0 ∧ 2 % 2 = 0 :=
  submittable_iff (w := 2) (h := 2) rfl (by decide) (by decide)
    ⟨by decide, by decide, by decide⟩ (by decide)

/-- A frame of 3 by 2 pixels is refused by the encoder that was configured from it. -/
theorem odd_frame_refused :
    ¬ ∀ (arrivals : List Arrival) (w h : UInt32) (bgra : Bytes),
      (ScreenshareHandler.after arrivals).configuredDims = some (w, h) →
      1 ≤ w.toNat → 1 ≤ h.toNat → Small w h → bgra.length = w.toNat * h.toNat * 4 →
      Submittable (ScreenshareHandler.after arrivals).encoder w.toNat h.toNat bgra := by
  intro hall
  have hsub := hall [firstFrame 3 2 (List.replicate 24 0)] 3 2 (List.replicate 24 0) rfl (by decide)
    (by decide) ⟨by decide, by decide, by decide⟩ (by decide)
  have hrefused :
      (ScreenshareHandler.after [firstFrame 3 2 (List.replicate 24 0)]).encoder.submitFrame
      (List.replicate 24 0) (firstFrame 3 2 []).submission =
        some (.error (.inputBufferSize 24 32)) := by decide
  exact hsub.accepted _ _ _ hrefused

end XyzenRelay.Capture.Win
