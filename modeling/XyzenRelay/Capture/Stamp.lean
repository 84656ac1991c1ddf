-- SUMMARY: What the two capturers put on the wire for an encoded sample: the chunks with their timestamps, and that both write the same format.
import XyzenRelay.Capture.Annexb
import XyzenRelay.Stream.Nal

/-!
# Stamped chunks

Model of `handleEncoded`, `emitAnnexBChunk` and `isKeyframe` in
`MacCapturer.swift`, and of `sample_to_annexb` and `drain` in
`crates/win-capturer/src/encoder.rs`. A chunk travels behind its eight-byte
big-endian wall clock. What CoreMedia and Media Foundation hand out for a sample,
and the clock, are parameters. The sample's block buffer is contiguous.
-/

namespace XyzenRelay.Capture

open Endian

/-- An `Int64` number of microseconds since 1970. -/
abbrev WallClock := BitVec 64

/-! ## The timestamp -/

/-- `i64::to_be_bytes`. -/
def toBeBytes (wallUs : WallClock) : Bytes := beBytes 8 wallUs.toNat

/-- The loop of `emitAnnexBChunk`: `dst[i] = UInt8((wallUs >> (8 * (7 - i))) & 0xFF)`. -/
def shiftBytes (wallUs : WallClock) : Bytes :=
  (List.range 8).map fun i => UInt8.ofNat (wallUs.sshiftRight (8 * (7 - i)) &&& 0xff).toNat

/-- Shifting in copies of the sign leaves the low byte alone. -/
theorem low_byte_sshiftRight {w : WallClock} {s : Nat} (hs : s ≤ 56) :
    UInt8.ofNat (w.sshiftRight s &&& 0xff).toNat = UInt8.ofNat (w.toNat >>> s) := by
  have hbits : (w.sshiftRight s).setWidth 8 = (w.ushiftRight s).setWidth 8 := by
    apply BitVec.eq_of_getLsbD_eq
    intro i hi
    have hin : ¬ 64 ≤ i := by omega
    have hshift : s + i < 64 := by omega
    simp [BitVec.getLsbD_sshiftRight, hi, hin, hshift]
  have hnat : (w.sshiftRight s).toNat % 2 ^ 8 = (w.toNat >>> s) % 2 ^ 8 :=
    congrArg BitVec.toNat hbits
  have hmask : (w.sshiftRight s &&& 0xff).toNat = (w.sshiftRight s).toNat % 2 ^ 8 := by
    rw [BitVec.toNat_and, ← Nat.and_two_pow_sub_one_eq_mod]
    rfl
  apply UInt8.toNat.inj
  rw [UInt8.toNat_ofNat', UInt8.toNat_ofNat', hmask, hnat, Nat.mod_mod]

theorem shiftBytes_eq (wallUs : WallClock) : shiftBytes wallUs = toBeBytes wallUs := by
  rw [toBeBytes, beBytes_eq_map, shiftBytes]
  apply List.map_congr_left
  intro i _
  exact low_byte_sshiftRight (by omega)

@[simp] theorem length_toBeBytes (wallUs : WallClock) : (toBeBytes wallUs).length = 8 := by
  simp [toBeBytes]

/-! ## The macOS capturer -/

/-- What `handleEncoded` reads off a `CMSampleBuffer`. -/
structure SampleBuffer where
  /-- The data is ready and there is a data buffer. -/
  ready : Bool
  /-- `kCMSampleAttachmentKey_DependsOnOthers` of the first attachment. -/
  dependsOnOthers : Option Bool
  /-- The parameter sets of the format description; one without a pointer is skipped. -/
  formatDescription : Option (List (Option Bytes))
  /-- The bytes behind the data pointer. -/
  dataPointer : Option Bytes

namespace SampleBuffer

def isKeyframe (sample : SampleBuffer) : Bool :=
  match sample.dependsOnOthers with
  | some depends => !depends
  | none => false

/-- The `prefix` of `handleEncoded`: all parameter sets of a keyframe, in one chunk. -/
def parameterSets (sample : SampleBuffer) : Bytes :=
  if sample.isKeyframe then
    match sample.formatDescription with
    | some sets => (sets.filterMap id).flatMap (startCode ++ ·)
    | none => []
  else []

/-- The chunks `handleEncoded` hands to `emitAnnexBChunk`. -/
def chunks (sample : SampleBuffer) : List Bytes :=
  if !sample.ready then []
  else
    match sample.dataPointer with
    | none => []
    | some bytes =>
      (if sample.parameterSets.isEmpty then [] else [sample.parameterSets]) ++ handleEncoded bytes

end SampleBuffer

/-- `emitAnnexBChunk`: what the callback is given. -/
def emitAnnexBChunk (wallUs : WallClock) (data : Bytes) : Bytes := shiftBytes wallUs ++ data

/-- The frames of consecutive chunks, each with its own reading of the clock. -/
def emitAll (clock : Nat → WallClock) (chunks : List Bytes) : List Bytes :=
  chunks.mapIdx fun i data => emitAnnexBChunk (clock i) data

/-! ## The Windows capturer -/

/-- `sample_to_annexb`: the frames of a sample, under one reading of the clock. -/
def sampleToAnnexb (wallUs : WallClock) (bytes : Bytes) : List Bytes :=
  (avccToAnnexb bytes).map (toBeBytes wallUs ++ ·)

/-- How an iteration of the loop in `drain` ends. -/
inductive ProcessOutput where
  /-- `Ok`, with the bytes of the sample, which may not be readable. -/
  | sample (wallUs : WallClock) (bytes : Option Bytes)
  /-- `Ok`, without a sample. -/
  | noSample
  | needMoreInput
  /-- Any other error, of this or an earlier call of the iteration. -/
  | failed
  deriving DecidableEq, Repr

/-- The loop of `drain`, with what it has collected: `none` as long as it goes on. -/
def drain (outNals : List Bytes) : List ProcessOutput → Option (Except Unit (List Bytes))
  | [] => none
  | .sample wallUs (some bytes) :: rest => drain (outNals ++ sampleToAnnexb wallUs bytes) rest
  | .sample _ none :: _ => some (.error ())
  | .noSample :: rest => drain outNals rest
  | .needMoreInput :: _ => some (.ok outNals)
  | .failed :: _ => some (.error ())

/-! ## The header of a stamped chunk -/

open XyzenRelay.Stream (Codec classifyNal classifyHeader nalHeader)

theorem nalHeader_stamped {wall rest : Bytes} (hwall : wall.length = 8) (b : UInt8) :
    nalHeader (wall ++ (startCode ++ b :: rest)) = some b := by
  have hdrop : (wall ++ (startCode ++ b :: rest)).drop 8 = startCode ++ b :: rest :=
    List.drop_left' hwall
  simp only [nalHeader, Stream.NAL_TIMESTAMP_PREFIX, hdrop]
  simp [hwall, startCode, Stream.startCodeLen]

/-- The server looks at the first byte behind the timestamp and the start code. -/
theorem classifyNal_stamped {wall rest : Bytes} (hwall : wall.length = 8) (b : UInt8)
    (known : Option Codec) :
    classifyNal (wall ++ (startCode ++ b :: rest)) known = classifyHeader b known := by
  rw [classifyNal, nalHeader_stamped hwall]

end XyzenRelay.Capture
