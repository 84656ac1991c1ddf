-- SUMMARY: Classification of stamped NAL units: codecs, NAL kinds, and how the discovery mode relates to a locked codec.
import XyzenRelay.Lib.Endian
import Mathlib.Tactic.SplitIfs

/-!
# NAL classification

Model of the sniffing half of `crates/stream/src/main.rs`: `Codec`, `NalKind`
and `classify_nal`. A published frame is an 8-byte timestamp, a start code and
one NAL unit, whose type is read from its first byte.
-/

namespace XyzenRelay.Stream

/-- Which video codec a room's publisher is using. -/
inductive Codec where
  | hevc
  | h264
  deriving DecidableEq, Repr

inductive NalKind where
  /-- A parameter set, with the codec it implies and its raw NAL type. -/
  | paramSet (codec : Codec) (nalType : UInt8)
  /-- A self-contained keyframe. -/
  | keyframe
  /-- Any other NAL. -/
  | delta
  /-- No start code, or too few bytes to decide. -/
  | unknown
  deriving DecidableEq, Repr

def NAL_TIMESTAMP_PREFIX : Nat := 8

/-- A NAL as a capturer publishes it: a timestamp (zero here), a start code, the NAL. -/
def stamp (nal : Bytes) : Bytes := List.replicate NAL_TIMESTAMP_PREFIX 0 ++ [0, 0, 0, 1] ++ nal

/-- The length of the start code a body begins with. -/
def startCodeLen (body : Bytes) : Option Nat :=
  if [0, 0, 0, 1] <+: body then some 4
  else if [0, 0, 1] <+: body then some 3
  else none

/-- The first byte of the NAL behind the timestamp and the start code. -/
def nalHeader (stamped : Bytes) : Option UInt8 :=
  if stamped.length ≤ NAL_TIMESTAMP_PREFIX then none
  else
    let body := stamped.drop NAL_TIMESTAMP_PREFIX
    match startCodeLen body with
    | none => none
    | some off => body[off]?

def h264Type (first : UInt8) : UInt8 := first &&& 0x1f

def hevcType (first : UInt8) : UInt8 := (first >>> 1) &&& 0x3f

/-- `32 | 33 | 34`. -/
def IsHevcParamSet (t : UInt8) : Prop := t = 32 ∨ t = 33 ∨ t = 34

/-- `7 | 8`. -/
def IsH264ParamSet (t : UInt8) : Prop := t = 7 ∨ t = 8

instance (t : UInt8) : Decidable (IsHevcParamSet t) :=
  inferInstanceAs (Decidable (t = 32 ∨ t = 33 ∨ t = 34))

instance (t : UInt8) : Decidable (IsH264ParamSet t) :=
  inferInstanceAs (Decidable (t = 7 ∨ t = 8))

/-- The part of `classify_nal` that looks at the header byte. -/
def classifyHeader (first : UInt8) (knownCodec : Option Codec) : NalKind :=
  match knownCodec with
  | some .hevc =>
    if IsHevcParamSet (hevcType first) then .paramSet .hevc (hevcType first)
    else if 16 ≤ hevcType first ∧ hevcType first ≤ 23 then .keyframe
    else .delta
  | some .h264 =>
    if IsH264ParamSet (h264Type first) then .paramSet .h264 (h264Type first)
    else if h264Type first = 5 then .keyframe
    else .delta
  | none =>
    -- discovery mode: only parameter sets are recognised, HEVC before H264
    if IsHevcParamSet (hevcType first) then .paramSet .hevc (hevcType first)
    else if IsH264ParamSet (h264Type first) then .paramSet .h264 (h264Type first)
    else .unknown

def classifyNal (stamped : Bytes) (knownCodec : Option Codec) : NalKind :=
  match nalHeader stamped with
  | none => .unknown
  | some first => classifyHeader first knownCodec

namespace NalKind

def isParamSet : NalKind → Bool
  | .paramSet _ _ => true
  | _ => false

@[simp] theorem isParamSet_paramSet (c : Codec) (t : UInt8) :
    (paramSet c t).isParamSet = true := rfl
@[simp] theorem isParamSet_keyframe : keyframe.isParamSet = false := rfl
@[simp] theorem isParamSet_delta : delta.isParamSet = false := rfl
@[simp] theorem isParamSet_unknown : unknown.isParamSet = false := rfl

theorem isParamSet_iff {k : NalKind} : k.isParamSet = true ↔ ∃ c t, k = paramSet c t := by
  cases k <;> simp

end NalKind

/-! ## Discovery and locked mode -/

/-- A frame that is of any kind has a header byte, and nothing else counts. -/
theorem header_of_classifyNal {f : Bytes} {c : Option Codec} (h : classifyNal f c ≠ .unknown) :
    ∃ b, ∀ known, classifyNal f known = classifyHeader b known := by
  cases hb : nalHeader f with
  | none => simp [classifyNal, hb] at h
  | some b => exact ⟨b, fun known => by rw [classifyNal, hb]⟩

/-- Discovery mode recognises parameter sets and nothing else. -/
theorem classifyNal_none_cases (f : Bytes) :
    (∃ c t, classifyNal f none = .paramSet c t) ∨ classifyNal f none = .unknown := by
  by_cases h : classifyNal f none = .unknown
  · exact .inr h
  · obtain ⟨b, hb⟩ := header_of_classifyNal h
    rw [hb]
    simp only [classifyHeader]
    split_ifs
    · exact .inl ⟨_, _, rfl⟩
    · exact .inl ⟨_, _, rfl⟩
    · exact .inr rfl

/-- A locked room only reports parameter sets of its own codec. -/
theorem classifyNal_codec {f : Bytes} {c d : Codec} {t : UInt8}
    (h : classifyNal f (some c) = .paramSet d t) : d = c := by
  obtain ⟨b, hb⟩ := header_of_classifyNal (f := f) (c := some c) (by simp [h])
  rw [hb] at h
  cases c <;> simp only [classifyHeader] at h <;> split_ifs at h <;> simp_all

/-- The frame that locks the codec is classified the same once it is locked. -/
theorem classifyNal_lock {f : Bytes} {c : Codec} {t : UInt8}
    (h : classifyNal f none = .paramSet c t) : classifyNal f (some c) = .paramSet c t := by
  obtain ⟨b, hb⟩ := header_of_classifyNal (f := f) (c := none) (by simp [h])
  rw [hb] at h ⊢
  simp only [classifyHeader] at h ⊢
  split_ifs at h with hhevc hh264
  · obtain ⟨rfl, rfl⟩ := NalKind.paramSet.inj h
    simp [hhevc]
  · obtain ⟨rfl, rfl⟩ := NalKind.paramSet.inj h
    simp [hh264]

/-- What discovery mode does not take for a parameter set is none under either
    codec. -/
theorem isParamSet_of_locked {f : Bytes} {c : Codec}
    (h : (classifyNal f (some c)).isParamSet = true) : (classifyNal f none).isParamSet = true := by
  obtain ⟨b, hb⟩ := header_of_classifyNal (f := f) (c := some c)
    (fun hunknown => by simp [hunknown] at h)
  rw [hb] at h ⊢
  cases c <;> simp only [classifyHeader] at h ⊢ <;> split_ifs at h ⊢ <;> simp_all

end XyzenRelay.Stream
