-- SUMMARY: The warm-up window: its record and snapshot operations, and what each branch of record does.
import XyzenRelay.Stream.Nal
import Mathlib.Data.List.AList
import Mathlib.Data.List.Sort

/-!
# The warm-up window

Model of `WarmupWindow` in `crates/stream/src/main.rs`. The window only looks at
the bytes of a frame, so it is defined over any type of frames that has bytes:
`Bytes` itself for the code, and frames that carry their publish index or their
session for the statements that need to tell equal frames apart.
-/

namespace XyzenRelay.Stream

/-- A type of published frames. The server only ever looks at their bytes. -/
class Frame (φ : Type) where
  bytes : φ → Bytes

instance : Frame Bytes := ⟨id⟩

export Frame (bytes)

variable {φ : Type} [Frame φ]

/-- The length `Bytes::len` of a frame. -/
def len (f : φ) : Nat := (bytes f).length

/-- The summed lengths of some frames. -/
def totalBytes (fs : List φ) : Nat := (fs.map len).sum

@[simp] theorem totalBytes_nil : totalBytes ([] : List φ) = 0 := rfl

@[simp] theorem totalBytes_append (fs gs : List φ) :
    totalBytes (fs ++ gs) = totalBytes fs + totalBytes gs := by
  simp [totalBytes]

@[simp] theorem totalBytes_singleton (f : φ) : totalBytes [f] = len f := by
  simp [totalBytes]

theorem totalBytes_le_of_sublist {fs gs : List φ} (h : fs.Sublist gs) :
    totalBytes fs ≤ totalBytes gs := by
  induction h with
  | slnil => exact Nat.le_refl _
  | @cons fs gs f _ ih =>
    rw [← List.singleton_append, totalBytes_append]
    omega
  | @cons_cons fs gs f _ ih =>
    rw [← List.singleton_append, totalBytes_append, ← List.singleton_append (l := gs),
      totalBytes_append]
    omega

theorem len_le_totalBytes {f : φ} {fs : List φ} (h : f ∈ fs) : len f ≤ totalBytes fs := by
  have hle := totalBytes_le_of_sublist (List.singleton_sublist.mpr h)
  rwa [totalBytes_singleton] at hle

/-- The kind of a frame in a room locked to `codec`, or in discovery mode. -/
def kind (codec : Option Codec) (f : φ) : NalKind := classifyNal (bytes f) codec

def WARMUP_DELTA_MAX_BYTES : Nat := 16 * 1024 * 1024

def WARMUP_KEY_MAX_BYTES : Nat := 8 * 1024 * 1024

/-- `usize::MAX` on the 64-bit targets. -/
def usizeMax : Nat := 2 ^ 64 - 1

/-- `usize::saturating_add`. -/
def saturatingAdd (a b : Nat) : Nat := min (a + b) usizeMax

/-- `HashMap<u8, Bytes>`, keyed by raw NAL type. -/
abbrev ParamSets (φ : Type) := AList fun _ : UInt8 => φ

structure WarmupWindow (φ : Type) where
  codec : Option Codec
  paramSets : ParamSets φ
  keyframe : List φ
  keyframeTotalBytes : Nat
  sinceKeyframe : List φ
  sinceKeyframeTotalBytes : Nat

namespace WarmupWindow

/-- `WarmupWindow::default`. -/
def default : WarmupWindow φ where
  codec := none
  paramSets := ∅
  keyframe := []
  keyframeTotalBytes := 0
  sinceKeyframe := []
  sinceKeyframeTotalBytes := 0

/-- The keys of the map in the order of `sort_unstable`. -/
def sortedKeys (m : ParamSets φ) : List UInt8 := m.keys.insertionSort (· ≤ ·)

/-- `WarmupWindow::snapshot`. -/
def snapshot (w : WarmupWindow φ) : List φ :=
  if w.keyframe.isEmpty then []
  else
    (sortedKeys w.paramSets).filterMap (fun k => w.paramSets.lookup k)
      ++ w.keyframe ++ w.sinceKeyframe

/-- The overflow guard: both slots are dropped, the parameter sets stay. -/
def dropCache (w : WarmupWindow φ) : WarmupWindow φ :=
  { w with
    keyframe := [], keyframeTotalBytes := 0
    sinceKeyframe := [], sinceKeyframeTotalBytes := 0 }

/-- `WarmupWindow::record`: the returned flag and the window it leaves behind. -/
def record (w : WarmupWindow φ) (frame : φ) : Bool × WarmupWindow φ :=
  match kind w.codec frame with
  | .paramSet codec nalType =>
    (false,
      { w with
        codec := if w.codec.isNone then some codec else w.codec
        paramSets := w.paramSets.insert nalType frame })
  | .keyframe =>
    let w := w.dropCache
    if len frame ≤ WARMUP_KEY_MAX_BYTES then
      (true, { w with keyframeTotalBytes := len frame, keyframe := w.keyframe ++ [frame] })
    else (true, w)
  | .delta | .unknown =>
    if w.keyframe.isEmpty then (false, w)
    else
      let projected := saturatingAdd w.sinceKeyframeTotalBytes (len frame)
      if projected > WARMUP_DELTA_MAX_BYTES then (false, w.dropCache)
      else
        (false,
          { w with
            sinceKeyframeTotalBytes := projected
            sinceKeyframe := w.sinceKeyframe ++ [frame] })

/-- Record the frames in order. -/
def recordAll (w : WarmupWindow φ) (frames : List φ) : WarmupWindow φ :=
  frames.foldl (fun w f => (w.record f).2) w

@[simp] theorem recordAll_nil (w : WarmupWindow φ) : w.recordAll [] = w := rfl

@[simp] theorem recordAll_cons (w : WarmupWindow φ) (f : φ) (fs : List φ) :
    w.recordAll (f :: fs) = (w.record f).2.recordAll fs := rfl

@[simp] theorem recordAll_append (w : WarmupWindow φ) (fs gs : List φ) :
    w.recordAll (fs ++ gs) = (w.recordAll fs).recordAll gs := by
  simp [recordAll]

/-! ## The branches of `record` -/

section Branches

variable {w : WarmupWindow φ} {f : φ}

theorem record_paramSet {c : Codec} {t : UInt8} (h : kind w.codec f = .paramSet c t) :
    (w.record f).2 =
      { w with
        codec := if w.codec.isNone then some c else w.codec
        paramSets := w.paramSets.insert t f } := by
  simp [record, h]

theorem record_keyframe (h : kind w.codec f = .keyframe) (hlen : len f ≤ WARMUP_KEY_MAX_BYTES) :
    (w.record f).2 =
      { w.dropCache with keyframeTotalBytes := len f, keyframe := [f] } := by
  simp [record, h, hlen, dropCache]

theorem record_keyframe_oversize (h : kind w.codec f = .keyframe)
    (hlen : WARMUP_KEY_MAX_BYTES < len f) : (w.record f).2 = w.dropCache := by
  have hnot : ¬ len f ≤ WARMUP_KEY_MAX_BYTES := by omega
  simp [record, h, hnot]

/-- A frame the cache treats as a delta. -/
def IsDelta (k : NalKind) : Prop := k = .delta ∨ k = .unknown

instance (k : NalKind) : Decidable (IsDelta k) :=
  inferInstanceAs (Decidable (k = .delta ∨ k = .unknown))

theorem record_delta_unanchored (h : IsDelta (kind w.codec f)) (hkey : w.keyframe = []) :
    (w.record f).2 = w := by
  rcases h with h | h <;> simp [record, h, hkey]

/-- The saturation never shows: a sum past the cap is past it either way. -/
theorem saturatingAdd_gt_iff {a b : Nat} :
    saturatingAdd a b > WARMUP_DELTA_MAX_BYTES ↔ a + b > WARMUP_DELTA_MAX_BYTES := by
  unfold saturatingAdd usizeMax WARMUP_DELTA_MAX_BYTES
  omega

theorem saturatingAdd_eq {a b : Nat} (h : a + b ≤ WARMUP_DELTA_MAX_BYTES) :
    saturatingAdd a b = a + b := by
  unfold saturatingAdd usizeMax
  unfold WARMUP_DELTA_MAX_BYTES at h
  omega

theorem record_delta_overflow (h : IsDelta (kind w.codec f)) (hkey : w.keyframe ≠ [])
    (hover : w.sinceKeyframeTotalBytes + len f > WARMUP_DELTA_MAX_BYTES) :
    (w.record f).2 = w.dropCache := by
  rcases h with h | h <;> simp [record, h, hkey, saturatingAdd_gt_iff.mpr hover]

theorem record_delta (h : IsDelta (kind w.codec f)) (hkey : w.keyframe ≠ [])
    (hfit : w.sinceKeyframeTotalBytes + len f ≤ WARMUP_DELTA_MAX_BYTES) :
    (w.record f).2 =
      { w with
        sinceKeyframeTotalBytes := w.sinceKeyframeTotalBytes + len f
        sinceKeyframe := w.sinceKeyframe ++ [f] } := by
  have hnot : ¬ WARMUP_DELTA_MAX_BYTES < w.sinceKeyframeTotalBytes + len f := by omega
  rcases h with h | h <;>
    simp [record, h, hkey, saturatingAdd_eq hfit, hnot]

/-- Every frame is of one of the three kinds `record` distinguishes. -/
theorem kind_cases (c : Option Codec) (f : φ) :
    (∃ d t, kind c f = .paramSet d t) ∨ kind c f = .keyframe ∨ IsDelta (kind c f) := by
  unfold IsDelta
  cases kind c f <;> simp

/-- Only a parameter set changes the codec, and only in an unlocked room. -/
theorem record_codec :
    (w.record f).2.codec =
      match w.codec with
      | some c => some c
      | none => match kind none f with
        | .paramSet c _ => some c
        | _ => none := by
  rcases kind_cases w.codec f with ⟨d, t, h⟩ | h | h
  · rw [record_paramSet h]
    cases hc : w.codec with
    | some c => simp
    | none => rw [hc] at h; simp [h]
  · have hcodec : (w.record f).2.codec = w.codec := by
      rcases Nat.lt_or_ge WARMUP_KEY_MAX_BYTES (len f) with hlen | hlen
      · rw [record_keyframe_oversize h hlen]
        rfl
      · rw [record_keyframe h hlen]
        rfl
    rw [hcodec]
    cases hc : w.codec with
    | some c => rfl
    | none => rw [hc] at h; simp [h]
  · have hcodec : (w.record f).2.codec = w.codec := by
      by_cases hkey : w.keyframe = []
      · rw [record_delta_unanchored h hkey]
      · rcases Nat.lt_or_ge WARMUP_DELTA_MAX_BYTES (w.sinceKeyframeTotalBytes + len f)
          with hover | hfit
        · rw [record_delta_overflow h hkey hover]
          rfl
        · rw [record_delta h hkey hfit]
    rw [hcodec]
    cases hc : w.codec with
    | some c => rfl
    | none =>
      rw [hc] at h
      rcases h with h | h <;> simp [h]

end Branches

end WarmupWindow

end XyzenRelay.Stream
