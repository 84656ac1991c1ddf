-- SUMMARY: The representation invariant of the warm-up window: counters, caps, and the parameter sets of one codec.
import XyzenRelay.Stream.Warmup

/-!
# The representation of the window

The counters repeat what the vectors hold, and `param_sets` what `codec` says. Every
branch of `record` updates both by hand.
-/

namespace XyzenRelay.Stream

/-- The NAL types that carry a parameter set of the codec. -/
def IsParamSetOf : Codec → UInt8 → Prop
  | .hevc, t => IsHevcParamSet t
  | .h264, t => IsH264ParamSet t

/-- A locked room reports parameter sets under the types of its codec. -/
theorem classifyNal_type {f : Bytes} {c d : Codec} {t : UInt8}
    (h : classifyNal f (some c) = .paramSet d t) : IsParamSetOf c t := by
  obtain ⟨b, hb⟩ := header_of_classifyNal (f := f) (c := some c) (by simp [h])
  rw [hb] at h
  cases c with
  | hevc =>
    simp only [classifyHeader] at h
    split_ifs at h with hparam
    exact (NalKind.paramSet.inj h).2 ▸ hparam
  | h264 =>
    simp only [classifyHeader] at h
    split_ifs at h with hparam
    exact (NalKind.paramSet.inj h).2 ▸ hparam

variable {φ : Type} [Frame φ]

/-- The parameter sets of a room locked to `c`. -/
structure ParamSetsOf (c : Codec) (m : ParamSets φ) : Prop where
  nonempty : m ≠ ∅
  types : ∀ t ∈ m, IsParamSetOf c t
  stored : ∀ t f, m.lookup t = some f → kind (some c) f = .paramSet c t

/-- The first parameter set, or one more. -/
theorem ParamSetsOf.insert {c : Codec} {m : ParamSets φ} {f : φ} {t : UInt8}
    (hm : m = ∅ ∨ ParamSetsOf c m) (h : kind (some c) f = .paramSet c t) :
    ParamSetsOf c (m.insert t f) where
  nonempty := by
    intro hempty
    have hmem : t ∈ m.insert t f := (AList.mem_insert m).mpr (.inl rfl)
    rw [hempty] at hmem
    exact AList.notMem_empty t hmem
  types := by
    intro u hu
    rcases (AList.mem_insert m).mp hu with rfl | hu
    · exact classifyNal_type h
    · rcases hm with rfl | hm
      · exact absurd hu (AList.notMem_empty u)
      · exact hm.types u hu
  stored := by
    intro u g hg
    by_cases heq : u = t
    · subst heq
      rw [AList.lookup_insert, Option.some.injEq] at hg
      exact hg ▸ h
    · rw [AList.lookup_insert_ne heq] at hg
      rcases hm with rfl | hm
      · simp at hg
      · exact hm.stored u g hg

namespace WarmupWindow

/-- What every branch of `record` maintains. -/
structure RepInv (w : WarmupWindow φ) : Prop where
  keyBytes : w.keyframeTotalBytes = totalBytes w.keyframe
  sinceBytes : w.sinceKeyframeTotalBytes = totalBytes w.sinceKeyframe
  keyCap : w.keyframeTotalBytes ≤ WARMUP_KEY_MAX_BYTES
  sinceCap : w.sinceKeyframeTotalBytes ≤ WARMUP_DELTA_MAX_BYTES
  /-- Deltas are kept behind a keyframe only. -/
  anchored : w.keyframe = [] → w.sinceKeyframe = []
  unlocked : w.codec = none → w.paramSets = ∅ ∧ w.keyframe = [] ∧ w.sinceKeyframe = []
  locked : ∀ c, w.codec = some c → ParamSetsOf c w.paramSets

variable {w : WarmupWindow φ} {f : φ}

namespace RepInv

theorem default : RepInv (WarmupWindow.default : WarmupWindow φ) where
  keyBytes := rfl
  sinceBytes := rfl
  keyCap := Nat.zero_le _
  sinceCap := Nat.zero_le _
  anchored := fun _ => rfl
  unlocked := fun _ => ⟨rfl, rfl, rfl⟩
  locked := fun c hc => by simp [WarmupWindow.default] at hc

/-- Both slots are emptied and their counters with them. -/
theorem dropCache (hw : RepInv w) : RepInv w.dropCache where
  keyBytes := rfl
  sinceBytes := rfl
  keyCap := Nat.zero_le _
  sinceCap := Nat.zero_le _
  anchored := fun _ => rfl
  unlocked := fun hc => ⟨(hw.unlocked hc).1, rfl, rfl⟩
  locked := hw.locked

/-- A parameter set locks an unlocked room, and is of the codec of a locked one. -/
theorem record_paramSet (hw : RepInv w) {c : Codec} {t : UInt8}
    (h : kind w.codec f = .paramSet c t) : RepInv (w.record f).2 := by
  rw [WarmupWindow.record_paramSet h]
  refine ⟨hw.keyBytes, hw.sinceBytes, hw.keyCap, hw.sinceCap, hw.anchored, fun hnone => ?_,
    fun d hd => ?_⟩
  · cases hc : w.codec <;> simp [hc] at hnone
  · cases hc : w.codec with
    | none =>
      obtain rfl : c = d := by simpa [hc] using hd
      rw [hc] at h
      exact .insert (.inl (hw.unlocked hc).1) (classifyNal_lock h)
    | some d' =>
      obtain rfl : d' = d := by simpa [hc] using hd
      rw [hc] at h
      obtain rfl : c = d' := classifyNal_codec h
      exact .insert (.inr (hw.locked c hc)) h

/-- A keyframe is only recognised in a locked room. -/
theorem record_keyframe (hw : RepInv w) (h : kind w.codec f = .keyframe) :
    RepInv (w.record f).2 := by
  rcases Nat.lt_or_ge WARMUP_KEY_MAX_BYTES (len f) with hlen | hlen
  · rw [record_keyframe_oversize h hlen]
    exact hw.dropCache
  · rw [WarmupWindow.record_keyframe h hlen]
    refine ⟨(totalBytes_singleton f).symm, rfl, hlen, Nat.zero_le _, fun _ => rfl, fun hnone => ?_,
      hw.locked⟩
    rw [show w.codec = none from hnone] at h
    rcases classifyNal_none_cases (bytes f) with ⟨c, t, hparam⟩ | hunknown
    · exact absurd (h.symm.trans hparam) (by simp)
    · exact absurd (h.symm.trans hunknown) (by simp)

theorem record_delta (hw : RepInv w) (h : IsDelta (kind w.codec f)) : RepInv (w.record f).2 := by
  by_cases hkey : w.keyframe = []
  · rw [record_delta_unanchored h hkey]
    exact hw
  · rcases Nat.lt_or_ge WARMUP_DELTA_MAX_BYTES (w.sinceKeyframeTotalBytes + len f)
      with hover | hfit
    · rw [record_delta_overflow h hkey hover]
      exact hw.dropCache
    · rw [WarmupWindow.record_delta h hkey hfit]
      refine ⟨hw.keyBytes, ?_, hw.keyCap, hfit, fun hempty => absurd hempty hkey,
        fun hnone => absurd (hw.unlocked hnone).2.1 hkey, hw.locked⟩
      rw [totalBytes_append, totalBytes_singleton, hw.sinceBytes]

theorem record (hw : RepInv w) (f : φ) : RepInv (w.record f).2 := by
  rcases kind_cases w.codec f with ⟨c, t, h⟩ | h | h
  · exact hw.record_paramSet h
  · exact hw.record_keyframe h
  · exact hw.record_delta h

theorem recordAll (hw : RepInv w) (fs : List φ) : RepInv (w.recordAll fs) := by
  induction fs generalizing w with
  | nil => exact hw
  | cons f fs ih => exact ih (hw.record f)

end RepInv

/-- A locked codec stays, whatever is recorded. -/
theorem recordAll_locked {c : Codec} (hc : w.codec = some c) (fs : List φ) :
    (w.recordAll fs).codec = some c := by
  induction fs generalizing w with
  | nil => exact hc
  | cons f fs ih => exact ih (by rw [record_codec, hc])

/-- The window of a room keeps its representation invariant, and the codec it is locked
    to, through every sequence of frames. -/
theorem representation (H : List Bytes) :
    RepInv (default.recordAll H) ∧
      ∀ c, (default.recordAll H).codec = some c →
        ∀ fs : List Bytes, (default.recordAll (H ++ fs)).codec = some c := by
  refine ⟨RepInv.default.recordAll H, fun c hc fs => ?_⟩
  rw [recordAll_append]
  exact recordAll_locked hc fs

end WarmupWindow

end XyzenRelay.Stream
