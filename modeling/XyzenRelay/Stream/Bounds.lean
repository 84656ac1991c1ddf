-- SUMMARY: How much a warm-up window can come to hold, for a publisher limited to a given set of frames.
import XyzenRelay.Stream.History

/-!
# Bounds on the cache

The caps bound the keyframe slot and the bytes of the deltas. They do not bound the
size of a parameter set, nor the number of empty frames. For a publisher that only
sends frames of a set `A` the cache is bounded exactly when these two are.
-/

namespace XyzenRelay.Stream

open WarmupWindow (IsDelta)

/-- Every frame the window holds on to. -/
def WarmupWindow.held (w : WarmupWindow Bytes) : List Bytes :=
  w.paramSets.entries.map (·.2) ++ w.keyframe ++ w.sinceKeyframe

/-- What the window of a room holds after the history. -/
def heldAfter (H : List Bytes) : List Bytes := (WarmupWindow.default.recordAll H).held

/-- Constants bound the bytes and the frames held after every history of `A`-frames. -/
def Bounded (A : Bytes → Prop) : Prop :=
  ∃ maxBytes maxFrames, ∀ H : List Bytes, (∀ f ∈ H, A f) →
    totalBytes (heldAfter H) ≤ maxBytes ∧ (heldAfter H).length ≤ maxFrames

/-- The parameter sets among the `A`-frames have a bounded size. -/
def SmallParamSets (A : Bytes → Prop) : Prop :=
  ∃ maxLen, ∀ f, A f → (kind none f).isParamSet = true → len f ≤ maxLen

/-- `A`-frames that lock the room and then put a keyframe into the cache. -/
structure Caches (A : Bytes → Prop) (c : Codec) (p k : Bytes) : Prop where
  param_mem : A p
  locks : ∃ t, kind none p = .paramSet c t
  key_mem : A k
  key : kind (some c) k = .keyframe
  fits : len k ≤ WARMUP_KEY_MAX_BYTES

/-! ## What is held -/

/-- A parameter set the window holds was recorded as one. -/
theorem Tracks.mem_params {c : Codec} {H : List Bytes} {w : WarmupWindow Bytes}
    (hw : Tracks c H w) {f : Bytes}
    (hf : f ∈ w.paramSets.entries.map (·.2)) : f ∈ H ∧ (kind none f).isParamSet = true := by
  obtain ⟨⟨t, f⟩, hentry, rfl⟩ := List.mem_map.mp hf
  have hlookup : w.paramSets.lookup t = some f := AList.mem_lookup_iff.mpr hentry
  rw [hw.params] at hlookup
  obtain ⟨hmem, hkind⟩ := mem_of_lastParamSet hlookup
  exact ⟨hmem, isParamSet_of_locked
    (by rw [show classifyNal (bytes f) (some c) = _ from hkind]; rfl)⟩

/-- There is at most one parameter set of every type. -/
theorem params_length_le (m : ParamSets Bytes) : (m.entries.map (·.2)).length ≤ 256 := by
  have hkeys : (m.keys.map UInt8.toNat).Nodup := m.nodupKeys.map fun a b h => UInt8.toNat_inj.mp h
  have hsub : m.keys.map UInt8.toNat ⊆ List.range 256 := by
    intro n hn
    obtain ⟨t, -, rfl⟩ := List.mem_map.mp hn
    exact List.mem_range.mpr t.toNat_lt
  have hle := (List.subperm_of_subset hkeys hsub).length_le
  simpa [AList.keys, List.keys] using hle

theorem totalBytes_le_mul {fs : List Bytes} {n : Nat} (h : ∀ f ∈ fs, len f ≤ n) :
    totalBytes fs ≤ fs.length * n := by
  induction fs with
  | nil => simp
  | cons f fs ih =>
    have hf := h f (by simp)
    have hfs := ih fun g hg => h g (by simp [hg])
    rw [← List.singleton_append, totalBytes_append, totalBytes_singleton,
      List.length_append, Nat.add_mul]
    simp
    omega

/-- Non-empty frames are counted by their bytes. -/
theorem length_le_totalBytes {fs : List Bytes} (h : [] ∉ fs) : fs.length ≤ totalBytes fs := by
  induction fs with
  | nil => simp
  | cons f fs ih =>
    obtain ⟨hf, hfs⟩ := List.ne_and_not_mem_of_not_mem_cons h
    have hpos : 0 < len f := List.length_pos_iff.mpr (Ne.symm hf)
    have hlen := ih hfs
    rw [← List.singleton_append, totalBytes_append, totalBytes_singleton, List.length_append]
    simp
    omega

/-- What a room holds besides parameter sets is a burst within the caps, of recorded
    frames. -/
theorem Tracks.burst_le {c : Codec} {H : List Bytes} {w : WarmupWindow Bytes} (hw : Tracks c H w) :
    totalBytes w.keyframe ≤ WARMUP_KEY_MAX_BYTES ∧ w.keyframe.length ≤ 1 ∧
      totalBytes w.sinceKeyframe ≤ WARMUP_DELTA_MAX_BYTES := by
  have hkey := hw.keyframe
  have hsince := hw.since
  cases hb : burst c H with
  | none =>
    rw [hb] at hkey hsince
    simp [hkey, hsince]
  | some b =>
    obtain ⟨k, ds⟩ := b
    obtain ⟨-, -, -, hfits⟩ := burst_eq_some hb
    rw [hb] at hkey hsince
    rw [hkey, hsince]
    exact ⟨by simpa using hfits.1, Nat.le_refl 1, hfits.2⟩

/-- Deltas are held behind a keyframe that fits its slot. -/
theorem Tracks.since_cases {c : Codec} {H : List Bytes} {w : WarmupWindow Bytes}
    (hw : Tracks c H w) :
    w.sinceKeyframe = [] ∨
      (∃ k ∈ H, kind (some c) k = .keyframe ∧ len k ≤ WARMUP_KEY_MAX_BYTES) ∧
      ∀ d ∈ w.sinceKeyframe, d ∈ H := by
  have hsince := hw.since
  cases hb : burst c H with
  | none =>
    rw [hb] at hsince
    exact .inl hsince
  | some b =>
    obtain ⟨k, ds⟩ := b
    obtain ⟨post, hlast, rfl, hfits⟩ := burst_eq_some hb
    obtain ⟨pre, rfl, hkey, -⟩ := lastKey_split hlast
    rw [hb] at hsince
    refine .inr ⟨⟨k, by simp, hkey, hfits.1⟩, fun d hd => ?_⟩
    rw [hsince] at hd
    have hd : d ∈ post := List.mem_of_mem_filter hd
    simp [hd]

/-! ## When the cache is bounded -/

/-- The bounds, for parameter sets of `maxLen` bytes. -/
theorem bounded_of {A : Bytes → Prop} {maxLen : Nat}
    (hsmall : ∀ f, A f → (kind none f).isParamSet = true → len f ≤ maxLen)
    (hempty : A [] → ∀ c p k, ¬ Caches A c p k) {H : List Bytes} (hH : ∀ f ∈ H, A f) :
    totalBytes (heldAfter H) ≤ 256 * maxLen + WARMUP_KEY_MAX_BYTES + WARMUP_DELTA_MAX_BYTES ∧
      (heldAfter H).length ≤ 256 + 1 + WARMUP_DELTA_MAX_BYTES := by
  unfold heldAfter WarmupWindow.held
  cases hd : discover H with
  | none =>
    rw [recordAll_of_undiscovered hd]
    exact ⟨Nat.zero_le _, Nat.zero_le _⟩
  | some r =>
    obtain ⟨c, K⟩ := r
    have hK : Tracks c K _ := tracks_of_discover hd
    have hmem : ∀ f ∈ K, f ∈ H := fun f hf => (discover_split hd).subset hf
    have hcount : (WarmupWindow.default.recordAll H).sinceKeyframe.length ≤
        totalBytes (WarmupWindow.default.recordAll H).sinceKeyframe := by
      rcases hK.since_cases with hnil | ⟨⟨k, hk, hkey, hfits⟩, hrecorded⟩
      · rw [hnil]
        exact Nat.le_refl 0
      · -- an empty frame among them contradicts `hempty`
        apply length_le_totalBytes
        intro hnil
        obtain ⟨p, fs, t, rfl, hp⟩ := head_of_discover hd
        exact hempty (hH [] (hmem [] (hrecorded [] hnil))) c p k
          ⟨hH p (hmem p List.mem_cons_self), ⟨t, hp⟩, hH k (hmem k hk), hkey, hfits⟩
    have hparamsLen := params_length_le (WarmupWindow.default.recordAll H).paramSets
    have hparamsBytes := totalBytes_le_mul (n := maxLen) fun f hf =>
      hsmall f (hH f (hmem f (hK.mem_params hf).1)) (hK.mem_params hf).2
    obtain ⟨hkeyBytes, hkeyLen, hsinceBytes⟩ := hK.burst_le
    have hsinceLen := hcount.trans hsinceBytes
    have hmul := Nat.mul_le_mul_right maxLen hparamsLen
    simp only [totalBytes_append, List.length_append]
    constructor <;> omega

/-- A parameter set is held from the start. -/
theorem heldAfter_paramSet {f : Bytes} (h : (kind none f).isParamSet = true) :
    heldAfter [f] = [f] := by
  obtain ⟨c, t, ht⟩ := NalKind.isParamSet_iff.mp h
  have hrecord := WarmupWindow.record_paramSet (w := WarmupWindow.default) ht
  rw [heldAfter, WarmupWindow.recordAll_cons, WarmupWindow.recordAll_nil, hrecord]
  simp [WarmupWindow.held, WarmupWindow.default]

/-- Empty frames behind a cached keyframe are all held. -/
theorem heldAfter_empty {A : Bytes → Prop} {c : Codec} {p k : Bytes}
    (h : Caches A c p k) (n : Nat) :
    n ≤ (heldAfter (p :: k :: List.replicate n [])).length := by
  obtain ⟨t, hp⟩ := h.locks
  have hsince := (tracks_of_discover
    (discover_of_head (H := p :: k :: List.replicate n []) rfl hp)).since
  have hempty : ∀ c, kind c ([] : Bytes) = .unknown := fun c => rfl
  have hlast : lastKey c ([p] ++ k :: List.replicate n []) = some (k, List.replicate n []) :=
    lastKey_of_split h.key (by simp [hempty])
  have hdeltas : deltas c (List.replicate n ([] : Bytes)) = List.replicate n [] := by
    rw [deltas, List.filter_eq_self]
    simp [hempty, IsDelta]
  have hfits : Fits k (List.replicate n []) := ⟨h.fits, by simp [totalBytes, len, bytes]⟩
  have hburst : burst c (p :: k :: List.replicate n []) = some (k, List.replicate n []) := by
    rw [List.singleton_append] at hlast
    simp [burst, hlast, hdeltas, hfits]
  rw [hburst] at hsince
  have hlen : (WarmupWindow.default.recordAll
      (p :: k :: List.replicate n [])).sinceKeyframe.length = n := by
    rw [hsince]
    simp
  rw [heldAfter, WarmupWindow.held, List.length_append, hlen]
  exact Nat.le_add_left n _

/-- The cache is bounded exactly when the publisher's parameter sets are, and it sends
    no empty frames or never puts a keyframe into the cache. -/
theorem bounded_iff (A : Bytes → Prop) :
    Bounded A ↔ SmallParamSets A ∧ (A [] → ∀ c p k, ¬ Caches A c p k) := by
  constructor
  · rintro ⟨maxBytes, maxFrames, h⟩
    constructor
    · refine ⟨maxBytes, fun f hf hparam => ?_⟩
      have hheld := (h [f] (by simpa using hf)).1
      rwa [heldAfter_paramSet hparam, totalBytes_singleton] at hheld
    · intro hempty c p k hcaches
      have hheld := (h (p :: k :: List.replicate (maxFrames + 1) []) (by
        simp [hcaches.param_mem, hcaches.key_mem, hempty])).2
      have hmore := heldAfter_empty hcaches (maxFrames + 1)
      omega
  · rintro ⟨⟨maxLen, hsmall⟩, hempty⟩
    exact ⟨_, _, fun H hH => bounded_of hsmall hempty hH⟩

/-- Neither the bytes nor the frames held have a bound: a SPS of any size is kept, and
    so is every empty frame behind a keyframe. -/
theorem unbounded :
    (¬ ∃ maxBytes, ∀ H : List Bytes, totalBytes (heldAfter H) ≤ maxBytes) ∧
      ¬ ∃ maxFrames, ∀ H : List Bytes, (heldAfter H).length ≤ maxFrames := by
  constructor
  · rintro ⟨maxBytes, h⟩
    have hheld := h [stamp (0x67 :: List.replicate maxBytes 0)]
    rw [heldAfter_paramSet (by rfl), totalBytes_singleton] at hheld
    simp [len, bytes, stamp] at hheld
    omega
  · rintro ⟨maxFrames, h⟩
    have hcaches : Caches (fun _ => True) .h264 (stamp [0x67]) (stamp [0x65]) :=
      ⟨trivial, ⟨7, by decide +kernel⟩, trivial, by decide +kernel, by decide +kernel⟩
    have hheld := h (stamp [0x67] :: stamp [0x65] :: List.replicate (maxFrames + 1) [])
    have hmore := heldAfter_empty hcaches (maxFrames + 1)
    omega

end XyzenRelay.Stream
