-- SUMMARY: Access units, and whether the replay holds all slices of the most recent IDR unit.
import XyzenRelay.Stream.History

/-!
# Access units

A publisher sends a picture as an access unit, one NAL per frame, and an IDR
picture may be split into several slices. `classify_nal` looks at one NAL at a
time, so `record` takes every further slice for a new keyframe.
-/

namespace XyzenRelay.Stream

open WarmupWindow (IsDelta)

variable {c : Codec}

/-- The NALs of one picture. Between two keyframe slices there is no delta. -/
structure AccessUnit (c : Codec) where
  nals : List Bytes
  contiguous : ∀ a k m k' b, nals = a ++ k :: (m ++ k' :: b) → kind (some c) k = .keyframe →
    kind (some c) k' = .keyframe → ∀ f ∈ m, ¬ IsDelta (kind (some c) f)

namespace AccessUnit

/-- A unit of parameter sets and keyframe slices only. -/
def ofNoDelta (nals : List Bytes) (h : ∀ f ∈ nals, ¬ IsDelta (kind (some c) f)) : AccessUnit c where
  nals := nals
  contiguous := by
    rintro a k m k' b rfl - - f hf
    exact h f (by simp [hf])

/-- The keyframe slices of the unit. -/
def slices (u : AccessUnit c) : List Bytes := u.nals.filter fun f => kind (some c) f = .keyframe

def IsIdr (u : AccessUnit c) : Prop := u.slices ≠ []

/-- The frames of consecutive units. -/
def frames (us : List (AccessUnit c)) : List Bytes := us.flatMap nals

/-- The slices of the unit fit the keyframe cap, and the deltas after them the
    other one. -/
structure InsideCaps (u : AccessUnit c) (vs : List (AccessUnit c)) : Prop where
  keys : totalBytes u.slices ≤ WARMUP_KEY_MAX_BYTES
  deltas : ∀ a k b, u.nals = a ++ k :: b → kind (some c) k = .keyframe →
    totalBytes (deltas c (b ++ frames vs)) ≤ WARMUP_DELTA_MAX_BYTES

/-- Units whose frames together stay below both caps. -/
theorem InsideCaps.of_totalBytes {u : AccessUnit c} {vs : List (AccessUnit c)}
    (h : totalBytes (u.nals ++ frames vs) ≤ min WARMUP_KEY_MAX_BYTES WARMUP_DELTA_MAX_BYTES) :
    u.InsideCaps vs := by
  have hcaps := Nat.le_min.mp h
  constructor
  case keys =>
    exact (totalBytes_le_of_sublist
      (List.filter_sublist.trans (List.sublist_append_left _ _))).trans hcaps.1
  case deltas =>
    intro a k b hsplit _
    refine (totalBytes_le_of_sublist (List.filter_sublist.trans ?_)).trans hcaps.2
    rw [hsplit]
    simp [List.append_assoc]

/-- The snapshot is parameter sets, all slices of the unit, then deltas. -/
def WholeIn (u : AccessUnit c) (snapshot : List Bytes) : Prop :=
  ∃ ps ds, snapshot = ps ++ u.slices ++ ds ∧ (∀ p ∈ ps, (kind (some c) p).isParamSet = true) ∧
    ∀ d ∈ ds, IsDelta (kind (some c) d)

theorem mem_slices {u : AccessUnit c} {f : Bytes} :
    f ∈ u.slices ↔ f ∈ u.nals ∧ kind (some c) f = .keyframe := by
  simp [slices]

/-- The last slice of an IDR unit. -/
theorem IsIdr.split {u : AccessUnit c} (h : u.IsIdr) :
    ∃ a k b, u.nals = a ++ k :: b ∧ kind (some c) k = .keyframe ∧ ∀ f ∈ b,
      kind (some c) f ≠ .keyframe := by
  obtain ⟨f, hf⟩ := List.exists_mem_of_ne_nil _ h
  obtain ⟨hmem, hkey⟩ := mem_slices.mp hf
  cases hlast : lastKey c u.nals with
  | none => exact absurd hkey (no_keyframe_of_lastKey hlast f hmem)
  | some r =>
    obtain ⟨a, hsplit, hkind, hb⟩ := lastKey_split hlast
    exact ⟨a, r.1, r.2, hsplit, hkind, hb⟩

theorem no_keyframe_frames {vs : List (AccessUnit c)} (h : ∀ v ∈ vs, ¬ v.IsIdr) :
    ∀ f ∈ frames vs, kind (some c) f ≠ .keyframe := by
  intro f hf hkey
  obtain ⟨v, hv, hmem⟩ := List.mem_flatMap.mp hf
  exact h v hv (List.ne_nil_of_mem (mem_slices.mpr ⟨hmem, hkey⟩))

/-- What is replayed after a history whose last IDR unit is `u`: its last slice only. -/
theorem snapshot_eq {us vs : List (AccessUnit c)} {u : AccessUnit c} {p : Bytes} {t : UInt8}
    (hhead : (frames (us ++ u :: vs)).head? = some p) (hparam : kind none p = .paramSet c t)
    (hidr : u.IsIdr) (hlast : ∀ v ∈ vs, ¬ v.IsIdr) (hcaps : u.InsideCaps vs) :
    ∃ a k b, u.nals = a ++ k :: b ∧ kind (some c) k = .keyframe ∧
      (∀ f ∈ b, kind (some c) f ≠ .keyframe) ∧
      (WarmupWindow.default.recordAll (frames (us ++ u :: vs))).snapshot =
        paramSets c (frames (us ++ u :: vs)) ++ [k] ++ Stream.deltas c (b ++ frames vs) := by
  obtain ⟨a, k, b, hsplit, hkey, hb⟩ := hidr.split
  refine ⟨a, k, b, hsplit, hkey, hb, ?_⟩
  have hframes : frames (us ++ u :: vs) = (frames us ++ a) ++ k :: (b ++ frames vs) := by
    simp [frames, hsplit]
  have hnoKey : ∀ f ∈ b ++ frames vs, kind (some c) f ≠ .keyframe := by
    intro f hf
    rcases List.mem_append.mp hf with hf | hf
    · exact hb f hf
    · exact no_keyframe_frames hlast f hf
  have hdiscover : discover (frames (us ++ u :: vs)) = some (c, frames (us ++ u :: vs)) :=
    discover_of_head hhead hparam
  have hfits : Fits k (Stream.deltas c (b ++ frames vs)) :=
    ⟨(len_le_totalBytes (mem_slices.mpr ⟨by simp [hsplit], hkey⟩)).trans hcaps.keys,
      hcaps.deltas a k b hsplit hkey⟩
  rw [snapshot_recordAll, historySnapshot, hdiscover]
  simp only
  rw [burst, hframes, lastKey_of_split hkey hnoKey]
  simp [if_pos hfits]

/-- Parameter sets, keyframes, then deltas: the keyframes are found by their kind. -/
theorem filter_keyframe {ps ks ds : List Bytes}
    (hps : ∀ p ∈ ps, (kind (some c) p).isParamSet = true)
    (hks : ∀ k ∈ ks, kind (some c) k = .keyframe) (hds : ∀ d ∈ ds, IsDelta (kind (some c) d)) :
    (ps ++ ks ++ ds).filter (fun f => kind (some c) f = .keyframe) = ks := by
  have hps' : ps.filter (fun f => kind (some c) f = .keyframe) = [] := by
    rw [List.filter_eq_nil_iff]
    intro p hp hkey
    have hparam := hps p hp
    simp [of_decide_eq_true hkey] at hparam
  have hds' : ds.filter (fun f => kind (some c) f = .keyframe) = [] := by
    rw [List.filter_eq_nil_iff]
    intro d hd hkey
    have hdelta := hds d hd
    simp [of_decide_eq_true hkey, IsDelta] at hdelta
  have hks' : ks.filter (fun f => kind (some c) f = .keyframe) = ks := by
    rw [List.filter_eq_self]
    simpa using hks
  rw [List.filter_append, List.filter_append, hps', hks', hds']
  simp

/-- The replay holds the whole of the most recent IDR unit exactly when that unit is
    a single slice. -/
theorem wholeIn_snapshot_iff (us vs : List (AccessUnit c)) (u : AccessUnit c)
    {p : Bytes} {t : UInt8}
    (hhead : (frames (us ++ u :: vs)).head? = some p) (hparam : kind none p = .paramSet c t)
    (hidr : u.IsIdr) (hlast : ∀ v ∈ vs, ¬ v.IsIdr) (hcaps : u.InsideCaps vs) :
    u.WholeIn (WarmupWindow.default.recordAll (frames (us ++ u :: vs))).snapshot ↔
      u.slices.length = 1 := by
  obtain ⟨a, k, b, hsplit, hkey, hb, hsnap⟩ := snapshot_eq hhead hparam hidr hlast hcaps
  have hparams : ∀ p ∈ paramSets c (frames (us ++ u :: vs)),
      (kind (some c) p).isParamSet = true := by
    intro p hp
    obtain ⟨-, t, ht⟩ := mem_paramSets hp
    simp [ht]
  have hdeltas : ∀ d ∈ Stream.deltas c (b ++ frames vs), IsDelta (kind (some c) d) := by
    intro d hd
    simpa using (List.mem_filter.mp hd).2
  rw [hsnap]
  constructor
  · rintro ⟨ps, ds, heq, hps, hds⟩
    have hone := congrArg (List.filter fun f => kind (some c) f = .keyframe) heq
    rw [filter_keyframe hparams (by simpa using hkey) hdeltas,
      filter_keyframe hps (fun f hf => (mem_slices.mp hf).2) hds] at hone
    rw [← hone]
    rfl
  · intro hone
    obtain ⟨x, hx⟩ := List.length_eq_one_iff.mp hone
    have hk : k ∈ u.slices := mem_slices.mpr ⟨by simp [hsplit], hkey⟩
    rw [hx, List.mem_singleton] at hk
    exact ⟨_, _, by rw [hx, hk], hparams, hdeltas⟩

/-- SPS, PPS, and an IDR picture of one slice. -/
def oneSlice : AccessUnit .h264 :=
  .ofNoDelta [stamp [0x67, 0x42], stamp [0x68, 0xce], stamp [0x65, 0x88]] (by decide +kernel)

/-- SPS, PPS, and an IDR picture of two slices. -/
def twoSlices : AccessUnit .h264 :=
  .ofNoDelta [stamp [0x67, 0x42], stamp [0x68, 0xce], stamp [0x65, 0x88], stamp [0x65, 0x04]]
    (by decide +kernel)

theorem wholeIn_snapshot_iff_oneSlice :
    oneSlice.WholeIn (WarmupWindow.default.recordAll (frames [oneSlice])).snapshot ↔
      oneSlice.slices.length = 1 :=
  wholeIn_snapshot_iff [] [] oneSlice (p := stamp [0x67, 0x42]) (t := 7) (by decide +kernel)
    (by decide +kernel)
    (show oneSlice.slices ≠ [] by decide +kernel) (by simp) (.of_totalBytes (by decide +kernel))

/-- Of a picture of two slices only the second is replayed. -/
theorem first_slice_dropped :
    ¬ ∀ (us vs : List (AccessUnit .h264)) (u : AccessUnit .h264) (p : Bytes) (t : UInt8),
      (frames (us ++ u :: vs)).head? = some p → kind none p = .paramSet .h264 t → u.IsIdr →
      (∀ v ∈ vs, ¬ v.IsIdr) → u.InsideCaps vs →
      u.WholeIn (WarmupWindow.default.recordAll (frames (us ++ u :: vs))).snapshot := by
  intro h
  obtain ⟨ps, ds, hsnap, -, -⟩ :=
    h [] [] twoSlices (stamp [0x67, 0x42]) 7 (by decide +kernel) (by decide +kernel)
    (show twoSlices.slices ≠ [] by decide +kernel) (by simp) (.of_totalBytes (by decide +kernel))
  have hfirst : stamp [0x65, 0x88] ∈ ps ++ twoSlices.slices ++ ds :=
    List.mem_append_left _ (List.mem_append_right _ (by decide +kernel))
  rw [← hsnap] at hfirst
  revert hfirst
  decide +kernel

end AccessUnit

end XyzenRelay.Stream
