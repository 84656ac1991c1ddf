-- SUMMARY: A snapshot recorded into a fresh window gives the window it was taken from.
import XyzenRelay.Stream.Discovery

/-!
# Recording a snapshot

What a late viewer is sent is a history of its own: the parameter sets in numeric
order, the last keyframe, and the deltas after it. Its first frame is a parameter set
of the locked codec, and no such frame is taken for the other codec in discovery mode,
so the fresh window locks the same codec and tracks the same slots.
-/

namespace XyzenRelay.Stream

open WarmupWindow (IsDelta)

/-! ## Parameter sets in discovery mode -/

/-- An H.264 parameter set is no HEVC one: the two bytes its type allows in each of the
    four `nal_ref_idc` classes have the HEVC types 3, 4, 19, 20, 35, 36, 51 and 52. -/
theorem not_hevc_of_h264 :
    ∀ b : UInt8, IsH264ParamSet (h264Type b) → ¬ IsHevcParamSet (hevcType b) :=
  forall_byte (by decide +kernel)

/-- Discovery mode reports a parameter set of a codec as what it is. -/
theorem classifyNal_discovers {f : Bytes} {c : Codec} {t : UInt8}
    (h : classifyNal f (some c) = .paramSet c t) : classifyNal f none = .paramSet c t := by
  obtain ⟨b, hb⟩ := header_of_classifyNal (f := f) (c := some c) (by simp [h])
  rw [hb] at h ⊢
  cases c with
  | hevc =>
    simp only [classifyHeader] at h ⊢
    split_ifs at h with hparam
    rw [if_pos hparam]
    exact h
  | h264 =>
    simp only [classifyHeader] at h ⊢
    split_ifs at h with hparam
    rw [if_neg (not_hevc_of_h264 b hparam), if_pos hparam]
    exact h

/-! ## The specification on a replay -/

section Replayed

variable {φ : Type} [Frame φ] {c : Codec} {K ds : List φ} {k : φ}

theorem deltas_deltas (fs : List φ) : deltas c (deltas c fs) = deltas c fs := by
  simp [deltas, List.filter_filter]

theorem isDelta_of_mem_deltas {fs : List φ} {f : φ} (h : f ∈ deltas c fs) :
    IsDelta (kind (some c) f) := by
  simpa using (List.mem_filter.mp h).2

theorem burst_replay (hb : burst c K = some (k, ds)) (ps : List φ) :
    burst c (ps ++ k :: ds) = some (k, ds) := by
  obtain ⟨post, hlast, rfl, hfits⟩ := burst_eq_some hb
  obtain ⟨-, -, hk, -⟩ := lastKey_split hlast
  have hnokey : ∀ f ∈ deltas c post, kind (some c) f ≠ .keyframe := by
    intro f hf hkey
    rcases isDelta_of_mem_deltas hf with h | h <;> simp [h] at hkey
  rw [burst, lastKey_of_split hk hnokey]
  simp only [deltas_deltas, if_pos hfits]

/-- A frame of the parameter sets is the last one of its type. -/
theorem lastParamSet_of_mem {f : φ} {t : UInt8} (hf : f ∈ paramSets c K)
    (ht : kind (some c) f = .paramSet c t) : lastParamSet c t K = some f := by
  obtain ⟨i, -, hi⟩ := List.mem_filterMap.mp hf
  have hkind := (mem_of_lastParamSet hi).2
  rw [ht, NalKind.paramSet.injEq] at hkind
  rw [hkind.2]
  exact hi

theorem mem_paramSets_of_last {f : φ} {t : UInt8} (h : lastParamSet c t K = some f) :
    f ∈ paramSets c K := by
  refine List.mem_filterMap.mpr ⟨t.toNat, List.mem_range.mpr t.toNat_lt, ?_⟩
  rw [UInt8.ofNat_toNat]
  exact h

/-- A replay has the parameter sets it was made from. -/
theorem lastParamSet_replay (hb : burst c K = some (k, ds)) (t : UInt8) :
    lastParamSet c t (paramSets c K ++ k :: ds) = lastParamSet c t K := by
  obtain ⟨post, hlast, rfl, -⟩ := burst_eq_some hb
  obtain ⟨-, -, hk, -⟩ := lastKey_split hlast
  -- every frame of the type stems from the parameter sets, so it is the last of the type
  have hmem : ∀ f, lastParamSet c t (paramSets c K ++ k :: deltas c post) = some f →
      lastParamSet c t K = some f := by
    intro f hf
    obtain ⟨hin, ht⟩ := mem_of_lastParamSet hf
    rcases List.mem_append.mp hin with hin | hin
    · exact lastParamSet_of_mem hin ht
    · rcases List.mem_cons.mp hin with rfl | hin
      · simp [hk] at ht
      · rcases isDelta_of_mem_deltas hin with h | h <;> simp [h] at ht
  cases hreplay : lastParamSet c t (paramSets c K ++ k :: deltas c post) with
  | some f => exact (hmem f hreplay).symm
  | none =>
    cases horig : lastParamSet c t K with
    | none => rfl
    | some f =>
      have ht := (mem_of_lastParamSet horig).2
      have hin : f ∈ (paramSets c K ++ k :: deltas c post).filter
          fun f => kind (some c) f = .paramSet c t := by
        simp [mem_paramSets_of_last horig, ht]
      rw [lastParamSet, List.getLast?_eq_none_iff] at hreplay
      rw [hreplay] at hin
      simp at hin

theorem paramSets_replay (hb : burst c K = some (k, ds)) :
    paramSets c (paramSets c K ++ k :: ds) = paramSets c K :=
  List.filterMap_congr fun _ _ => lastParamSet_replay hb _

/-- A replay of a locked history begins with a parameter set of the codec, also in
    discovery mode. -/
theorem head_replay {p : φ} {rest : List φ} (hhead : paramSets c K ++ k :: ds = p :: rest)
    (hlock : ∃ q fs t, K = q :: fs ∧ kind none q = .paramSet c t) :
    ∃ t, kind none p = .paramSet c t := by
  obtain ⟨q, fs, t, rfl, hq⟩ := hlock
  obtain ⟨r, hr, -⟩ := exists_mem_paramSets (H := q :: fs) List.mem_cons_self
    (show kind (some c) q = .paramSet c t from classifyNal_lock hq)
  cases hps : paramSets c (q :: fs) with
  | nil => simp [hps] at hr
  | cons s ps =>
    rw [hps, List.cons_append, List.cons.injEq] at hhead
    obtain ⟨-, u, hu⟩ := mem_paramSets (hps ▸ List.mem_cons_self : s ∈ paramSets c (q :: fs))
    exact ⟨u, hhead.1 ▸ classifyNal_discovers hu⟩

end Replayed

/-! ## The fresh window -/

/-- The windows agree in every field; the maps agree as maps. -/
structure SameWindow (w w' : WarmupWindow Bytes) : Prop where
  codec : w'.codec = w.codec
  params : ∀ t, w'.paramSets.lookup t = w.paramSets.lookup t
  keyframe : w'.keyframe = w.keyframe
  keyBytes : w'.keyframeTotalBytes = w.keyframeTotalBytes
  since : w'.sinceKeyframe = w.sinceKeyframe
  sinceBytes : w'.sinceKeyframeTotalBytes = w.sinceKeyframeTotalBytes

/-- Windows that track histories with the same burst and parameter sets agree. -/
theorem Tracks.same {c : Codec} {K S : List Bytes} {w w' : WarmupWindow Bytes}
    (hw : Tracks c K w) (hw' : Tracks c S w') (hb : burst c S = burst c K)
    (hparams : ∀ t, lastParamSet c t S = lastParamSet c t K) : SameWindow w w' where
  codec := hw'.codec.trans hw.codec.symm
  params := fun t => by rw [hw'.params, hw.params, hparams]
  keyframe := by rw [hw'.keyframe, hw.keyframe, hb]
  keyBytes := by rw [hw'.keyBytes, hw.keyBytes, hb]
  since := by rw [hw'.since, hw.since, hb]
  sinceBytes := by rw [hw'.sinceBytes, hw.sinceBytes, hb]

/-- The frames, recorded in order into a fresh window. -/
def rerecord (fs : List Bytes) : WarmupWindow Bytes := WarmupWindow.default.recordAll fs

/-- What recording a snapshot gives: the snapshot again; the same window, if there was
    a snapshot at all; each frame classified as the old window classifies it; and both
    caps observed. -/
structure Reproduces (w : WarmupWindow Bytes) : Prop where
  snapshot : (rerecord w.snapshot).snapshot = w.snapshot
  window : w.snapshot ≠ [] → SameWindow w (rerecord w.snapshot)
  classified : ∀ pre f post, w.snapshot = pre ++ f :: post →
    kind (rerecord pre).codec f = kind w.codec f
  keyCap : ∀ k ∈ (rerecord w.snapshot).keyframe, len k ≤ WARMUP_KEY_MAX_BYTES
  deltaCap : totalBytes (rerecord w.snapshot).sinceKeyframe ≤ WARMUP_DELTA_MAX_BYTES

theorem reproduces_of_empty {w : WarmupWindow Bytes} (h : w.snapshot = []) : Reproduces w where
  snapshot := by rw [h]; rfl
  window := fun hne => absurd h hne
  classified := fun pre f post hsplit => by simp [h] at hsplit
  keyCap := by rw [h]; simp [rerecord, WarmupWindow.default]
  deltaCap := by rw [h]; simp [rerecord, WarmupWindow.default]

theorem reproduces_of_burst {c : Codec} {K ds : List Bytes} {k : Bytes} {w : WarmupWindow Bytes}
    (hw : Tracks c K w) (hb : burst c K = some (k, ds))
    (hlock : ∃ q fs t, K = q :: fs ∧ kind none q = .paramSet c t) : Reproduces w := by
  have hsnap := hw.snapshot
  rw [hb] at hsnap
  simp only at hsnap
  have hdiscover : ∀ p rest, w.snapshot = p :: rest → ∀ fs,
      discover (p :: fs) = some (c, p :: fs) := by
    intro p rest hhead fs
    obtain ⟨t, ht⟩ := head_replay (hsnap.symm.trans hhead) hlock
    exact discover_of_head rfl ht
  obtain ⟨p, rest, hhead⟩ : ∃ p rest, w.snapshot = p :: rest := by
    cases hcases : w.snapshot with
    | nil => simp [hsnap] at hcases
    | cons p rest => exact ⟨p, rest, rfl⟩
  have hw' : Tracks c w.snapshot (rerecord w.snapshot) :=
    tracks_of_discover (hhead ▸ hdiscover p rest hhead rest)
  have hb' : burst c w.snapshot = some (k, ds) := by
    rw [hsnap]
    exact burst_replay hb _
  have hparams : ∀ t, lastParamSet c t w.snapshot = lastParamSet c t K := by
    intro t
    rw [hsnap]
    exact lastParamSet_replay hb t
  obtain ⟨-, -, -, hfits⟩ := burst_eq_some hb
  refine ⟨?_, fun _ => hw.same hw' (hb'.trans hb.symm) hparams, ?_, ?_, ?_⟩
  · have hsnap' := hw'.snapshot
    rw [hb'] at hsnap'
    simp only at hsnap'
    rw [hsnap', hsnap, paramSets_replay hb]
  · intro pre f post hsplit
    rw [rerecord, recordAll_codec, hw.codec]
    cases pre with
    | nil =>
      -- the first frame is the one that locks the codec again
      obtain ⟨t, ht⟩ := head_replay (hsnap.symm.trans hsplit) hlock
      show kind none f = kind (some c) f
      rw [ht, show kind (some c) f = _ from classifyNal_lock ht]
    | cons q pre =>
      rw [codecOf, hdiscover q _ hsplit]
      rfl
  · rw [hw'.keyframe, hb']
    simpa using hfits.1
  · rw [hw'.since, hb']
    exact hfits.2

/-- After any recorded history, a fresh window into which the snapshot is recorded has
    that snapshot: it locks the same codec, classifies every frame the same way, fills
    the same slots, and runs into no cap. -/
theorem snapshot_reproduces (H : List Bytes) : Reproduces (WarmupWindow.default.recordAll H) := by
  cases hd : discover H with
  | none =>
    rw [recordAll_of_undiscovered hd]
    exact reproduces_of_empty rfl
  | some r =>
    obtain ⟨c, K⟩ := r
    have hw : Tracks c K _ := tracks_of_discover hd
    cases hb : burst c K with
    | none =>
      have hsnap := hw.snapshot
      rw [hb] at hsnap
      exact reproduces_of_empty hsnap
    | some b => exact reproduces_of_burst hw hb (head_of_discover hd)

end XyzenRelay.Stream
