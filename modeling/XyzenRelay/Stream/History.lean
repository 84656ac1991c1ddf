-- SUMMARY: What the warm-up window should hold, as a function of the whole recorded history, and the proof that record and snapshot refine it.
import XyzenRelay.Stream.Warmup
import Mathlib.Data.List.Induction

/-!
# The history specification of the warm-up window

`historySnapshot H` says, in terms of the recorded history `H` alone, what a
viewer should be replayed. It knows nothing of slots, counters or overflow.
`Tracks c H w` relates a window locked to the codec `c` to the history since the
lock, and is preserved by `record`.
-/

namespace XyzenRelay.Stream

variable {φ : Type} [Frame φ]

open WarmupWindow (IsDelta)

/-! ## The specification -/

/-- The codec the first recognisable parameter set implies, and the history from
    that frame on. -/
def discover : List φ → Option (Codec × List φ)
  | [] => none
  | f :: fs =>
    match kind none f with
    | .paramSet c _ => some (c, f :: fs)
    | _ => discover fs

/-- The codec the history implies. -/
def codecOf (H : List φ) : Option Codec := (discover H).map Prod.fst

section Locked

variable (c : Codec)

/-- The last keyframe of the history, with the frames after it. -/
def lastKey : List φ → Option (φ × List φ)
  | [] => none
  | f :: fs =>
    match lastKey fs with
    | some r => some r
    | none => if kind (some c) f = .keyframe then some (f, fs) else none

/-- The delta and unknown frames, in order. -/
def deltas (fs : List φ) : List φ := fs.filter fun f => IsDelta (kind (some c) f)

/-- The last parameter set of type `t`. -/
def lastParamSet (t : UInt8) (H : List φ) : Option φ :=
  (H.filter fun f => kind (some c) f = .paramSet c t).getLast?

/-- For every parameter-set type seen, in increasing numeric order, the last frame
    of that type. -/
def paramSets (H : List φ) : List φ :=
  (List.range 256).filterMap fun t => lastParamSet c (UInt8.ofNat t) H

/-- The caps admit the key `k` with the deltas `ds` after it. -/
def Fits (k : φ) (ds : List φ) : Prop :=
  len k ≤ WARMUP_KEY_MAX_BYTES ∧ totalBytes ds ≤ WARMUP_DELTA_MAX_BYTES

instance (k : φ) (ds : List φ) : Decidable (Fits k ds) :=
  inferInstanceAs (Decidable (_ ∧ _))

/-- The last keyframe with every delta after it, unless a cap is exceeded. -/
def burst (H : List φ) : Option (φ × List φ) :=
  match lastKey c H with
  | none => none
  | some (k, post) => if Fits k (deltas c post) then some (k, deltas c post) else none

end Locked

/-- The replay the history calls for: nothing without an admissible burst, and the
    latest parameter sets in front of it otherwise. -/
def historySnapshot (H : List φ) : List φ :=
  match discover H with
  | none => []
  | some (c, H) =>
    match burst c H with
    | none => []
    | some (k, ds) => paramSets c H ++ k :: ds

/-! ## How the specification grows with the history -/

section Growth

variable {c : Codec} {H : List φ} {f : φ}

theorem lastKey_append_key (h : kind (some c) f = .keyframe) :
    lastKey c (H ++ [f]) = some (f, []) := by
  induction H with
  | nil => simp [lastKey, h]
  | cons g H ih => simp [lastKey, ih]

theorem lastKey_append_other (h : kind (some c) f ≠ .keyframe) :
    lastKey c (H ++ [f]) = (lastKey c H).map fun r => (r.1, r.2 ++ [f]) := by
  induction H with
  | nil => simp [lastKey, h]
  | cons g H ih =>
    rw [List.cons_append, lastKey, ih, lastKey]
    cases lastKey c H with
    | some r => rfl
    | none => by_cases hg : kind (some c) g = .keyframe <;> simp [hg]

theorem deltas_append_delta (h : IsDelta (kind (some c) f)) :
    deltas c (H ++ [f]) = deltas c H ++ [f] := by
  simp [deltas, h]

theorem deltas_append_other (h : ¬ IsDelta (kind (some c) f)) :
    deltas c (H ++ [f]) = deltas c H := by
  simp [deltas, h]

theorem burst_append_key (h : kind (some c) f = .keyframe) :
    burst c (H ++ [f]) = if len f ≤ WARMUP_KEY_MAX_BYTES then some (f, []) else none := by
  simp [burst, lastKey_append_key h, Fits, deltas]

theorem burst_append_paramSet {d : Codec} {t : UInt8} (h : kind (some c) f = .paramSet d t) :
    burst c (H ++ [f]) = burst c H := by
  have hnot : ¬ IsDelta (kind (some c) f) := by simp [IsDelta, h]
  rw [burst, lastKey_append_other (by simp [h]), burst]
  cases lastKey c H with
  | none => rfl
  | some r => simp [deltas_append_other hnot]

theorem burst_append_delta (h : IsDelta (kind (some c) f)) :
    burst c (H ++ [f]) =
      match burst c H with
      | none => none
      | some (k, ds) =>
        if totalBytes ds + len f ≤ WARMUP_DELTA_MAX_BYTES then some (k, ds ++ [f]) else none := by
  have hkey : kind (some c) f ≠ .keyframe := by
    rcases h with h | h <;> simp [h]
  rw [burst, lastKey_append_other hkey, burst]
  cases lastKey c H with
  | none => rfl
  | some r =>
    simp only [Option.map_some, deltas_append_delta h, Fits, totalBytes_append,
      totalBytes_singleton]
    by_cases hlen : len r.1 ≤ WARMUP_KEY_MAX_BYTES
    · by_cases hfit : totalBytes (deltas c r.2) ≤ WARMUP_DELTA_MAX_BYTES
      · simp [hlen, hfit]
      · have hfit' : ¬ totalBytes (deltas c r.2) + len f ≤ WARMUP_DELTA_MAX_BYTES := by omega
        simp [hlen, hfit, hfit']
    · simp [hlen]

theorem lastParamSet_append_same {t : UInt8} (h : kind (some c) f = .paramSet c t) :
    lastParamSet c t (H ++ [f]) = some f := by
  simp [lastParamSet, h]

theorem lastParamSet_append_other {t : UInt8} (h : kind (some c) f ≠ .paramSet c t) :
    lastParamSet c t (H ++ [f]) = lastParamSet c t H := by
  simp [lastParamSet, h]

/-- A burst is the last keyframe with the deltas after it, within the caps. -/
theorem burst_eq_some {k : φ} {ds : List φ} (h : burst c H = some (k, ds)) :
    ∃ post, lastKey c H = some (k, post) ∧ ds = deltas c post ∧ Fits k ds := by
  unfold burst at h
  split at h
  · simp at h
  · next post hlast =>
    split_ifs at h with hfit
    simp only [Option.some.injEq, Prod.mk.injEq] at h
    obtain ⟨rfl, rfl⟩ := h
    exact ⟨post, hlast, rfl, hfit⟩

end Growth

/-! ## The simulation -/

/-- The window holds what the history since the lock calls for. -/
structure Tracks (c : Codec) (H : List φ) (w : WarmupWindow φ) : Prop where
  codec : w.codec = some c
  params : ∀ t, w.paramSets.lookup t = lastParamSet c t H
  keyframe : w.keyframe = (burst c H).elim [] fun b => [b.1]
  keyBytes : w.keyframeTotalBytes = (burst c H).elim 0 fun b => len b.1
  since : w.sinceKeyframe = (burst c H).elim [] fun b => b.2
  sinceBytes : w.sinceKeyframeTotalBytes = (burst c H).elim 0 fun b => totalBytes b.2

namespace Tracks

variable {c : Codec} {H : List φ} {w : WarmupWindow φ}

theorem record_paramSet (hw : Tracks c H w) {f : φ} {t : UInt8}
    (h : kind (some c) f = .paramSet c t) : Tracks c (H ++ [f]) (w.record f).2 := by
  have hb := burst_append_paramSet (H := H) h
  rw [WarmupWindow.record_paramSet (by rw [hw.codec]; exact h)]
  constructor
  · simp [hw.codec]
  · intro u
    by_cases hu : u = t
    · subst hu
      rw [lastParamSet_append_same h]
      exact AList.lookup_insert _
    · have hne : kind (some c) f ≠ .paramSet c u := by
        rw [h]
        simpa using Ne.symm hu
      rw [lastParamSet_append_other hne, ← hw.params u]
      exact AList.lookup_insert_ne hu
  · rw [hb]; exact hw.keyframe
  · rw [hb]; exact hw.keyBytes
  · rw [hb]; exact hw.since
  · rw [hb]; exact hw.sinceBytes

theorem record_keyframe (hw : Tracks c H w) {f : φ} (h : kind (some c) f = .keyframe) :
    Tracks c (H ++ [f]) (w.record f).2 := by
  have hk : kind w.codec f = .keyframe := by rw [hw.codec]; exact h
  have hparams : ∀ t, w.paramSets.lookup t = lastParamSet c t (H ++ [f]) := by
    intro t
    rw [lastParamSet_append_other (by simp [h])]
    exact hw.params t
  have hb := burst_append_key (H := H) h
  by_cases hlen : len f ≤ WARMUP_KEY_MAX_BYTES
  · rw [WarmupWindow.record_keyframe hk hlen]
    rw [if_pos hlen] at hb
    exact ⟨hw.codec, hparams, by rw [hb]; rfl, by rw [hb]; rfl, by rw [hb]; rfl, by rw [hb]; rfl⟩
  · rw [WarmupWindow.record_keyframe_oversize hk (by omega)]
    rw [if_neg hlen] at hb
    exact ⟨hw.codec, hparams, by rw [hb]; rfl, by rw [hb]; rfl, by rw [hb]; rfl, by rw [hb]; rfl⟩

theorem record_delta (hw : Tracks c H w) {f : φ} (h : IsDelta (kind (some c) f)) :
    Tracks c (H ++ [f]) (w.record f).2 := by
  have hd : IsDelta (kind w.codec f) := by rw [hw.codec]; exact h
  have hparams : ∀ t, w.paramSets.lookup t = lastParamSet c t (H ++ [f]) := by
    intro t
    have hne : kind (some c) f ≠ .paramSet c t := by
      rcases h with h | h <;> simp [h]
    rw [lastParamSet_append_other hne]
    exact hw.params t
  have hb := burst_append_delta (H := H) h
  obtain ⟨hcodec, -, hkey, hkeyB, hsince, hsinceB⟩ := hw
  cases hburst : burst c H with
  | none =>
    -- nothing is cached, so the delta is ignored
    rw [hburst] at hb hkey hkeyB hsince hsinceB
    rw [WarmupWindow.record_delta_unanchored hd hkey]
    exact ⟨hcodec, hparams, by rw [hb]; exact hkey, by rw [hb]; exact hkeyB,
      by rw [hb]; exact hsince, by rw [hb]; exact hsinceB⟩
  | some b =>
    obtain ⟨k, ds⟩ := b
    rw [hburst] at hb hkey hkeyB hsince hsinceB
    simp only [Option.elim_some] at hb hkey hkeyB hsince hsinceB
    have hne : w.keyframe ≠ [] := by simp [hkey]
    by_cases hfit : totalBytes ds + len f ≤ WARMUP_DELTA_MAX_BYTES
    · rw [WarmupWindow.record_delta hd hne (by rw [hsinceB]; exact hfit)]
      rw [if_pos hfit] at hb
      refine ⟨hcodec, hparams, ?_, ?_, ?_, ?_⟩ <;> rw [hb]
      · exact hkey
      · exact hkeyB
      · simp [hsince]
      · simp [hsinceB]
    · rw [WarmupWindow.record_delta_overflow hd hne (by rw [hsinceB]; omega)]
      rw [if_neg hfit] at hb
      exact ⟨hcodec, hparams, by rw [hb]; rfl, by rw [hb]; rfl, by rw [hb]; rfl, by rw [hb]; rfl⟩

/-- One recorded frame extends the tracked history by that frame. -/
theorem record (hw : Tracks c H w) (f : φ) : Tracks c (H ++ [f]) (w.record f).2 := by
  rcases WarmupWindow.kind_cases (some c) f with ⟨d, t, h⟩ | h | h
  · obtain rfl : d = c := classifyNal_codec h
    exact hw.record_paramSet h
  · exact hw.record_keyframe h
  · exact hw.record_delta h

theorem recordAll (hw : Tracks c H w) (fs : List φ) : Tracks c (H ++ fs) (w.recordAll fs) := by
  induction fs generalizing H w with
  | nil => simpa using hw
  | cons f fs ih => simpa using ih (hw.record f)

end Tracks

/-- The frame that locks the codec starts the tracked history. -/
theorem tracks_lock {f : φ} {c : Codec} {t : UInt8} (h : kind none f = .paramSet c t) :
    Tracks c [f] (WarmupWindow.default.record f).2 := by
  have hlocked : kind (some c) f = .paramSet c t := classifyNal_lock h
  have hburst : burst c [f] = none := by simp [burst, lastKey, hlocked]
  rw [WarmupWindow.record_paramSet (show kind WarmupWindow.default.codec f = _ from h)]
  constructor
  · rfl
  · intro u
    by_cases hu : u = t
    · subst hu
      rw [show lastParamSet c u [f] = some f by simp [lastParamSet, hlocked]]
      exact AList.lookup_insert _
    · have hne : NalKind.paramSet c t ≠ .paramSet c u := by simpa using Ne.symm hu
      rw [show lastParamSet c u [f] = none by simp [lastParamSet, hlocked, hne]]
      rw [AList.lookup_insert_ne hu]
      exact AList.lookup_empty u
  all_goals rw [hburst]; rfl

/-- Before the lock nothing is recorded. -/
theorem record_undiscovered {f : φ} (h : kind none f = .unknown) :
    (WarmupWindow.default.record f).2 = WarmupWindow.default :=
  WarmupWindow.record_delta_unanchored (w := WarmupWindow.default) (.inr h) rfl

/-- The window after any history: the default one as long as no codec is known,
    and one that tracks the history since the lock afterwards. -/
theorem recordAll_cases (H : List φ) :
    match discover H with
    | none => WarmupWindow.default.recordAll H = WarmupWindow.default
    | some (c, H') => Tracks c H' (WarmupWindow.default.recordAll H) := by
  induction H with
  | nil => rfl
  | cons f H ih =>
    rcases classifyNal_none_cases (bytes f) with ⟨c, t, h⟩ | h
    · have hk : kind none f = .paramSet c t := h
      simp only [discover, hk]
      exact (tracks_lock hk).recordAll H
    · have hk : kind none f = .unknown := h
      simp only [discover, hk, WarmupWindow.recordAll_cons, record_undiscovered hk]
      exact ih

/-- A history without a parameter set leaves no trace. -/
theorem recordAll_of_undiscovered {H : List φ} (h : discover H = none) :
    WarmupWindow.default.recordAll H = WarmupWindow.default := by
  have hcases := recordAll_cases H
  rwa [h] at hcases

theorem tracks_of_discover {H H' : List φ} {c : Codec} (h : discover H = some (c, H')) :
    Tracks c H' (WarmupWindow.default.recordAll H) := by
  have hcases := recordAll_cases H
  rwa [h] at hcases

/-- The codec of the window is the one its history implies. -/
theorem recordAll_codec (H : List φ) : (WarmupWindow.default.recordAll H).codec = codecOf H := by
  unfold codecOf
  cases hd : discover H with
  | none =>
    rw [recordAll_of_undiscovered hd]
    rfl
  | some r => exact (tracks_of_discover hd).codec

/-- As long as no codec is known nothing is cached. -/
theorem recordAll_unlocked {H : List φ} (h : (WarmupWindow.default.recordAll H).codec = none) :
    WarmupWindow.default.recordAll H = WarmupWindow.default := by
  rw [recordAll_codec, codecOf, Option.map_eq_none_iff] at h
  exact recordAll_of_undiscovered h

/-- A room never leaves the codec it is locked to. -/
theorem codecOf_append {H : List φ} {c : Codec} (h : codecOf H = some c) (fs : List φ) :
    codecOf (H ++ fs) = some c := by
  unfold codecOf at h ⊢
  induction H with
  | nil => simp [discover] at h
  | cons f H ih =>
    rw [discover] at h
    rw [List.cons_append, discover]
    split at h
    · next heq => simpa [heq] using h
    · exact ih h

/-! ## The snapshot -/

omit [Frame φ] in
/-- Walking the sorted keys of a map visits its entries in numeric order. -/
theorem filterMap_sortedKeys (m : ParamSets φ) :
    (WarmupWindow.sortedKeys m).filterMap (fun k => m.lookup k) =
      (List.range 256).filterMap fun t => m.lookup (UInt8.ofNat t) := by
  -- the keys, sorted, are the `u8` values that are keys, in increasing order
  have hsorted : WarmupWindow.sortedKeys m =
      ((List.range 256).map UInt8.ofNat).filter fun k => k ∈ m.keys := by
    have hrange : ((List.range 256).map UInt8.ofNat).Pairwise (· < ·) := by
      apply List.pairwise_map.mpr
      apply List.pairwise_lt_range.imp_of_mem
      intro i j _ hj hij
      rw [UInt8.lt_iff_toNat_lt, UInt8.toNat_ofNat', UInt8.toNat_ofNat']
      have := List.mem_range.mp hj
      omega
    have hmem : ∀ k : UInt8, k ∈ (List.range 256).map UInt8.ofNat := by
      intro k
      exact List.mem_map.mpr ⟨k.toNat, List.mem_range.mpr k.toNat_lt, UInt8.ofNat_toNat⟩
    apply List.Perm.eq_of_pairwise' (r := (· ≤ ·))
    · exact List.pairwise_insertionSort _ _
    · exact (hrange.filter _).imp fun h => UInt8.le_of_lt h
    · apply (List.perm_insertionSort _ _).trans
      apply (List.perm_ext_iff_of_nodup m.keys_nodup _).mpr
      · intro k
        simp [hmem k]
      · exact (hrange.imp fun h => UInt8.ne_of_lt h).filter _
  rw [hsorted, List.filterMap_filter, List.filterMap_map]
  apply List.filterMap_congr
  intro t _
  simp only [Function.comp_apply]
  by_cases hk : UInt8.ofNat t ∈ m.keys
  · simp [hk]
  · have hnone : m.lookup (UInt8.ofNat t) = none := AList.lookup_eq_none.mpr hk
    simp [hk, hnone]

theorem Tracks.snapshot {c : Codec} {H : List φ} {w : WarmupWindow φ} (hw : Tracks c H w) :
    w.snapshot = match burst c H with
      | none => []
      | some (k, ds) => paramSets c H ++ k :: ds := by
  have hkey := hw.keyframe
  have hsince := hw.since
  unfold WarmupWindow.snapshot
  cases hb : burst c H with
  | none => simp [hb] at hkey; simp [hkey]
  | some b =>
    rw [hb] at hkey hsince
    simp only [Option.elim_some] at hkey hsince
    rw [filterMap_sortedKeys]
    simp [hkey, hsince, hw.params, paramSets]

/-- After every history the snapshot is the one the history calls for. -/
theorem snapshot_recordAll (H : List Bytes) :
    (WarmupWindow.default.recordAll H).snapshot = historySnapshot H := by
  unfold historySnapshot
  cases hd : discover H with
  | none =>
    rw [recordAll_of_undiscovered hd]
    rfl
  | some r => exact (tracks_of_discover hd).snapshot

/-! ## What a non-empty snapshot consists of -/

theorem mem_of_lastParamSet {c : Codec} {t : UInt8} {H : List φ} {p : φ}
    (h : lastParamSet c t H = some p) :
    p ∈ H ∧ kind (some c) p = .paramSet c t := by
  simpa using List.mem_filter.mp (List.mem_of_getLast? h)

theorem discover_split {H H' : List φ} {c : Codec} (h : discover H = some (c, H')) : H' <:+ H := by
  induction H with
  | nil => simp [discover] at h
  | cons f H ih =>
    rw [discover] at h
    split at h
    · simp only [Option.some.injEq, Prod.mk.injEq] at h
      exact h.2 ▸ List.suffix_refl _
    · exact (ih h).trans (List.suffix_cons f H)

/-- The tracked history begins with the frame that locked the codec. -/
theorem head_of_discover {H K : List φ} {c : Codec} (h : discover H = some (c, K)) :
    ∃ p fs t, K = p :: fs ∧ kind none p = .paramSet c t := by
  induction H with
  | nil => simp [discover] at h
  | cons f H ih =>
    rw [discover] at h
    split at h
    · next d t hf =>
      simp only [Option.some.injEq, Prod.mk.injEq] at h
      obtain ⟨rfl, rfl⟩ := h
      exact ⟨f, H, t, rfl, hf⟩
    · exact ih h

/-- A history that begins with a parameter set is locked from its first frame on. -/
theorem discover_of_head {H : List φ} {p : φ} {c : Codec} {t : UInt8} (hhead : H.head? = some p)
    (hp : kind none p = .paramSet c t) : discover H = some (c, H) := by
  obtain ⟨fs, rfl⟩ := List.head?_eq_some_iff.mp hhead
  simp [discover, hp]

/-- Frames that discovery does not recognise are passed over. -/
theorem discover_append {pre H : List φ} (h : ∀ f ∈ pre, kind none f = .unknown) :
    discover (pre ++ H) = discover H := by
  induction pre with
  | nil => rfl
  | cons f pre ih =>
    rw [List.forall_mem_cons] at h
    rw [List.cons_append, discover, h.1]
    exact ih h.2

/-- Without a last keyframe there is none at all. -/
theorem no_keyframe_of_lastKey {c : Codec} {H : List φ} (h : lastKey c H = none) :
    ∀ f ∈ H, kind (some c) f ≠ .keyframe := by
  induction H with
  | nil => simp
  | cons g H ih =>
    rw [lastKey] at h
    cases hrest : lastKey c H with
    | some r => simp [hrest] at h
    | none =>
      rw [hrest] at h
      have hg : kind (some c) g ≠ .keyframe := by simpa using h
      intro f hf
      rcases List.mem_cons.mp hf with rfl | hf
      · exact hg
      · exact ih hrest f hf

theorem lastKey_split {c : Codec} {H post : List φ} {k : φ} (h : lastKey c H = some (k, post)) :
    ∃ pre, H = pre ++ k :: post ∧ kind (some c) k = .keyframe ∧
      ∀ f ∈ post, kind (some c) f ≠ .keyframe := by
  induction H with
  | nil => simp [lastKey] at h
  | cons f H ih =>
    rw [lastKey] at h
    cases hrest : lastKey c H with
    | some r =>
      rw [hrest] at h
      obtain ⟨pre, hpre, hk, hpost⟩ := ih (hrest.trans h)
      exact ⟨f :: pre, by rw [hpre, List.cons_append], hk, hpost⟩
    | none =>
      rw [hrest] at h
      split_ifs at h with hf
      simp only [Option.some.injEq, Prod.mk.injEq] at h
      obtain ⟨rfl, rfl⟩ := h
      exact ⟨[], rfl, hf, no_keyframe_of_lastKey hrest⟩

/-- A keyframe without a later one is the last. -/
theorem lastKey_of_split {c : Codec} {pre post : List φ} {k : φ} (hk : kind (some c) k = .keyframe)
    (hpost : ∀ f ∈ post, kind (some c) f ≠ .keyframe) :
    lastKey c (pre ++ k :: post) = some (k, post) := by
  induction pre with
  | nil =>
    cases hlast : lastKey c post with
    | none => simp [lastKey, hlast, hk]
    | some r =>
      obtain ⟨a, rfl, hr, -⟩ := lastKey_split hlast
      exact absurd hr (hpost r.1 (by simp))
  | cons f pre ih => rw [List.cons_append, lastKey, ih]

/-- Only the types that were seen count. -/
theorem paramSets_eq {c : Codec} {H : List φ} {T : List UInt8}
    (hts : (List.range 256).filter (fun n => UInt8.ofNat n ∈ T) = T.map UInt8.toNat)
    (honly : ∀ f ∈ H, ∀ t, kind (some c) f = .paramSet c t → t ∈ T) :
    paramSets c H = T.filterMap fun t => lastParamSet c t H := by
  have hnone : ∀ t, t ∉ T → lastParamSet c t H = none := by
    intro t ht
    rw [lastParamSet, List.getLast?_eq_none_iff, List.filter_eq_nil_iff]
    intro f hf hparam
    exact ht (honly f hf t (of_decide_eq_true hparam))
  have hseen : paramSets c H = ((List.range 256).filter fun n => UInt8.ofNat n ∈ T).filterMap
      fun n => lastParamSet c (UInt8.ofNat n) H := by
    rw [List.filterMap_filter, paramSets]
    refine List.filterMap_congr fun n _ => ?_
    by_cases hn : UInt8.ofNat n ∈ T
    · simp [hn]
    · simp [hn, hnone _ hn]
  rw [hseen, hts, List.filterMap_map]
  refine List.filterMap_congr fun t _ => ?_
  simp

/-- The last parameter set of its type. -/
theorem lastParamSet_of_split {c : Codec} {t : UInt8} {earlier later : List φ} {p : φ}
    (hp : kind (some c) p = .paramSet c t) (hlater : ∀ f ∈ later, kind (some c) f ≠ .paramSet c t) :
    lastParamSet c t (earlier ++ p :: later) = some p := by
  have hnone : later.filter (fun f => kind (some c) f = .paramSet c t) = [] := by
    rw [List.filter_eq_nil_iff]
    exact fun f hf hparam => hlater f hf (of_decide_eq_true hparam)
  rw [lastParamSet, List.filter_append, List.filter_cons_of_pos (by simpa using hp), hnone,
    List.getLast?_concat]

/-- The replay of a history with nothing but deltas behind its last keyframe. -/
theorem snapshot_of_keyframe {H pre rest ps : List Bytes} {first : Bytes} {c : Codec}
    (hdisc : discover H = some (c, pre ++ first :: rest))
    (hsets : paramSets c (pre ++ first :: rest) = ps) (hfirst : kind (some c) first = .keyframe)
    (hrest : ∀ f ∈ rest, kind (some c) f = .delta) :
    (WarmupWindow.default.recordAll H).snapshot =
      if Fits first rest then ps ++ first :: rest else [] := by
  have hdeltas : deltas c rest = rest :=
    List.filter_eq_self.mpr fun f hf => by simp [IsDelta, hrest f hf]
  have hlast : lastKey c (pre ++ first :: rest) = some (first, rest) :=
    lastKey_of_split hfirst fun f hf => by simp [hrest f hf]
  rw [snapshot_recordAll, historySnapshot, hdisc]
  simp only [burst, hlast, hdeltas, hsets]
  split_ifs <;> rfl

/-- What a viewer is replayed when the window holds a burst: parameter sets,
    among them one of every type seen, then the last keyframe, then the deltas
    recorded after it. -/
structure Replay (H : List φ) (w : WarmupWindow φ) (c : Codec) (ps : List φ) (k : φ)
    (post : List φ) :
    Prop where
  codec : w.codec = some c
  slots : w.keyframe = [k] ∧ w.sinceKeyframe = deltas c post
  snapshot : w.snapshot = ps ++ k :: deltas c post
  split : ∃ pre, H = pre ++ k :: post
  key : kind (some c) k = .keyframe
  noKey : ∀ f ∈ post, kind (some c) f ≠ .keyframe
  params : ∀ p ∈ ps, p ∈ H ∧ ∃ t, kind (some c) p = .paramSet c t
  seen : ∀ f ∈ H, ∀ t, kind (some c) f = .paramSet c t → ∃ p ∈ ps, kind (some c) p = .paramSet c t

/-- A frame before the lock is no parameter set of the locked codec. -/
theorem mem_of_discover {H H' : List φ} {c : Codec} (h : discover H = some (c, H')) {f : φ}
    (hf : f ∈ H) (hparam : (kind (some c) f).isParamSet = true) : f ∈ H' := by
  induction H with
  | nil => simp at hf
  | cons g H ih =>
    rw [discover] at h
    split at h
    · simp only [Option.some.injEq, Prod.mk.injEq] at h
      rw [← h.2]
      exact hf
    · next hg =>
      rcases List.mem_cons.mp hf with rfl | hf
      · obtain ⟨d, t, ht⟩ := NalKind.isParamSet_iff.mp (isParamSet_of_locked hparam)
        exact absurd ht (hg d t)
      · exact ih h hf

theorem mem_paramSets {c : Codec} {H : List φ} {p : φ} (h : p ∈ paramSets c H) :
    p ∈ H ∧ ∃ t, kind (some c) p = .paramSet c t := by
  obtain ⟨t, -, ht⟩ := List.mem_filterMap.mp h
  exact ⟨(mem_of_lastParamSet ht).1, _, (mem_of_lastParamSet ht).2⟩

theorem exists_mem_paramSets {c : Codec} {H : List φ} {f : φ} {t : UInt8} (hf : f ∈ H)
    (ht : kind (some c) f = .paramSet c t) :
    ∃ p ∈ paramSets c H, kind (some c) p = .paramSet c t := by
  have hne : H.filter (fun f => kind (some c) f = .paramSet c t) ≠ [] := by
    intro hnil
    have hmem : f ∈ H.filter fun f => kind (some c) f = .paramSet c t := by simp [hf, ht]
    rw [hnil] at hmem
    simp at hmem
  obtain ⟨p, hp⟩ : ∃ p, lastParamSet c t H = some p :=
    ⟨_, List.getLast?_eq_some_getLast hne⟩
  refine ⟨p, List.mem_filterMap.mpr ⟨t.toNat, List.mem_range.mpr t.toNat_lt, ?_⟩,
    (mem_of_lastParamSet hp).2⟩
  rw [UInt8.ofNat_toNat]
  exact hp

/-- After every history the window is either empty or holds a replay. -/
theorem replay_cases (H : List φ) :
    let w := WarmupWindow.default.recordAll H
    (w.snapshot = [] ∧ w.keyframe = [] ∧ w.sinceKeyframe = []) ∨
      ∃ c ps k post, Replay H w c ps k post := by
  intro w
  cases hd : discover H with
  | none =>
    have hw : w = WarmupWindow.default := recordAll_of_undiscovered hd
    rw [hw]
    exact .inl ⟨rfl, rfl, rfl⟩
  | some r =>
    obtain ⟨c, H'⟩ := r
    have hw : Tracks c H' w := tracks_of_discover hd
    have hsnap := hw.snapshot
    have hkey := hw.keyframe
    have hsince := hw.since
    cases hb : burst c H' with
    | none =>
      rw [hb] at hsnap hkey hsince
      exact .inl ⟨hsnap, hkey, hsince⟩
    | some b =>
      obtain ⟨k, ds⟩ := b
      rw [hb] at hsnap hkey hsince
      obtain ⟨post, hlast, rfl, -⟩ := burst_eq_some hb
      obtain ⟨pre, hpre, hk, hpost⟩ := lastKey_split hlast
      have hsuf : H' <:+ H := discover_split hd
      refine .inr ⟨c, paramSets c H', k, post, hw.codec, ⟨hkey, hsince⟩, hsnap, ?_, hk,
        hpost, ?_, ?_⟩
      · obtain ⟨before, rfl⟩ := hsuf
        exact ⟨before ++ pre, by rw [hpre, List.append_assoc]⟩
      · intro p hp
        exact ⟨hsuf.subset (mem_paramSets hp).1, (mem_paramSets hp).2⟩
      · intro f hf t ht
        exact exists_mem_paramSets (mem_of_discover hd hf (by simp [ht])) ht

/-- A snapshot only holds recorded frames. -/
theorem mem_of_mem_snapshot {H : List φ} {f : φ}
    (h : f ∈ (WarmupWindow.default.recordAll H).snapshot) : f ∈ H := by
  rcases replay_cases H with ⟨hnil, -, -⟩ | ⟨c, ps, k, post, hreplay⟩
  · simp [hnil] at h
  · obtain ⟨pre, hpre⟩ := hreplay.split
    rw [hreplay.snapshot] at h
    rcases List.mem_append.mp h with h | h
    · exact (hreplay.params f h).1
    · rw [hpre]
      exact List.mem_append_right _ ((List.filter_sublist.cons_cons k).subset h)

/-! ## Frames with labels

A label that leaves the bytes of a frame alone, such as its publish index, changes
nothing: the window of the labelled history is the labelled window. -/

section Labels

variable {ψ : Type} [Frame ψ] {g : φ → ψ}

theorem kind_map (hg : ∀ f, bytes (g f) = bytes f) (known : Option Codec) (f : φ) :
    kind known (g f) = kind known f := by
  rw [kind, kind, hg]

theorem len_map (hg : ∀ f, bytes (g f) = bytes f) (f : φ) : len (g f) = len f := by
  rw [len, len, hg]

theorem discover_map (hg : ∀ f, bytes (g f) = bytes f) (H : List φ) :
    discover (H.map g) = (discover H).map fun r => (r.1, r.2.map g) := by
  induction H with
  | nil => rfl
  | cons f H ih =>
    rw [List.map_cons, discover, discover, kind_map hg, ih]
    cases kind none f <;> rfl

theorem lastKey_map (hg : ∀ f, bytes (g f) = bytes f) (c : Codec) (H : List φ) :
    lastKey c (H.map g) = (lastKey c H).map fun r => (g r.1, r.2.map g) := by
  induction H with
  | nil => rfl
  | cons f H ih =>
    rw [List.map_cons, lastKey, lastKey, ih]
    cases lastKey c H with
    | some r => rfl
    | none =>
      simp only [kind_map hg, Option.map_none]
      split_ifs <;> rfl

theorem deltas_map (hg : ∀ f, bytes (g f) = bytes f) (c : Codec) (H : List φ) :
    deltas c (H.map g) = (deltas c H).map g := by
  simp only [deltas, List.filter_map, Function.comp_def, kind_map hg]

theorem totalBytes_map (hg : ∀ f, bytes (g f) = bytes f) (H : List φ) :
    totalBytes (H.map g) = totalBytes H := by
  simp only [totalBytes, List.map_map, Function.comp_def, len_map hg]

theorem lastParamSet_map (hg : ∀ f, bytes (g f) = bytes f) (c : Codec) (t : UInt8) (H : List φ) :
    lastParamSet c t (H.map g) = (lastParamSet c t H).map g := by
  simp only [lastParamSet, List.filter_map, Function.comp_def, kind_map hg, List.getLast?_map]

theorem paramSets_map (hg : ∀ f, bytes (g f) = bytes f) (c : Codec) (H : List φ) :
    paramSets c (H.map g) = (paramSets c H).map g := by
  simp only [paramSets, lastParamSet_map hg, List.map_filterMap]

theorem burst_map (hg : ∀ f, bytes (g f) = bytes f) (c : Codec) (H : List φ) :
    burst c (H.map g) = (burst c H).map fun r => (g r.1, r.2.map g) := by
  rw [burst, burst, lastKey_map hg]
  cases lastKey c H with
  | none => rfl
  | some r =>
    have hfits : Fits (g r.1) ((deltas c r.2).map g) ↔ Fits r.1 (deltas c r.2) := by
      rw [Fits, Fits, len_map hg, totalBytes_map hg]
    by_cases hfit : Fits r.1 (deltas c r.2) <;> simp [deltas_map hg, hfits, hfit]

/-- The snapshot of a labelled history is the labelled snapshot. -/
theorem snapshot_map (hg : ∀ f, bytes (g f) = bytes f) (H : List φ) :
    (WarmupWindow.default.recordAll (H.map g)).snapshot =
      (WarmupWindow.default.recordAll H).snapshot.map g := by
  have hmap := discover_map hg H
  cases hd : discover H with
  | none =>
    rw [hd, Option.map_none] at hmap
    rw [recordAll_of_undiscovered hd, recordAll_of_undiscovered hmap]
    rfl
  | some r =>
    obtain ⟨c, K⟩ := r
    rw [hd, Option.map_some] at hmap
    rw [(tracks_of_discover hd).snapshot, (tracks_of_discover hmap).snapshot, burst_map hg]
    cases burst c K with
    | none => rfl
    | some b => simp [paramSets_map hg]

end Labels

end XyzenRelay.Stream
