-- SUMMARY: The parameter sets a decoder has active when it meets a frame, in the stream itself and in the replay of a window.
import XyzenRelay.Stream.Join
import Mathlib.Logic.Function.Basic

/-!
# The configuration of a decoder

A decoder is configured, for every parameter-set type, with the last one it was
fed. A replay feeds it the latest parameter sets of the whole history first, also
those the publisher sent after the keyframe, so a replayed picture can meet other
parameter sets than it met in the stream.
-/

namespace XyzenRelay.Stream

open WarmupWindow (IsDelta)

/-! ## Decoders -/

/-- The active parameter set of every type. -/
abbrev Config (φ : Type) := UInt8 → Option φ

section Decoders

variable {φ : Type} [Frame φ] {c : Codec} {t : UInt8}

def Config.feed (c : Codec) (config : Config φ) (f : φ) : Config φ :=
  match kind (some c) f with
  | .paramSet _ t => Function.update config t (some f)
  | _ => config

/-- The configuration of a fresh decoder that has been fed the frames. -/
def Config.after (c : Codec) (fs : List φ) : Config φ := fs.foldl (Config.feed c) fun _ => none

theorem lastParamSet_append (H K : List φ) :
    lastParamSet c t (H ++ K) = (lastParamSet c t K).or (lastParamSet c t H) := by
  simp [lastParamSet, List.getLast?_append]

theorem lastParamSet_eq_none {H : List φ} (h : ∀ f ∈ H, kind (some c) f ≠ .paramSet c t) :
    lastParamSet c t H = none := by
  rw [lastParamSet, List.getLast?_eq_none_iff, List.filter_eq_nil_iff]
  simpa using h

theorem Config.after_eq (c : Codec) (fs : List φ) (t : UInt8) :
    Config.after c fs t = lastParamSet c t fs := by
  induction fs using List.reverseRecOn with
  | nil => rfl
  | append_singleton fs f ih =>
    have hfeed : Config.after c (fs ++ [f]) = Config.feed c (Config.after c fs) f := by
      simp [Config.after]
    rw [hfeed, Config.feed]
    rcases WarmupWindow.kind_cases (some c) f with ⟨d, u, h⟩ | h | h
    · obtain rfl : d = c := classifyNal_codec h
      rw [h]
      by_cases hu : t = u
      · subst hu
        rw [lastParamSet_append_same h]
        exact Function.update_self ..
      · have hne : kind (some d) f ≠ .paramSet d t := by
          rw [h]
          simpa using Ne.symm hu
        rw [lastParamSet_append_other hne, ← ih]
        exact Function.update_of_ne hu ..
    · rw [h, lastParamSet_append_other (by simp [h]), ← ih]
    · have hne : kind (some c) f ≠ .paramSet c t := by
        rcases h with h | h <;> simp [h]
      rw [lastParamSet_append_other hne, ← ih]
      rcases h with h | h <;> rw [h]

/-- The parameter sets in front of a replay configure a decoder with the latest ones. -/
theorem lastParamSet_paramSets (c : Codec) (t : UInt8) (H : List φ) :
    lastParamSet c t (paramSets c H) = lastParamSet c t H := by
  have hlatest : ∀ p ∈ paramSets c H, kind (some c) p = .paramSet c t →
      lastParamSet c t H = some p := by
    intro p hp hkind
    obtain ⟨u, -, hu⟩ := List.mem_filterMap.mp hp
    obtain ⟨-, hut⟩ := NalKind.paramSet.inj ((mem_of_lastParamSet hu).2.symm.trans hkind)
    rwa [hut] at hu
  cases hp : lastParamSet c t (paramSets c H) with
  | some p =>
    obtain ⟨hmem, hkind⟩ := mem_of_lastParamSet hp
    exact (hlatest p hmem hkind).symm
  | none =>
    by_contra hne
    obtain ⟨q, hq⟩ := Option.ne_none_iff_exists'.mp (Ne.symm hne)
    obtain ⟨hmem, hkind⟩ := mem_of_lastParamSet hq
    obtain ⟨p, hpmem, hpkind⟩ := exists_mem_paramSets hmem hkind
    rw [lastParamSet, List.getLast?_eq_none_iff, List.filter_eq_nil_iff] at hp
    exact hp p hpmem (by simpa using hpkind)

/-- The frames before the lock hold no parameter set of the locked codec. -/
theorem lastParamSet_discover {H H' : List φ} (h : discover H = some (c, H')) :
    lastParamSet c t H' = lastParamSet c t H := by
  induction H with
  | nil => simp [discover] at h
  | cons g H ih =>
    rw [discover] at h
    split at h
    · simp only [Option.some.injEq, Prod.mk.injEq] at h
      rw [h.2]
    · next hg =>
      have hnone : kind (some c) g ≠ .paramSet c t := by
        intro hkind
        obtain ⟨d, u, hu⟩ := NalKind.isParamSet_iff.mp
          (isParamSet_of_locked (show (classifyNal (bytes g) (some c)).isParamSet = true by
            rw [show classifyNal (bytes g) (some c) = _ from hkind]; rfl))
        exact hg d u hu
      have hhead : lastParamSet c t [g] = none := lastParamSet_eq_none (by simpa using hnone)
      rw [ih h, ← List.singleton_append, lastParamSet_append, hhead]
      simp

end Decoders

/-! ## The replay, frame by frame -/

/-- The frames of a history with their positions. -/
def number (H : List Bytes) : List Published := H.mapIdx Published.mk

theorem map_bytes_number (H : List Bytes) : (number H).map Published.bytes = H := by
  apply List.ext_getElem <;> simp [number]

theorem number_numbered (H : List Bytes) : Numbered Published.index (number H) := by
  apply List.ext_getElem <;> simp [number]

/-- The snapshot of the window, each frame with its position in the history. -/
def replayed (H : List Bytes) : List Published :=
  (WarmupWindow.default.recordAll (number H)).snapshot

/-- Without the positions it is the snapshot the window of the room gives. -/
theorem map_bytes_replayed (H : List Bytes) :
    (replayed H).map Published.bytes = (WarmupWindow.default.recordAll H).snapshot := by
  rw [replayed, ← snapshot_map (g := Published.bytes) (fun _ => rfl), map_bytes_number]

theorem codecOf_number (H : List Bytes) : codecOf (number H) = codecOf H := by
  have hmap := discover_map (g := Published.bytes) (fun _ => rfl) (number H)
  rw [map_bytes_number] at hmap
  rw [codecOf, codecOf, hmap, Option.map_map]
  rfl

/-- A replay is the latest parameter sets, then the pictures from the last keyframe on. -/
theorem exists_replayed {H : List Bytes} (hne : (WarmupWindow.default.recordAll H).snapshot ≠ []) :
    ∃ c k ds, codecOf H = some c ∧ replayed H = paramSets c (number H) ++ k :: ds ∧
      (k ∈ number H ∧ kind (some c) k = .keyframe) ∧
      (∀ g ∈ number H, kind (some c) g = .keyframe → g.index ≤ k.index) ∧
      ∀ f, f ∈ k :: ds ↔ f ∈ number H ∧ (kind (some c) f).isParamSet = false ∧
        k.index ≤ f.index := by
  have hsnap : replayed H ≠ [] := by
    intro hnil
    rw [← map_bytes_replayed, hnil] at hne
    exact hne rfl
  have hnum := number_numbered H
  unfold replayed at hsnap ⊢
  cases hd : discover (number H) with
  | none =>
    rw [recordAll_of_undiscovered hd] at hsnap
    exact absurd rfl hsnap
  | some r =>
    obtain ⟨c, K⟩ := r
    have hK : Tracks c K _ := tracks_of_discover hd
    rw [hK.snapshot] at hsnap ⊢
    cases hb : burst c K with
    | none => simp [hb] at hsnap
    | some b =>
      obtain ⟨k, ds⟩ := b
      obtain ⟨post, hlast, rfl, -⟩ := burst_eq_some hb
      obtain ⟨pre, hpre, hkey, hpost⟩ := lastKey_split hlast
      obtain ⟨before, hbefore⟩ := discover_split hd
      have hsplit : number H = (before ++ pre) ++ k :: post := by
        rw [← hbefore, hpre, List.append_assoc]
      have hparams : paramSets c K = paramSets c (number H) := by
        simp only [paramSets, lastParamSet_discover hd]
      rw [hsplit] at hnum
      have hsorted := List.pairwise_append.mp hnum.pairwise
      have hearlier : ∀ g ∈ before ++ pre, g.index < k.index :=
        fun g hg => hsorted.2.2 g hg k List.mem_cons_self
      have hlater : ∀ g ∈ post, k.index < g.index := (List.pairwise_cons.mp hsorted.2.1).1
      have hmem : ∀ g, g ∈ number H ↔ g ∈ before ++ pre ∨ g = k ∨ g ∈ post := by
        intro g
        rw [hsplit, List.mem_append, List.mem_cons]
      refine ⟨c, k, deltas c post, ?_, by rw [hparams],
        ⟨(hmem k).mpr (.inr (.inl rfl)), hkey⟩, ?_, ?_⟩
      · rw [← codecOf_number, codecOf, hd]
        rfl
      · intro g hg hgkey
        rcases (hmem g).mp hg with hg | rfl | hg
        · exact Nat.le_of_lt (hearlier g hg)
        · exact Nat.le_refl _
        · exact absurd hgkey (hpost g hg)
      · intro f
        constructor
        · intro hf
          rcases List.mem_cons.mp hf with rfl | hf
          · exact ⟨(hmem f).mpr (.inr (.inl rfl)), by simp [hkey], Nat.le_refl _⟩
          · obtain ⟨hf, hdelta⟩ := List.mem_filter.mp hf
            have hdelta : IsDelta (kind (some c) f) := by simpa using hdelta
            refine ⟨(hmem f).mpr (.inr (.inr hf)), ?_, Nat.le_of_lt (hlater f hf)⟩
            rcases hdelta with h | h <;> simp [h]
        · rintro ⟨hf, hpicture, hle⟩
          rcases (hmem f).mp hf with hf | rfl | hf
          · exact absurd (hearlier f hf) (Nat.not_lt.mpr hle)
          · exact List.mem_cons_self
          · have hdelta : IsDelta (kind (some c) f) := by
              rcases WarmupWindow.kind_cases (some c) f with ⟨d, t, h⟩ | h | h
              · simp [h] at hpicture
              · exact absurd h (hpost f hf)
              · exact h
            exact List.mem_cons_of_mem _ (List.mem_filter.mpr ⟨hf, by simpa using hdelta⟩)

/-- Every replayed picture meets the parameter sets it met in the stream, over the
    types the stream had then seen. -/
def SameConfig (H : List Bytes) : Prop :=
  ∀ c, (WarmupWindow.default.recordAll H).codec = some c →
    ∀ x f y, replayed H = x ++ f :: y → (kind (some c) f).isParamSet = false →
      ∀ t p, Config.after c ((number H).take f.index) t = some p →
        (Config.after c x t).map Published.bytes = some p.bytes

/-! ## Settled histories -/

/-- No parameter set is replaced by a different one while the burst lasts: when a
    type occurs on both sides of a picture of the burst, the last occurrences on
    the two sides are equal. -/
def Settled {φ : Type} [Frame φ] (H : List φ) : Prop :=
  ∀ c, codecOf H = some c →
    ∀ a f b, H = a ++ f :: b → (kind (some c) f).isParamSet = false →
      (∃ g ∈ a ++ [f], kind (some c) g = .keyframe) → (∀ g ∈ b, kind (some c) g ≠ .keyframe) →
      ∀ t p q, lastParamSet c t a = some p → lastParamSet c t b = some q → bytes p = bytes q

theorem settled_map {φ ψ : Type} [Frame φ] [Frame ψ] {g : φ → ψ} (hg : ∀ f, bytes (g f) = bytes f)
    (H : List φ) :
    Settled (H.map g) ↔ Settled H := by
  have hcodec : codecOf (H.map g) = codecOf H := by
    rw [codecOf, codecOf, discover_map hg, Option.map_map]
    rfl
  constructor
  · intro h c hc a f b hsplit hpicture hkey hlast t p q hp hq
    have hgoal := h c (hcodec.trans hc) (a.map g) (g f) (b.map g) (by simp [hsplit])
      (by rwa [kind_map hg])
      (by
        obtain ⟨k, hk, hkind⟩ := hkey
        exact ⟨g k, by simpa using List.mem_map_of_mem (f := g) hk, by rwa [kind_map hg]⟩)
      (by
        intro r hr
        obtain ⟨k, hk, rfl⟩ := List.mem_map.mp hr
        rw [kind_map hg]
        exact hlast k hk)
      t (g p) (g q) (by rw [lastParamSet_map hg, hp]; rfl) (by rw [lastParamSet_map hg, hq]; rfl)
    rwa [hg, hg] at hgoal
  · intro h c hc a' f' b' hsplit hpicture hkey hlast t p' q' hp hq
    obtain ⟨a, r, rfl, rfl, hr⟩ := List.map_eq_append_iff.mp hsplit
    obtain ⟨f, b, rfl, rfl, rfl⟩ := List.map_eq_cons_iff.mp hr
    rw [lastParamSet_map hg] at hp hq
    obtain ⟨p, hp', rfl⟩ := Option.map_eq_some_iff.mp hp
    obtain ⟨q, hq', rfl⟩ := Option.map_eq_some_iff.mp hq
    rw [hg, hg]
    apply h c (hcodec.symm.trans hc) a f b rfl (by rwa [kind_map hg] at hpicture) _ _ t p q hp' hq'
    · obtain ⟨r, hr, hkind⟩ := hkey
      rw [show a.map g ++ [g f] = (a ++ [f]).map g by simp] at hr
      obtain ⟨k, hk, rfl⟩ := List.mem_map.mp hr
      exact ⟨k, hk, by rwa [kind_map hg] at hkind⟩
    · intro k hk
      have hother := hlast (g k) (List.mem_map_of_mem hk)
      rwa [kind_map hg] at hother

/-- A picture of the replay comes after all parameter sets of the replay, so it meets
    the latest ones of the whole history. -/
theorem replayed_config {N ds x y : List Published} {c : Codec} {f : Published}
    (hpictures : ∀ g ∈ ds, (kind (some c) g).isParamSet = false)
    (hsplit : paramSets c N ++ ds = x ++ f :: y) (hpicture : (kind (some c) f).isParamSet = false) :
    f ∈ ds ∧ ∀ t, Config.after c x t = lastParamSet c t N := by
  obtain ⟨x', rfl, hds⟩ : ∃ x', x = paramSets c N ++ x' ∧ ds = x' ++ f :: y := by
    rcases List.append_eq_append_iff.mp hsplit with ⟨x', rfl, hds⟩ | ⟨y', hparams, hy⟩
    · exact ⟨x', rfl, hds⟩
    · cases y' with
      | nil => exact ⟨[], by simpa using hparams.symm, by simpa using hy.symm⟩
      | cons g y' =>
        -- the split cannot fall inside the parameter sets
        obtain ⟨rfl, -⟩ := List.cons.inj hy
        obtain ⟨-, t, ht⟩ := mem_paramSets (show f ∈ paramSets c N by simp [hparams])
        simp [ht] at hpicture
  refine ⟨by simp [hds], fun t => ?_⟩
  have hnone : lastParamSet c t x' = none := by
    apply lastParamSet_eq_none
    intro g hg hkind
    have hno := hpictures g (by simp [hds, hg])
    simp [hkind] at hno
  rw [Config.after_eq, lastParamSet_append, hnone, lastParamSet_paramSets]
  rfl

/-- The latest parameter set of a history is the one before `f`, unless the frames
    after `f` replace it by a different one. -/
theorem lastParamSet_bytes_iff {c : Codec} {t : UInt8} {a b : List Published} {f p : Published}
    (hpicture : (kind (some c) f).isParamSet = false) (hp : lastParamSet c t a = some p) :
    (lastParamSet c t (a ++ f :: b)).map Published.bytes = some p.bytes ↔
      ∀ q, lastParamSet c t b = some q → bytes p = bytes q := by
  have hf : lastParamSet c t [f] = none := by
    apply lastParamSet_eq_none
    intro g hg hkind
    rw [List.mem_singleton.mp hg] at hkind
    simp [hkind] at hpicture
  have hlast : lastParamSet c t (a ++ f :: b) = (lastParamSet c t b).or (some p) := by
    rw [show a ++ f :: b = a ++ ([f] ++ b) by rfl, lastParamSet_append, lastParamSet_append, hf, hp,
      Option.or_none]
  rw [hlast]
  cases lastParamSet c t b with
  | none => simp
  | some q =>
    have hcomm : q.bytes = p.bytes ↔ bytes p = bytes q := eq_comm
    simpa using hcomm

/-- The frames not before the last keyframe `k`, told by the keyframes around them. -/
theorem key_le_iff {c : Codec} {a b : List Published} {f k : Published}
    (hnum : Numbered Published.index (a ++ f :: b)) (hk : k ∈ a ++ f :: b)
    (hkey : kind (some c) k = .keyframe)
    (hlatest : ∀ g ∈ a ++ f :: b, kind (some c) g = .keyframe → g.index ≤ k.index) :
    k.index ≤ f.index ↔
      (∃ g ∈ a ++ [f], kind (some c) g = .keyframe) ∧ ∀ g ∈ b, kind (some c) g ≠ .keyframe := by
  have hlater : ∀ g ∈ b, f.index < g.index :=
    (List.pairwise_cons.mp (List.pairwise_append.mp hnum.pairwise).2.1).1
  have hmem : k ∈ a ++ [f] ∨ k ∈ b := by simpa [or_assoc] using hk
  constructor
  · intro hle
    refine ⟨⟨k, hmem.resolve_right fun hb => Nat.not_lt.mpr hle (hlater k hb), hkey⟩, ?_⟩
    intro g hg hgkey
    have hglater := hlater g hg
    have hglatest := hlatest g (by simp [hg]) hgkey
    omega
  · rintro ⟨-, hb⟩
    rcases hmem with hmem | hmem
    · by_contra hlt
      exact hb k (hnum.mem_of_lt hk (Nat.not_le.mp hlt)) hkey
    · exact absurd hkey (hb k hmem)

/-- The replay decodes under the parameter sets of the stream exactly when the
    history is settled. -/
theorem sameConfig_iff {H : List Bytes} (hne : (WarmupWindow.default.recordAll H).snapshot ≠ []) :
    SameConfig H ↔ Settled H := by
  obtain ⟨c, k, ds, hcodec, hreplayed, ⟨hk, hkey⟩, hlatest, hburst⟩ := exists_replayed hne
  have hnum := number_numbered H
  have hlocked : (WarmupWindow.default.recordAll H).codec = some c := by
    rw [recordAll_codec, hcodec]
  have hsettled : Settled H ↔ Settled (number H) := by
    rw [← settled_map (g := Published.bytes) (fun _ => rfl) (number H), map_bytes_number]
  have hpictures : ∀ f ∈ k :: ds, (kind (some c) f).isParamSet = false :=
    fun f hf => ((hburst f).mp hf).2.1
  have htake : ∀ {a f b}, number H = a ++ f :: b → (number H).take f.index = a := by
    intro a f b hsplit
    rw [hsplit] at hnum ⊢
    rw [hnum.index_eq_length]
    simp
  rw [hsettled]
  constructor
  · intro h d hd a f b hsplit hpicture hkeys hb t p q hp hq
    obtain rfl : d = c := Option.some.inj (hd.symm.trans ((codecOf_number H).trans hcodec))
    have hnum := hnum
    rw [hsplit] at hnum hk hlatest
    have hle : k.index ≤ f.index := (key_le_iff hnum hk hkey hlatest).mpr ⟨hkeys, hb⟩
    obtain ⟨x, y, hxy⟩ := List.append_of_mem ((hburst f).mpr ⟨by simp [hsplit], hpicture, hle⟩)
    have hmeets :=
      h d hlocked (paramSets d (number H) ++ x) f y (by rw [hreplayed, hxy, List.append_assoc])
      hpicture t p (by rw [Config.after_eq, htake hsplit, hp])
    rw [(replayed_config hpictures (by rw [hxy, List.append_assoc]) hpicture).2, hsplit] at hmeets
    exact (lastParamSet_bytes_iff hpicture hp).mp hmeets q hq
  · intro h d hd x f y hxy hpicture t p hp
    obtain rfl : d = c := Option.some.inj (hd.symm.trans hlocked)
    rw [hreplayed] at hxy
    obtain ⟨hf, hconfig⟩ := replayed_config hpictures hxy hpicture
    obtain ⟨hmem, -, hle⟩ := (hburst f).mp hf
    obtain ⟨a, b, hsplit⟩ := List.append_of_mem hmem
    rw [Config.after_eq, htake hsplit] at hp
    rw [hconfig, hsplit, lastParamSet_bytes_iff hpicture hp]
    intro q hq
    rw [hsplit] at hnum hk hlatest
    obtain ⟨hkeys, hb⟩ := (key_le_iff hnum hk hkey hlatest).mp hle
    exact h d ((codecOf_number H).trans hcodec) a f b hsplit hpicture hkeys hb t p q hp hq

/-- A SPS, an IDR slice, and the SPS of the next coded sequence. -/
def resized : List Bytes := [stamp [0x67, 0x42], stamp [0x65, 0xaa], stamp [0x67, 0x64]]

theorem sameConfig_iff_resized : SameConfig resized ↔ Settled resized :=
  sameConfig_iff (by decide +kernel)

/-- The keyframe is replayed under a SPS that came after it. -/
theorem replayed_under_later_sps :
    ¬ ∀ H : List Bytes, (WarmupWindow.default.recordAll H).snapshot ≠ [] → SameConfig H := by
  intro h
  have hconfig := h resized (by decide +kernel) .h264 (by decide +kernel)
    [⟨2, stamp [0x67, 0x64]⟩] ⟨1, stamp [0x65, 0xaa]⟩ [] (by decide +kernel) (by decide +kernel)
    7 ⟨0, stamp [0x67, 0x42]⟩ (by decide +kernel)
  revert hconfig
  decide +kernel

end XyzenRelay.Stream
