-- SUMMARY: From the macOS encoder to a late viewer: what the warm-up window replays of a HEVC stream the capturer has published.
import XyzenRelay.Capture.Stamp
import XyzenRelay.Stream.History

/-!
# A published HEVC stream

The macOS capturer sends the parameter sets of a key sample as one chunk, which
the server files under the type of the first of them, and every NAL as a chunk
of its own. A late viewer is therefore replayed the end of the published stream:
the chunk of parameter sets of the last key sample, and everything from the last
slice of that sample on.
-/

namespace XyzenRelay.Capture

open XyzenRelay.Stream (kind hevcType IsHevcParamSet lastParamSet paramSets Fits WarmupWindow
  classifyHeader)

/-! ## HEVC samples -/

/-- A picture of the encoder: whether it is a key picture, its parameter sets and NALs. -/
structure HevcSample where
  key : Bool
  sets : List Bytes
  nals : List Bytes
  deriving DecidableEq, Repr

/-- The type of a NAL, by its first byte. -/
def nalTypeIs (p : UInt8 → Prop) (nal : Bytes) : Prop := ∃ b rest, nal = b :: rest ∧ p (hevcType b)

/-- A slice of a random access picture. -/
def IsIrap (nal : Bytes) : Prop := nalTypeIs (fun t => 16 ≤ t ∧ t ≤ 23) nal

/-- A NAL that is neither a parameter set nor a slice of a random access picture. -/
def IsOther (nal : Bytes) : Prop :=
  nalTypeIs (fun t => ¬ IsHevcParamSet t ∧ ¬ (16 ≤ t ∧ t ≤ 23)) nal

namespace HevcSample

/-- The sample buffer VideoToolbox makes of the picture. -/
def buffer (s : HevcSample) : SampleBuffer where
  ready := true
  dependsOnOthers := some !s.key
  formatDescription := some (s.sets.map some)
  dataPointer := some (avccSample s.nals)

def chunks (s : HevcSample) : List Bytes := s.buffer.chunks

/-- The NALs fit their length fields, the parameter sets are out of band and begin with a
    VPS, and only key pictures hold slices of random access pictures. -/
structure WellFormed (s : HevcSample) : Prop where
  isNal : ∀ nal ∈ s.nals, IsNal nal
  vps : ∃ vps more, s.sets = vps :: more ∧ nalTypeIs (· = 32) vps
  pictures : ∀ nal ∈ s.nals, IsOther nal ∨ (s.key = true ∧ IsIrap nal)

/-- The frames of consecutive samples. -/
def frames (clock : Nat → WallClock) (samples : List HevcSample) : List Bytes :=
  emitAll clock (samples.flatMap chunks)

variable {s : HevcSample}

theorem parameterSets_buffer (s : HevcSample) :
    s.buffer.parameterSets = if s.key then s.sets.flatMap (startCode ++ ·) else [] := by
  cases hkey : s.key <;> simp [SampleBuffer.parameterSets, SampleBuffer.isKeyframe, buffer, hkey,
    List.filterMap_map]

/-- The parameter sets begin with the start code and the header of a VPS. -/
theorem WellFormed.parameterSets (h : s.WellFormed) :
    ∃ b rest, s.sets.flatMap (startCode ++ ·) = startCode ++ b :: rest ∧ hevcType b = 32 := by
  obtain ⟨vps, more, hsets, b, rest, rfl, hb⟩ := h.vps
  exact ⟨b, rest ++ more.flatMap (startCode ++ ·), by simp [hsets], hb⟩

theorem WellFormed.chunks_eq (h : s.WellFormed) :
    s.chunks = (if s.key then [s.sets.flatMap (startCode ++ ·)] else []) ++
      s.nals.map (startCode ++ ·) := by
  have hdata : handleEncoded (avccSample s.nals) = s.nals.map (startCode ++ ·) :=
    handleEncoded_avccSample h.isNal
  obtain ⟨b, rest, hsets, -⟩ := h.parameterSets
  have hne : s.sets.flatMap (startCode ++ ·) ≠ [] := by
    rw [hsets]
    simp [startCode]
  unfold chunks SampleBuffer.chunks
  rw [parameterSets_buffer]
  cases hkey : s.key <;> simp [buffer, hdata, hne]

end HevcSample

/-! ## The kinds of the frames -/

/-- A chunk that holds the parameter sets of a key picture. -/
def IsParams (chunk : Bytes) : Prop :=
  ∃ b rest, chunk = startCode ++ b :: rest ∧ hevcType b = 32

section Kinds

variable {wall : WallClock} {known : Option Stream.Codec}

theorem kind_emitAnnexBChunk (b : UInt8) (rest : Bytes) :
    kind known (emitAnnexBChunk wall (startCode ++ b :: rest)) = classifyHeader b known := by
  rw [emitAnnexBChunk, shiftBytes_eq]
  exact classifyNal_stamped (length_toBeBytes wall) b known

theorem kind_params {chunk : Bytes} (h : IsParams chunk) :
    kind none (emitAnnexBChunk wall chunk) = .paramSet .hevc 32 ∧
      kind (some .hevc) (emitAnnexBChunk wall chunk) = .paramSet .hevc 32 := by
  obtain ⟨b, rest, rfl, hb⟩ := h
  have hparam : IsHevcParamSet (hevcType b) := .inl hb
  rw [kind_emitAnnexBChunk, kind_emitAnnexBChunk, classifyHeader, classifyHeader, if_pos hparam,
    if_pos hparam, hb]
  exact ⟨rfl, rfl⟩

theorem kind_irap {nal : Bytes} (h : IsIrap nal) :
    kind (some .hevc) (emitAnnexBChunk wall (startCode ++ nal)) = .keyframe := by
  obtain ⟨b, rest, rfl, hb⟩ := h
  have hparam : ¬ IsHevcParamSet (hevcType b) := by
    rintro (h | h | h) <;> (rw [h] at hb; revert hb; decide)
  rw [kind_emitAnnexBChunk, classifyHeader, if_neg hparam, if_pos hb]

theorem kind_other {nal : Bytes} (h : IsOther nal) :
    kind (some .hevc) (emitAnnexBChunk wall (startCode ++ nal)) = .delta := by
  obtain ⟨b, rest, rfl, hb⟩ := h
  rw [kind_emitAnnexBChunk, classifyHeader, if_neg hb.1, if_neg hb.2]

end Kinds

/-- Every chunk of a sample holds parameter sets, or one of its NALs. -/
theorem HevcSample.WellFormed.chunk_cases {s : HevcSample} (h : s.WellFormed) {chunk : Bytes}
    (hchunk : chunk ∈ s.chunks) :
    IsParams chunk ∨ ∃ nal, chunk = startCode ++ nal ∧ (IsOther nal ∨ IsIrap nal) := by
  rw [h.chunks_eq, List.mem_append] at hchunk
  rcases hchunk with hparams | hnal
  · cases hkey : s.key with
    | false => simp [hkey] at hparams
    | true =>
      obtain rfl : chunk = s.sets.flatMap (startCode ++ ·) := by simpa [hkey] using hparams
      exact .inl h.parameterSets
  · obtain ⟨nal, hmem, rfl⟩ := List.mem_map.mp hnal
    exact .inr ⟨nal, rfl, (h.pictures nal hmem).imp_right And.right⟩

/-! ## Emitted frames -/

section Emitted

variable {clock : Nat → WallClock}

theorem emitAll_append (clock : Nat → WallClock) (as bs : List Bytes) :
    emitAll clock (as ++ bs) = emitAll clock as ++ emitAll (fun i => clock (i + as.length)) bs :=
  List.mapIdx_append

theorem emitAll_cons (clock : Nat → WallClock) (chunk : Bytes) (chunks : List Bytes) :
    emitAll clock (chunk :: chunks) =
      emitAnnexBChunk (clock 0) chunk :: emitAll (fun i => clock (i + 1)) chunks :=
  List.mapIdx_cons

theorem mem_emitAll {chunks : List Bytes} {f : Bytes} (h : f ∈ emitAll clock chunks) :
    ∃ wall, ∃ chunk ∈ chunks, f = emitAnnexBChunk wall chunk := by
  obtain ⟨i, hi, rfl⟩ := List.mem_mapIdx.mp h
  exact ⟨clock i, chunks[i], List.getElem_mem hi, rfl⟩

/-- Behind the timestamp of a frame is its chunk. -/
theorem drop_emitAnnexBChunk (wall : WallClock) (chunk : Bytes) :
    (emitAnnexBChunk wall chunk).drop 8 = chunk := by
  rw [emitAnnexBChunk, shiftBytes_eq]
  exact List.drop_left' (length_toBeBytes wall)

theorem map_drop_emitAll (clock : Nat → WallClock) (chunks : List Bytes) :
    (emitAll clock chunks).map (List.drop 8) = chunks := by
  induction chunks generalizing clock with
  | nil => rfl
  | cons chunk chunks ih => rw [emitAll_cons, List.map_cons, drop_emitAnnexBChunk, ih]

end Emitted

/-! ## The replay -/

/-- With parameter sets of one type only, the last of them is replayed. -/
theorem paramSets_eq_singleton {earlier later : List Bytes} {p : Bytes}
    (hp : kind (some .hevc) p = .paramSet .hevc 32)
    (hlater : ∀ f ∈ later, (kind (some .hevc) f).isParamSet = false)
    (honly : ∀ f ∈ earlier ++ p :: later, ∀ t, kind (some .hevc) f = .paramSet .hevc t → t = 32) :
    paramSets .hevc (earlier ++ p :: later) = [p] := by
  have hvps : lastParamSet .hevc 32 (earlier ++ p :: later) = some p :=
    Stream.lastParamSet_of_split hp fun f hf hparam => by
      have hnot := hlater f hf
      simp [hparam] at hnot
  rw [Stream.paramSets_eq (T := [32]) (by decide +kernel) (by simpa using honly)]
  simp [hvps]

/-- The replay of a HEVC history whose last parameter sets stand in front of its last
    keyframe. -/
theorem snapshot_of_split {earlier skipped rest : List Bytes} {p params first : Bytes}
    (hhead : (earlier ++ params :: (skipped ++ first :: rest)).head? = some p)
    (hp : kind none p = .paramSet .hevc 32)
    (hparams : kind (some .hevc) params = .paramSet .hevc 32)
    (hskipped : ∀ f ∈ skipped, (kind (some .hevc) f).isParamSet = false)
    (hfirst : kind (some .hevc) first = .keyframe)
    (hrest : ∀ f ∈ rest, kind (some .hevc) f = .delta)
    (honly : ∀ f ∈ earlier ++ params :: (skipped ++ first :: rest), ∀ t,
      kind (some .hevc) f = .paramSet .hevc t → t = 32) :
    (WarmupWindow.default.recordAll (earlier ++ params :: (skipped ++ first :: rest))).snapshot =
      if Fits first rest then params :: first :: rest else [] := by
  have hlater : ∀ f ∈ skipped ++ first :: rest, (kind (some .hevc) f).isParamSet = false := by
    intro f hf
    rcases List.mem_append.mp hf with hf | hf
    · exact hskipped f hf
    · rcases List.mem_cons.mp hf with rfl | hf
      · rw [hfirst, Stream.NalKind.isParamSet_keyframe]
      · rw [hrest f hf, Stream.NalKind.isParamSet_delta]
  have hassoc : earlier ++ params :: (skipped ++ first :: rest) =
      (earlier ++ params :: skipped) ++ first :: rest := by simp
  have hdisc : Stream.discover (earlier ++ params :: (skipped ++ first :: rest)) =
      some (.hevc, (earlier ++ params :: skipped) ++ first :: rest) := by
    rw [← hassoc]
    exact Stream.discover_of_head hhead hp
  have hsets : paramSets .hevc ((earlier ++ params :: skipped) ++ first :: rest) = [params] := by
    rw [← hassoc]
    exact paramSets_eq_singleton hparams hlater honly
  exact Stream.snapshot_of_keyframe hdisc hsets hfirst hrest

namespace HevcSample

/-- The chunks up to the parameter sets of a key sample, and those behind them. -/
theorem chunks_split {before after : List HevcSample} {key : HevcSample} {pre post : List Bytes}
    {slice : Bytes} (hwf : ∀ s ∈ before ++ key :: after, s.WellFormed) (hkey : key.key = true)
    (hafter : ∀ s ∈ after, s.key = false) (hnals : key.nals = pre ++ slice :: post) :
    (before ++ key :: after).flatMap chunks =
      before.flatMap chunks ++ key.sets.flatMap (startCode ++ ·) ::
        (pre.map (startCode ++ ·) ++ (startCode ++ slice) ::
          (post ++ after.flatMap nals).map (startCode ++ ·)) := by
  have hlater : after.flatMap chunks = (after.flatMap nals).map (startCode ++ ·) := by
    rw [List.map_flatMap]
    refine List.flatMap_congr fun s hs => ?_
    rw [(hwf s (by simp [hs])).chunks_eq, hafter s hs]
    rfl
  rw [List.flatMap_append, List.flatMap_cons, (hwf key (by simp)).chunks_eq, hkey, hlater, hnals]
  simp

/-- The first frame of a stream that begins with a key sample holds parameter sets. -/
theorem head_frames {clock : Nat → WallClock} {samples : List HevcSample} {s : HevcSample}
    (hhead : samples.head? = some s) (hwf : s.WellFormed) (hkey : s.key = true) :
    ∃ p, (frames clock samples).head? = some p ∧ kind none p = .paramSet .hevc 32 := by
  obtain ⟨rest, rfl⟩ := List.head?_eq_some_iff.mp hhead
  have hchunks : s.chunks = s.sets.flatMap (startCode ++ ·) :: s.nals.map (startCode ++ ·) := by
    rw [hwf.chunks_eq, hkey]
    rfl
  rw [frames, List.flatMap_cons, hchunks, List.cons_append, emitAll_cons]
  exact ⟨_, rfl, (kind_params hwf.parameterSets).1⟩

/-- Every frame of the stream is of a HEVC kind, and its parameter sets are of type 32. -/
theorem kind_frames {clock : Nat → WallClock} {samples : List HevcSample}
    (hwf : ∀ s ∈ samples, s.WellFormed) {f : Bytes} (hf : f ∈ frames clock samples) {t : UInt8}
    (ht : kind (some .hevc) f = .paramSet .hevc t) : t = 32 := by
  obtain ⟨wall, chunk, hchunk, rfl⟩ := mem_emitAll hf
  obtain ⟨s, hs, hchunk⟩ := List.mem_flatMap.mp hchunk
  rcases (hwf s hs).chunk_cases hchunk with hparams | ⟨nal, rfl, hother | hirap⟩
  · rw [(kind_params hparams).2] at ht
    exact (Stream.NalKind.paramSet.inj ht).2.symm
  · simp [kind_other hother] at ht
  · simp [kind_irap hirap] at ht

/-- What a late viewer is replayed of a published stream: the parameter sets of the last
    key sample and everything from the last slice of that sample on, or nothing if that
    does not fit. -/
theorem replay_of_stream (clock : Nat → WallClock) {before after : List HevcSample}
    {key : HevcSample} {pre post : List Bytes} {slice : Bytes}
    (hwf : ∀ s ∈ before ++ key :: after, s.WellFormed)
    (hfirst : ∀ s, (before ++ key :: after).head? = some s → s.key = true)
    (hkey : key.key = true) (hafter : ∀ s ∈ after, s.key = false)
    (hnals : key.nals = pre ++ slice :: post) (hslice : IsIrap slice)
    (hpost : ∀ nal ∈ post, ¬ IsIrap nal) :
    ∃ earlier params skipped first rest,
      frames clock (before ++ key :: after) = earlier ++ params :: (skipped ++ first :: rest) ∧
      params.drop 8 = key.sets.flatMap (startCode ++ ·) ∧
      skipped.map (List.drop 8) = pre.map (startCode ++ ·) ∧
      (first :: rest).map (List.drop 8) =
        (slice :: (post ++ after.flatMap nals)).map (startCode ++ ·) ∧
      (WarmupWindow.default.recordAll (frames clock (before ++ key :: after))).snapshot =
        if Fits first rest then params :: first :: rest else [] := by
  have hframes : frames clock (before ++ key :: after) = _ :=
    (congrArg (emitAll clock) (chunks_split hwf hkey hafter hnals)).trans (emitAll_append _ _ _)
  rw [emitAll_cons, emitAll_append, emitAll_cons] at hframes
  have hothers : ∀ nal ∈ post ++ after.flatMap nals, IsOther nal := by
    intro nal hnal
    rcases List.mem_append.mp hnal with hnal | hnal
    · rcases (hwf key (by simp)).pictures nal (by simp [hnals, hnal]) with h | ⟨-, h⟩
      · exact h
      · exact absurd h (hpost nal hnal)
    · obtain ⟨s, hs, hnal⟩ := List.mem_flatMap.mp hnal
      rcases (hwf s (by simp [hs])).pictures nal hnal with h | ⟨h, -⟩
      · exact h
      · simp [hafter s hs] at h
  obtain ⟨s, hs⟩ : ∃ s, (before ++ key :: after).head? = some s := by
    cases before <;> simp
  have hmem : s ∈ before ++ key :: after := List.mem_of_head? hs
  obtain ⟨p, hhead, hp⟩ : ∃ p, (frames clock (before ++ key :: after)).head? = some p ∧
      kind none p = .paramSet .hevc 32 := head_frames hs (hwf s hmem) (hfirst s hs)
  have honly : ∀ f ∈ frames clock (before ++ key :: after), ∀ t,
      kind (some .hevc) f = .paramSet .hevc t → t = 32 := fun f hf t ht => kind_frames hwf hf ht
  rw [hframes] at hhead honly
  refine ⟨_, _, _, _, _, hframes, drop_emitAnnexBChunk _ _, map_drop_emitAll _ _, ?_, ?_⟩
  · rw [List.map_cons, drop_emitAnnexBChunk, map_drop_emitAll, List.map_cons]
  · rw [hframes]
    refine snapshot_of_split hhead hp (kind_params (hwf key (by simp)).parameterSets).2 ?_
      (kind_irap hslice) ?_ honly
    · intro f hf
      obtain ⟨wall, chunk, hchunk, rfl⟩ := mem_emitAll hf
      obtain ⟨nal, hnal, rfl⟩ := List.mem_map.mp hchunk
      rcases (hwf key (by simp)).pictures nal (by simp [hnals, hnal]) with h | ⟨-, h⟩
      · rw [kind_other h, Stream.NalKind.isParamSet_delta]
      · rw [kind_irap h, Stream.NalKind.isParamSet_keyframe]
    · intro f hf
      obtain ⟨wall, chunk, hchunk, rfl⟩ := mem_emitAll hf
      obtain ⟨nal, hnal, rfl⟩ := List.mem_map.mp hchunk
      exact kind_other (hothers nal hnal)

/-- A key picture with an SEI message in front of its slice. -/
def keyPicture : HevcSample where
  key := true
  sets := [[0x40, 1], [0x42, 2], [0x44, 3]]
  nals := [[0x4e, 4], [0x26, 5]]

def deltaPicture : HevcSample where
  key := false
  sets := [[0x40, 1], [0x42, 2], [0x44, 3]]
  nals := [[0x02, 6]]

theorem keyPicture_wellFormed : keyPicture.WellFormed where
  isNal := by decide
  vps := ⟨_, _, rfl, _, _, rfl, by decide⟩
  pictures := by
    intro nal hnal
    rcases List.mem_cons.mp hnal with rfl | hnal
    · exact .inl ⟨_, _, rfl, by decide⟩
    · obtain rfl := List.mem_singleton.mp hnal
      exact .inr ⟨rfl, _, _, rfl, by decide⟩

theorem deltaPicture_wellFormed : deltaPicture.WellFormed where
  isNal := by decide
  vps := ⟨_, _, rfl, _, _, rfl, by decide⟩
  pictures := by
    intro nal hnal
    obtain rfl := List.mem_singleton.mp hnal
    exact .inl ⟨_, _, rfl, by decide⟩

theorem twoKeys_wellFormed : ∀ s ∈ [keyPicture] ++ keyPicture :: [deltaPicture], s.WellFormed := by
  intro s hs
  simp only [List.cons_append, List.nil_append, List.mem_cons, List.not_mem_nil, or_false] at hs
  rcases hs with rfl | rfl | rfl
  · exact keyPicture_wellFormed
  · exact keyPicture_wellFormed
  · exact deltaPicture_wellFormed

theorem replay_of_keyPicture :
    ∃ earlier params skipped first rest,
      frames (fun i => .ofNat 64 (1700000000000000 + i)) [keyPicture, keyPicture, deltaPicture] =
        earlier ++ params :: (skipped ++ first :: rest) ∧
      params.drop 8 = keyPicture.sets.flatMap (startCode ++ ·) ∧
      skipped.map (List.drop 8) = [[0x4e, 4]].map (startCode ++ ·) ∧
      (first :: rest).map (List.drop 8) = [[0x26, 5], [0x02, 6]].map (startCode ++ ·) ∧
      (WarmupWindow.default.recordAll (frames (fun i => .ofNat 64 (1700000000000000 + i))
        [keyPicture, keyPicture, deltaPicture])).snapshot =
          if Fits first rest then params :: first :: rest else [] :=
  replay_of_stream _ twoKeys_wellFormed (by intro s hs; obtain rfl := Option.some.inj hs; rfl) rfl
    (by decide) (by decide : keyPicture.nals = [[0x4e, 4]] ++ [0x26, 5] :: [])
    ⟨_, _, rfl, by decide⟩ (by simp)

end HevcSample

end XyzenRelay.Capture
