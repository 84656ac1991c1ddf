-- SUMMARY: From a Windows capture session to a late viewer: what the warm-up window replays of the H.264 stream the session has sent.
import XyzenRelay.Capture.Segments
import XyzenRelay.Capture.Session
import XyzenRelay.Stream.Discovery

/-!
# A published H.264 stream

The software encoder emits Annex-B, with the parameter sets of a key picture in front of
its slices. The Windows capturer sends every NAL as a chunk of its own, all NALs of a
picture under one reading of the clock. A late viewer is therefore replayed the two
parameter sets of the last key picture, and everything from its last slice on.
-/

namespace XyzenRelay.Capture.Win

open XyzenRelay.Stream (kind h264Type hevcType IsHevcParamSet lastParamSet paramSets Fits
  WarmupWindow classifyHeader)

/-! ## H.264 samples -/

/-- The type of a NAL, by its first byte. -/
def h264TypeIs (p : UInt8 → Prop) (nal : Bytes) : Prop :=
  ∃ b rest, nal = b :: rest ∧ p (h264Type b)

/-- An access unit delimiter, or supplemental information. -/
def IsLead : Bytes → Prop := h264TypeIs fun t => t = 6 ∨ t = 9

/-- A slice of an instantaneous refresh. -/
def IsIdr : Bytes → Prop := h264TypeIs (· = 5)

/-- A NAL that is neither a parameter set nor a slice of an instantaneous refresh. -/
def IsOther : Bytes → Prop := h264TypeIs fun t => t ≠ 5 ∧ t ≠ 7 ∧ t ≠ 8

/-- A picture of the encoder, when it was drained, and how it is framed. -/
structure H264Sample where
  wallUs : WallClock
  /-- The NALs in front of the parameter sets. -/
  lead : List Bytes
  /-- The parameter sets of a key picture. -/
  sets : Option (Bytes × Bytes)
  nals : List Bytes
  codes : List StartCode
  deriving DecidableEq, Repr

namespace H264Sample

/-- The NALs of the picture, in order. -/
def units (p : H264Sample) : List Bytes :=
  p.lead ++ (p.sets.elim [] fun s => [s.1, s.2]) ++ p.nals

def segments (p : H264Sample) : List Segment := (p.codes.zip p.units).map fun s => ⟨s.1, s.2⟩

/-- What the encoder emits for the picture. -/
def sample (p : H264Sample) : WallClock × Bytes := (p.wallUs, join p.segments)

/-- The NALs are framed one by one, and only key pictures hold parameter sets and slices of
    an instantaneous refresh. -/
structure WellFormed (p : H264Sample) : Prop where
  codes : p.codes.length = p.units.length
  framed : Framed p.segments
  lead : ∀ nal ∈ p.lead, IsLead nal
  sets : ∀ sps pps, p.sets = some (sps, pps) → h264TypeIs (· = 7) sps ∧ h264TypeIs (· = 8) pps
  pictures : ∀ nal ∈ p.nals, IsOther nal ∨ (p.sets.isSome = true ∧ IsIdr nal)

end H264Sample

/-- A NAL as it is sent. -/
def stamped (wallUs : WallClock) (nal : Bytes) : Bytes := toBeBytes wallUs ++ (startCode ++ nal)

namespace H264Sample

/-- What is sent of the picture. -/
def frames (p : H264Sample) : List Bytes := p.units.map (stamped p.wallUs)

variable {p : H264Sample}

theorem WellFormed.bodies (h : p.WellFormed) : p.segments.map Segment.body = p.units := by
  rw [segments, List.map_map]
  exact List.map_snd_zip (Nat.le_of_eq h.codes.symm)

/-- The session sends the NALs of the picture one by one. -/
theorem framesOf_sample (h : p.WellFormed) : Session.framesOf p.sample = p.frames := by
  have hsplit : avccToAnnexb (join p.segments) = p.units.map (startCode ++ ·) := by
    by_cases hne : p.segments = []
    · rw [← h.bodies, hne]
      rfl
    · rw [avccToAnnexb, if_pos (isAnnexb_join hne), annexbSplit_join h.framed.canonical,
        h.framed.chunksOf_eq, ← h.bodies, List.map_map]
      rfl
  rw [Session.framesOf, sample, sampleToAnnexb, hsplit, List.map_map]
  rfl

end H264Sample

/-! ## The kinds of the frames -/

section Kinds

variable {wall : WallClock} {nal : Bytes}

theorem kind_stamped (b : UInt8) (rest : Bytes) (known : Option Stream.Codec) :
    kind known (stamped wall (b :: rest)) = classifyHeader b known :=
  classifyNal_stamped (length_toBeBytes wall) b known

theorem kind_lead (h : IsLead nal) :
    kind none (stamped wall nal) = .unknown ∧
      kind (some .h264) (stamped wall nal) = .delta := by
  obtain ⟨b, rest, rfl, hb⟩ := h
  simp only [kind_stamped]
  revert b
  apply Stream.forall_byte
  decide +kernel

theorem kind_sps (h : h264TypeIs (· = 7) nal) :
    kind none (stamped wall nal) = .paramSet .h264 7 ∧
      kind (some .h264) (stamped wall nal) = .paramSet .h264 7 := by
  obtain ⟨b, rest, rfl, hb⟩ := h
  simp only [kind_stamped]
  revert b
  apply Stream.forall_byte
  decide +kernel

theorem kind_pps (h : h264TypeIs (· = 8) nal) :
    kind (some .h264) (stamped wall nal) = .paramSet .h264 8 := by
  obtain ⟨b, rest, rfl, hb⟩ := h
  simp only [kind_stamped]
  revert b
  apply Stream.forall_byte
  decide +kernel

theorem kind_idr (h : IsIdr nal) : kind (some .h264) (stamped wall nal) = .keyframe := by
  obtain ⟨b, rest, rfl, hb⟩ := h
  simp only [kind_stamped]
  revert b
  apply Stream.forall_byte
  decide +kernel

theorem kind_slice (h : IsOther nal) : kind (some .h264) (stamped wall nal) = .delta := by
  obtain ⟨b, rest, rfl, h5, h7, h8⟩ := h
  rw [kind_stamped, classifyHeader, if_neg (by simp [Stream.IsH264ParamSet, h7, h8]), if_neg h5]

end Kinds

namespace H264Sample

variable {p : H264Sample} {sps pps f : Bytes}

theorem units_key (h : p.sets = some (sps, pps)) : p.units = p.lead ++ sps :: pps :: p.nals := by
  simp [units, h]

/-- Of a picture that is no key picture only deltas are sent. -/
theorem kind_delta (hwf : p.WellFormed) (hsets : p.sets = none) (hf : f ∈ p.frames) :
    kind (some .h264) f = .delta := by
  obtain ⟨nal, hnal, rfl⟩ := List.mem_map.mp hf
  rw [units, hsets, Option.elim_none, List.append_nil, List.mem_append] at hnal
  rcases hnal with hnal | hnal
  · exact (kind_lead (hwf.lead nal hnal)).2
  · rcases hwf.pictures nal hnal with h | ⟨h, -⟩
    · exact kind_slice h
    · simp [hsets] at h

/-- The slices of a picture are no parameter sets. -/
theorem kind_nals (hwf : p.WellFormed) {nal : Bytes} (hnal : nal ∈ p.nals) (wall : WallClock) :
    (kind (some .h264) (stamped wall nal)).isParamSet = false := by
  rcases hwf.pictures nal hnal with h | ⟨-, h⟩
  · rw [kind_slice h, Stream.NalKind.isParamSet_delta]
  · rw [kind_idr h, Stream.NalKind.isParamSet_keyframe]

/-- The parameter sets that are sent are of the two types. -/
theorem paramSet_frames (hwf : p.WellFormed) (hf : f ∈ p.frames) {t : UInt8}
    (ht : kind (some .h264) f = .paramSet .h264 t) : t ∈ [7, 8] := by
  cases hsets : p.sets with
  | none => simp [kind_delta hwf hsets hf] at ht
  | some s =>
    obtain ⟨sps, pps⟩ := s
    obtain ⟨hsps, hpps⟩ := hwf.sets sps pps hsets
    obtain ⟨nal, hnal, rfl⟩ := List.mem_map.mp hf
    rw [units_key hsets] at hnal
    simp only [List.mem_append, List.mem_cons] at hnal
    rcases hnal with hlead | rfl | rfl | hnal
    · simp [(kind_lead (hwf.lead nal hlead)).2] at ht
    · rw [(kind_sps hsps).2] at ht
      simp [← (Stream.NalKind.paramSet.inj ht).2]
    · rw [kind_pps hpps] at ht
      simp [← (Stream.NalKind.paramSet.inj ht).2]
    · have hnot := kind_nals hwf hnal p.wallUs
      simp [ht] at hnot

/-- The stream up to the parameter sets of a key picture. Discovery passes over the lead of
    the first picture, and locks to its parameter set. -/
theorem lead_split (before : List H264Sample) {key : H264Sample} (later : List Bytes)
    (hwf : ∀ p ∈ before ++ [key], p.WellFormed) (hkey : key.sets = some (sps, pps))
    (hfirst : ∀ p, (before ++ [key]).head? = some p → p.sets.isSome = true) :
    ∃ leads earlier p, before.flatMap frames ++ key.lead.map (stamped key.wallUs) =
        leads ++ earlier ∧
      (∀ f ∈ leads, kind none f = .unknown) ∧
      (earlier ++ stamped key.wallUs sps :: later).head? = some p ∧
      kind none p = .paramSet .h264 7 := by
  have hleads : ∀ p : H264Sample, p.WellFormed →
      ∀ f ∈ p.lead.map (stamped p.wallUs), kind none f = .unknown := by
    intro p hp f hf
    obtain ⟨nal, hnal, rfl⟩ := List.mem_map.mp hf
    exact (kind_lead (hp.lead nal hnal)).1
  cases before with
  | nil =>
    have hkeywf := hwf key (by simp)
    exact ⟨_, [], _, by simp, hleads key hkeywf, rfl, (kind_sps (hkeywf.sets _ _ hkey).1).1⟩
  | cons first before =>
    have hfirstwf := hwf first (by simp)
    obtain ⟨⟨sps₀, pps₀⟩, hsets⟩ := Option.isSome_iff_exists.mp (hfirst first rfl)
    refine ⟨_, stamped first.wallUs sps₀ :: (stamped first.wallUs pps₀ ::
      first.nals.map (stamped first.wallUs) ++ before.flatMap frames ++
        key.lead.map (stamped key.wallUs)), _, ?_, hleads first hfirstwf, rfl,
      (kind_sps (hfirstwf.sets _ _ hsets).1).1⟩
    simp [frames, units_key hsets]

end H264Sample

/-! ## The replay -/

/-- The parameter sets of a history whose last two stand next to each other. -/
theorem paramSets_pair {earlier later : List Bytes} {sps pps : Bytes}
    (hsps : kind (some .h264) sps = .paramSet .h264 7)
    (hpps : kind (some .h264) pps = .paramSet .h264 8)
    (hlater : ∀ f ∈ later, (kind (some .h264) f).isParamSet = false)
    (honly : ∀ f ∈ earlier ++ sps :: pps :: later, ∀ t,
      kind (some .h264) f = .paramSet .h264 t → t ∈ [7, 8]) :
    paramSets .h264 (earlier ++ sps :: pps :: later) = [sps, pps] := by
  have hnot : ∀ t, ∀ f ∈ later, kind (some .h264) f ≠ .paramSet .h264 t := by
    intro t f hf hparam
    have hfalse := hlater f hf
    simp [hparam] at hfalse
  have hlast : lastParamSet .h264 7 (earlier ++ sps :: pps :: later) = some sps := by
    refine Stream.lastParamSet_of_split hsps fun f hf => ?_
    rcases List.mem_cons.mp hf with rfl | hf
    · simp [hpps]
    · exact hnot 7 f hf
  have hlast' : lastParamSet .h264 8 ((earlier ++ [sps]) ++ pps :: later) = some pps :=
    Stream.lastParamSet_of_split hpps (hnot 8)
  rw [List.append_assoc, List.singleton_append] at hlast'
  rw [Stream.paramSets_eq (T := [7, 8]) (by decide +kernel) honly]
  simp [hlast, hlast']

/-- The replay of a H.264 history whose last parameter sets stand in front of its last
    keyframe. -/
theorem snapshot_of_pair {leads earlier skipped rest : List Bytes} {p sps pps first : Bytes}
    (hleads : ∀ f ∈ leads, kind none f = .unknown)
    (hhead : (earlier ++ sps :: pps :: (skipped ++ first :: rest)).head? = some p)
    (hp : kind none p = .paramSet .h264 7)
    (hsps : kind (some .h264) sps = .paramSet .h264 7)
    (hpps : kind (some .h264) pps = .paramSet .h264 8)
    (hskipped : ∀ f ∈ skipped, (kind (some .h264) f).isParamSet = false)
    (hfirst : kind (some .h264) first = .keyframe)
    (hrest : ∀ f ∈ rest, kind (some .h264) f = .delta)
    (honly : ∀ f ∈ earlier ++ sps :: pps :: (skipped ++ first :: rest), ∀ t,
      kind (some .h264) f = .paramSet .h264 t → t ∈ [7, 8]) :
    (WarmupWindow.default.recordAll
        (leads ++ (earlier ++ sps :: pps :: (skipped ++ first :: rest)))).snapshot =
      if Fits first rest then sps :: pps :: first :: rest else [] := by
  have hlater : ∀ f ∈ skipped ++ first :: rest, (kind (some .h264) f).isParamSet = false := by
    intro f hf
    rcases List.mem_append.mp hf with hf | hf
    · exact hskipped f hf
    · rcases List.mem_cons.mp hf with rfl | hf
      · rw [hfirst, Stream.NalKind.isParamSet_keyframe]
      · rw [hrest f hf, Stream.NalKind.isParamSet_delta]
  have hassoc : earlier ++ sps :: pps :: (skipped ++ first :: rest) =
      (earlier ++ sps :: pps :: skipped) ++ first :: rest := by simp
  have hsets := paramSets_pair hsps hpps hlater honly
  have hdisc := Stream.discover_append hleads
    (H := earlier ++ sps :: pps :: (skipped ++ first :: rest))
  rw [Stream.discover_of_head hhead hp] at hdisc
  rw [hassoc] at hdisc hsets ⊢
  exact Stream.snapshot_of_keyframe hdisc hsets hfirst hrest

namespace H264Sample

open Session (machine)

variable {fps : UInt32} {cs : List Callback} {s : Session}

/-- What a session has sent is the stream of the pictures it has drained. -/
theorem sent_eq {samples : List H264Sample} (hs : s.Complete) (hup : s.hungUp = false)
    (hsamples : s.samples = samples.map sample) (hwf : ∀ p ∈ samples, p.WellFormed) :
    s.sent = samples.flatMap frames := by
  rw [hs hup, hsamples, List.flatMap_map]
  exact List.flatMap_congr fun p hp => framesOf_sample (hwf p hp)

/-- What a late viewer is replayed of the stream of a session: the parameter sets of the
    last key picture and everything from the last slice of that picture on, or nothing if
    that does not fit. -/
theorem replay_of_session {before after : List H264Sample} {key : H264Sample}
    {sps pps slice : Bytes} {pre post : List Bytes}
    (hrun : (machine fps).run (machine fps).init cs = some s)
    (hsender : ∀ c ∈ cs, c.sender = true) (hup : s.hungUp = false)
    (hsamples : s.samples = (before ++ key :: after).map sample)
    (hwf : ∀ p ∈ before ++ key :: after, p.WellFormed)
    (hfirst : ∀ p, (before ++ key :: after).head? = some p → p.sets.isSome = true)
    (hkey : key.sets = some (sps, pps)) (hafter : ∀ p ∈ after, p.sets = none)
    (hnals : key.nals = pre ++ slice :: post) (hslice : IsIdr slice)
    (hpost : ∀ nal ∈ post, ¬ IsIdr nal) :
    (WarmupWindow.default.recordAll s.sent).snapshot =
      if Fits (stamped key.wallUs slice)
          (post.map (stamped key.wallUs) ++ after.flatMap frames) then
        stamped key.wallUs sps :: stamped key.wallUs pps :: stamped key.wallUs slice ::
          (post.map (stamped key.wallUs) ++ after.flatMap frames)
      else [] := by
  have hkeywf := hwf key (by simp)
  obtain ⟨hsps, hpps⟩ := hkeywf.sets sps pps hkey
  have hframes := sent_eq (Session.complete_of_run hsender hrun) hup hsamples hwf
  obtain ⟨rest, hrest⟩ : ∃ rest, rest = post.map (stamped key.wallUs) ++ after.flatMap frames :=
    ⟨_, rfl⟩
  have hdeltas : ∀ f ∈ rest, kind (some .h264) f = .delta := by
    intro f hf
    rw [hrest, List.mem_append] at hf
    rcases hf with hf | hf
    · obtain ⟨nal, hnal, rfl⟩ := List.mem_map.mp hf
      rcases hkeywf.pictures nal (by simp [hnals, hnal]) with h | ⟨-, h⟩
      · exact kind_slice h
      · exact absurd h (hpost nal hnal)
    · obtain ⟨p, hp, hf⟩ := List.mem_flatMap.mp hf
      exact kind_delta (hwf p (by simp [hp])) (hafter p hp) hf
  obtain ⟨leads, earlier, p, hleads, hunknown, hhead, hp⟩ := lead_split before
    (stamped key.wallUs pps :: (pre.map (stamped key.wallUs) ++ stamped key.wallUs slice :: rest))
    (fun p hp => hwf p (by simp at hp ⊢; tauto)) hkey (by cases before <;> simpa using hfirst)
  have hsent : s.sent = leads ++ (earlier ++ stamped key.wallUs sps :: stamped key.wallUs pps ::
      (pre.map (stamped key.wallUs) ++ stamped key.wallUs slice :: rest)) := by
    rw [hframes, ← List.append_assoc leads, ← hleads, hrest]
    simp [frames, units_key hkey, hnals]
  rw [← hrest, hsent]
  refine snapshot_of_pair hunknown hhead hp (kind_sps hsps).2 (kind_pps hpps) ?_ (kind_idr hslice)
    hdeltas ?_
  · intro f hf
    obtain ⟨nal, hnal, rfl⟩ := List.mem_map.mp hf
    exact kind_nals hkeywf (by simp [hnals, hnal]) _
  · intro f hf t ht
    have hmem : f ∈ s.sent := hsent ▸ List.mem_append_right _ hf
    rw [hframes] at hmem
    obtain ⟨p, hp, hmem⟩ := List.mem_flatMap.mp hmem
    exact paramSet_frames (hwf p hp) hmem ht

/-- A key picture with a message in front of its slice, framed with both start codes. -/
def keyPicture : H264Sample where
  wallUs := .ofNat 64 1700000000000000
  lead := [[0x09, 0xf0]]
  sets := some ([0x67, 1], [0x68, 2])
  nals := [[0x06, 3], [0x65, 4]]
  codes := [.four, .four, .four, .three, .three]

def deltaPicture : H264Sample where
  wallUs := .ofNat 64 1700000000033333
  lead := [[0x09, 0xf0]]
  sets := none
  nals := [[0x41, 5]]
  codes := [.four, .three]

/-- Two frames, of which each brings forth a picture. -/
def twoPictures : List Callback :=
  [keyPicture, deltaPicture].map fun p =>
    Session.whiteSquare [.sample p.sample.1 (some p.sample.2), .needMoreInput]

theorem keyPicture_wellFormed : keyPicture.WellFormed where
  codes := rfl
  framed := ⟨by decide, by decide, by decide⟩
  lead := by
    intro nal hnal
    obtain rfl := List.mem_singleton.mp hnal
    exact ⟨_, _, rfl, by decide⟩
  sets := by
    rintro sps pps ⟨⟩
    exact ⟨⟨_, _, rfl, by decide⟩, _, _, rfl, by decide⟩
  pictures := by
    intro nal hnal
    rcases List.mem_cons.mp hnal with rfl | hnal
    · exact .inl ⟨_, _, rfl, by decide⟩
    · obtain rfl := List.mem_singleton.mp hnal
      exact .inr ⟨rfl, _, _, rfl, by decide⟩

theorem deltaPicture_wellFormed : deltaPicture.WellFormed where
  codes := rfl
  framed := ⟨by decide, by decide, by decide⟩
  lead := by
    intro nal hnal
    obtain rfl := List.mem_singleton.mp hnal
    exact ⟨_, _, rfl, by decide⟩
  sets := by simp [deltaPicture]
  pictures := by
    intro nal hnal
    obtain rfl := List.mem_singleton.mp hnal
    exact .inl ⟨_, _, rfl, by decide⟩

theorem replay_of_twoPictures :
    (WarmupWindow.default.recordAll
        (((machine 30).run Session.new twoPictures).getD Session.new).sent).snapshot =
      if Fits (stamped keyPicture.wallUs [0x65, 4])
          ([].map (stamped keyPicture.wallUs) ++ [deltaPicture].flatMap frames) then
        stamped keyPicture.wallUs [0x67, 1] :: stamped keyPicture.wallUs [0x68, 2] ::
          stamped keyPicture.wallUs [0x65, 4] ::
            ([].map (stamped keyPicture.wallUs) ++ [deltaPicture].flatMap frames)
      else [] :=
  @replay_of_session 30 twoPictures _ [] [deltaPicture] keyPicture _ _ _ [[0x06, 3]] []
    ((machine 30).run_getD twoPictures (by decide)) (by simp [twoPictures, Session.whiteSquare])
    (by decide) rfl
    (by simpa using ⟨keyPicture_wellFormed, deltaPicture_wellFormed⟩)
    (by intro p hp; obtain rfl := Option.some.inj hp; rfl) rfl (by decide) rfl
    ⟨_, _, rfl, by decide⟩ (by simp)

end H264Sample

end XyzenRelay.Capture.Win
