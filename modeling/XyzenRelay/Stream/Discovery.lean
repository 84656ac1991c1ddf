-- SUMMARY: Which codec a room locks to when its frames are the NALs of one H.264 or HEVC stream.
import XyzenRelay.Stream.History

/-!
# Codec discovery on one stream

The two codecs keep the NAL type in different bits of the first header byte, so a
NAL of one codec can look like a parameter set of the other. `Aliases` lists the
header bytes of each codec for which that happens. A room is locked to the codec
of its stream exactly when none of them comes before the first parameter set.
-/

namespace XyzenRelay.Stream

/-! ## The NALs of one stream -/

namespace Codec

def other : Codec → Codec
  | .hevc => .h264
  | .h264 => .hevc

/-- The NAL type, in the bits where the codec keeps it. -/
def nalType : Codec → UInt8 → UInt8
  | .hevc => hevcType
  | .h264 => h264Type

/-- The forbidden bit is clear. An H.264 NAL has one of the types 1 to 12, a HEVC NAL
    one of the types 0 to 40 in layer 0, whose top bit is the lowest bit here. -/
def IsHeader : Codec → UInt8 → Prop
  | .h264, b => b &&& 0x80 = 0 ∧ 1 ≤ h264Type b ∧ h264Type b ≤ 12
  | .hevc, b => b &&& 0x80 = 0 ∧ b &&& 0x01 = 0 ∧ hevcType b ≤ 40

def IsParamSet : Codec → UInt8 → Prop
  | .hevc, b => IsHevcParamSet (hevcType b)
  | .h264, b => IsH264ParamSet (h264Type b)

/-- The H.264 slices with `nal_ref_idc` 2, and the HEVC types 4 (an STSA picture),
    20 (an IDR picture) and 36 (the end of a sequence). -/
def Aliases : Codec → UInt8 → Prop
  | .h264, b => (b >>> 5) &&& 3 = 2 ∧ h264Type b ≤ 5
  | .hevc, b => hevcType b = 4 ∨ hevcType b = 20 ∨ hevcType b = 36

instance : ∀ (c : Codec) (b : UInt8), Decidable (c.IsHeader b)
  | .h264, _ => inferInstanceAs (Decidable (_ ∧ _ ∧ _))
  | .hevc, _ => inferInstanceAs (Decidable (_ ∧ _ ∧ _))

instance : ∀ (c : Codec) (b : UInt8), Decidable (c.IsParamSet b)
  | .h264, b => inferInstanceAs (Decidable (IsH264ParamSet (h264Type b)))
  | .hevc, b => inferInstanceAs (Decidable (IsHevcParamSet (hevcType b)))

instance : ∀ (c : Codec) (b : UInt8), Decidable (c.Aliases b)
  | .h264, _ => inferInstanceAs (Decidable (_ ∧ _))
  | .hevc, _ => inferInstanceAs (Decidable (_ ∨ _ ∨ _))

end Codec

/-- A stamped NAL of a stream: the timestamp, a start code of either length, the
    first header byte, and the rest of the NAL. -/
structure StampedNal (c : Codec) where
  timestamp : Bytes
  startCode : Bytes
  header : UInt8
  rest : Bytes
  timestamp_length : timestamp.length = NAL_TIMESTAMP_PREFIX
  startCode_eq : startCode = [0, 0, 1] ∨ startCode = [0, 0, 0, 1]
  header_ok : c.IsHeader header

namespace StampedNal

variable {c : Codec}

instance : Frame (StampedNal c) := ⟨fun f => f.timestamp ++ f.startCode ++ f.header :: f.rest⟩

def IsParamSet (f : StampedNal c) : Prop := c.IsParamSet f.header

def Aliases (f : StampedNal c) : Prop := c.Aliases f.header

instance (f : StampedNal c) : Decidable f.IsParamSet :=
  inferInstanceAs (Decidable (c.IsParamSet f.header))

instance (f : StampedNal c) : Decidable f.Aliases :=
  inferInstanceAs (Decidable (c.Aliases f.header))

theorem nalHeader_bytes (f : StampedNal c) : nalHeader (bytes f) = some f.header := by
  have hbytes : bytes f = f.timestamp ++ (f.startCode ++ f.header :: f.rest) :=
    List.append_assoc _ _ _
  have hdrop : (bytes f).drop NAL_TIMESTAMP_PREFIX = f.startCode ++ f.header :: f.rest := by
    rw [hbytes, ← f.timestamp_length, List.drop_left]
  have hlong : ¬ (bytes f).length ≤ NAL_TIMESTAMP_PREFIX := by
    rw [hbytes, List.length_append, f.timestamp_length, List.length_append, List.length_cons]
    omega
  rw [nalHeader, if_neg hlong, hdrop]
  rcases f.startCode_eq with h | h <;> simp [h, startCodeLen]

end StampedNal

/-! ## What discovery makes of a header byte -/

/-- A property of all bytes, checked one by one. -/
theorem forall_byte {P : UInt8 → Prop} (h : ∀ n, n < 256 → P (UInt8.ofNat n))
    (b : UInt8) : P b := by
  simpa using h b.toNat b.toNat_lt

/-- Parameter sets of either codec are recognised as what they are. -/
theorem classifyHeader_paramSet {c : Codec} {b : UInt8} (hb : c.IsHeader b)
    (hparam : c.IsParamSet b) :
    classifyHeader b none = .paramSet c (c.nalType b) := by
  revert b
  apply forall_byte
  cases c <;> decide +kernel

/-- An aliasing NAL is taken for a parameter set of the other codec. -/
theorem classifyHeader_aliases {c : Codec} {b : UInt8} (hb : c.IsHeader b) (halias : c.Aliases b) :
    classifyHeader b none = .paramSet c.other (c.other.nalType b) := by
  revert b
  apply forall_byte
  cases c <;> decide +kernel

/-- Every other NAL leaves the room in discovery mode. -/
theorem classifyHeader_neither {c : Codec} {b : UInt8} (hb : c.IsHeader b)
    (hparam : ¬ c.IsParamSet b)
    (halias : ¬ c.Aliases b) : classifyHeader b none = .unknown := by
  revert b
  apply forall_byte
  cases c <;> decide +kernel

/-! ## What locks a room -/

section Rooms

variable {c : Codec}

/-- The codec of a room that has recorded the NALs. -/
def codecAfter (H : List (StampedNal c)) : Option Codec :=
  ((WarmupWindow.default : WarmupWindow Bytes).recordAll (H.map bytes)).codec

theorem kind_discovery (f : StampedNal c) : kind none (bytes f) = classifyHeader f.header none := by
  show classifyNal (bytes f) none = _
  rw [classifyNal, f.nalHeader_bytes]

/-- The first parameter set, or NAL that looks like one, decides. -/
theorem codecAfter_cons (f : StampedNal c) (H : List (StampedNal c)) :
    codecAfter (f :: H) =
      if f.IsParamSet then some c else if f.Aliases then some c.other else codecAfter H := by
  unfold codecAfter
  rw [recordAll_codec, recordAll_codec, List.map_cons, codecOf, codecOf, discover, kind_discovery]
  split_ifs with hparam halias
  · rw [classifyHeader_paramSet f.header_ok hparam]
    rfl
  · rw [classifyHeader_aliases f.header_ok halias]
    rfl
  · rw [classifyHeader_neither f.header_ok hparam halias]

/-- No NAL before the first parameter set looks like one of the other codec. -/
def NoAlias (H : List (StampedNal c)) : Prop :=
  ∀ f ∈ H.takeWhile fun f => !decide f.IsParamSet, ¬ f.Aliases

instance (H : List (StampedNal c)) : Decidable (NoAlias H) :=
  inferInstanceAs (Decidable (∀ f ∈ H.takeWhile _, ¬ StampedNal.Aliases f))

theorem noAlias_cons {f : StampedNal c} {H : List (StampedNal c)} :
    NoAlias (f :: H) ↔ f.IsParamSet ∨ (¬ f.Aliases ∧ NoAlias H) := by
  by_cases hparam : f.IsParamSet <;> simp [NoAlias, hparam]

theorem NoAlias.of_append {H K : List (StampedNal c)} (h : NoAlias (H ++ K)) : NoAlias H := by
  induction H with
  | nil => simp [NoAlias]
  | cons f H ih =>
    rw [List.cons_append, noAlias_cons] at h
    exact noAlias_cons.mpr (h.imp_right fun h => ⟨h.1, ih h.2⟩)

/-- Without an alias the room is locked to the codec of the stream, or to none while
    no parameter set has come. -/
theorem codecAfter_of_noAlias {H : List (StampedNal c)} (h : NoAlias H) :
    codecAfter H = if ∃ f ∈ H, f.IsParamSet then some c else none := by
  induction H with
  | nil => rfl
  | cons f H ih =>
    rw [codecAfter_cons]
    by_cases hparam : f.IsParamSet
    · simp [hparam]
    · obtain ⟨halias, hrest⟩ := (noAlias_cons.mp h).resolve_left hparam
      rw [if_neg hparam, if_neg halias, ih hrest]
      simp [hparam]

/-- An alias before the first parameter set locks the room to the other codec. -/
theorem codecAfter_of_alias {H : List (StampedNal c)} (h : ¬ NoAlias H) :
    codecAfter H = some c.other := by
  induction H with
  | nil => simp [NoAlias] at h
  | cons f H ih =>
    rw [noAlias_cons, not_or, not_and_or, not_not] at h
    obtain ⟨hparam, hrest⟩ := h
    rw [codecAfter_cons, if_neg hparam]
    split_ifs with halias
    · rfl
    · exact ih (hrest.resolve_left halias)

/-- Discovery finds the codec of the stream, whatever NAL it starts with. -/
structure DiscoversOwn (H : List (StampedNal c)) : Prop where
  /-- The room is never locked to the other codec. -/
  never : ∀ K, K <+: H → codecAfter K ≠ some c.other
  /-- A NAL that is no parameter set leaves an unlocked room unlocked. -/
  holdsOff : ∀ K f, K ++ [f] <+: H → ¬ f.IsParamSet → codecAfter K = none →
    codecAfter (K ++ [f]) = none
  /-- The first parameter set locks the room to the codec of the stream. -/
  locks : ∀ K f, K ++ [f] <+: H → (∀ g ∈ K, ¬ g.IsParamSet) → f.IsParamSet →
    codecAfter (K ++ [f]) = some c

/-- Discovery finds the codec of the stream exactly when no NAL before the first
    parameter set aliases one of the other codec. -/
theorem discoversOwn_iff (H : List (StampedNal c)) : DiscoversOwn H ↔ NoAlias H := by
  constructor
  · intro h
    by_contra halias
    exact h.never H (List.prefix_refl H) (codecAfter_of_alias halias)
  · intro h
    have hearlier : ∀ {K}, K <+: H → NoAlias K := by
      rintro K ⟨L, rfl⟩
      exact h.of_append
    constructor
    case never =>
      intro K hK
      rw [codecAfter_of_noAlias (hearlier hK)]
      split_ifs
      · cases c <;> simp [Codec.other]
      · simp
    case holdsOff =>
      intro K f hK hparam hnone
      have hbefore := hearlier ((List.prefix_append K [f]).trans hK)
      rw [codecAfter_of_noAlias hbefore] at hnone
      rw [codecAfter_of_noAlias (hearlier hK)]
      simp only [ite_eq_right_iff, reduceCtorEq, imp_false, not_exists, not_and] at hnone ⊢
      intro g hg
      rcases List.mem_append.mp hg with hg | hg
      · exact hnone g hg
      · rwa [List.mem_singleton.mp hg]
    case locks =>
      intro K f hK _ hparam
      rw [codecAfter_of_noAlias (hearlier hK), if_pos ⟨f, by simp, hparam⟩]

/-- An H.264 P slice with `nal_ref_idc` 2. -/
def pSlice : StampedNal .h264 where
  timestamp := List.replicate 8 0
  startCode := [0, 0, 0, 1]
  header := 0x41
  rest := [0x9a]
  timestamp_length := rfl
  startCode_eq := .inr rfl
  header_ok := by decide

/-- A HEVC IDR picture without leading pictures. -/
def idrPicture : StampedNal .hevc where
  timestamp := List.replicate 8 0
  startCode := [0, 0, 0, 1]
  header := 0x28
  rest := [0x01, 0xaa]
  timestamp_length := rfl
  startCode_eq := .inr rfl
  header_ok := by decide

/-- Each of them locks the room to the other codec. -/
theorem wrong_codec_locked :
    (¬ ∀ H : List (StampedNal .h264), DiscoversOwn H) ∧ ¬ ∀ H : List (StampedNal .hevc),
    DiscoversOwn H := by
  constructor
  · intro h
    exact (h [pSlice]).never [pSlice] (List.prefix_refl _) (by decide +kernel)
  · intro h
    exact (h [idrPicture]).never [idrPicture] (List.prefix_refl _) (by decide +kernel)

end Rooms

end XyzenRelay.Stream
