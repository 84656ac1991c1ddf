-- SUMMARY: The conversion of encoder samples to Annex-B chunks in the Windows and macOS capturers, and when the Windows one is exact on AVCC samples.
import XyzenRelay.Lib.Endian
import XyzenRelay.Lib.LengthPrefixed

/-!
# AVCC to Annex-B

Model of `avcc_to_annexb`, `is_annexb` and `annexb_split` in
`crates/win-capturer/src/encoder.rs`, and of the loop of `handleEncoded` in
`MacCapturer.swift`. An AVCC sample is a list of NALs, each behind its 4-byte
big-endian length. The Windows capturer first guesses from the leading bytes
whether a sample is Annex-B already.
-/

namespace XyzenRelay.Capture

open Endian

def startCode : Bytes := [0, 0, 0, 1]

/-! ## The two length readers -/

/-- `u32::from_be_bytes`. -/
def fromBeBytes : LengthPrefix UInt8 where
  width := 4
  write := beBytes 4
  read := beNat
  bound := 2 ^ 32
  width_pos := by decide
  length_write := beBytes_length 4
  read_write := fun n hn => by rw [beNat_beBytes, Nat.mod_eq_of_lt (by simpa using hn)]

/-- Four bytes, assembled with shifts and ors. -/
def shiftOr : Bytes → Nat
  | [a, b, c, d] => a.toNat <<< 24 ||| b.toNat <<< 16 ||| c.toNat <<< 8 ||| d.toNat
  | _ => 0

theorem shiftOr_eq {bs : Bytes} (h : bs.length = 4) : shiftOr bs = beNat bs := by
  match bs, h with
  | [a, b, c, d], _ => exact (beNat_four_or a b c d).symm

/-- The length as `handleEncoded` reads it. -/
def fromShifts : LengthPrefix UInt8 where
  width := 4
  write := beBytes 4
  read := shiftOr
  bound := 2 ^ 32
  width_pos := by decide
  length_write := beBytes_length 4
  read_write := fun n hn => by
    rw [shiftOr_eq (beBytes_length 4 n), beNat_beBytes, Nat.mod_eq_of_lt (by simpa using hn)]

/-! ## The conversions -/

def isAnnexb (buf : Bytes) : Bool :=
  [0, 0, 0, 1].isPrefixOf buf || [0, 0, 1].isPrefixOf buf

/-- The positions behind the start codes of a buffer that begins at `i`, with the
    length of each start code. -/
def scanStarts : Nat → Bytes → List (Nat × Nat)
  | i, 0 :: 0 :: 0 :: 1 :: rest => (i + 4, 4) :: scanStarts (i + 4) rest
  | i, 0 :: 0 :: 1 :: rest => (i + 3, 3) :: scanStarts (i + 3) rest
  | i, _ :: rest => scanStarts (i + 1) rest
  | _, [] => []

/-- The NALs between the start codes, with a canonical start code each. -/
def sliceNals (buf : Bytes) : List (Nat × Nat) → List Bytes
  | [] => []
  | (start, _) :: starts =>
    let stop := match starts with
      | [] => buf.length
      | (next, codeLen) :: _ => next - codeLen
    if start ≥ stop then sliceNals buf starts
    else (startCode ++ (buf.drop start).take (stop - start)) :: sliceNals buf starts

def annexbSplit (buf : Bytes) : List Bytes := sliceNals buf (scanStarts 0 buf)

/-- `avcc_to_annexb` of the Windows capturer. -/
def avccToAnnexb (avcc : Bytes) : List Bytes :=
  if isAnnexb avcc then annexbSplit avcc else (fromBeBytes.parse avcc).map (startCode ++ ·)

/-- The chunks the loop of `handleEncoded` emits in the macOS capturer. -/
def handleEncoded (bytes : Bytes) : List Bytes := (fromShifts.parse bytes).map (startCode ++ ·)

/-! ## Exactness on AVCC samples -/

/-- The sample of a list of NALs. -/
def avccSample (nals : List Bytes) : Bytes := fromBeBytes.encode nals

/-- A NAL an AVCC sample can hold. -/
def IsNal (nal : Bytes) : Prop := nal ≠ [] ∧ nal.length < 2 ^ 32

instance (nal : Bytes) : Decidable (IsNal nal) := inferInstanceAs (Decidable (_ ∧ _))

/-- The sample is not taken for Annex-B, and both capturers emit its NALs. -/
structure Exact (nals : List Bytes) : Prop where
  sniff : isAnnexb (avccSample nals) = false
  win : avccToAnnexb (avccSample nals) = nals.map (startCode ++ ·)
  mac : handleEncoded (avccSample nals) = nals.map (startCode ++ ·)

/-- A length whose field looks like a start code: `00 00 00 01`, or `00 00 01` and
    any byte. -/
def LooksLikeStartCode (n : Nat) : Prop := n = 1 ∨ (256 ≤ n ∧ n ≤ 511)

theorem beBytes_four (n : Nat) : beBytes 4 n =
    [UInt8.ofNat (n / 256 / 256 / 256), UInt8.ofNat (n / 256 / 256), UInt8.ofNat (n / 256),
      UInt8.ofNat n] :=
  rfl

theorem ofNat_eq_iff {n k : Nat} (hk : k < 256) : UInt8.ofNat n = UInt8.ofNat k ↔ n % 256 = k := by
  rw [← UInt8.toNat_inj, UInt8.toNat_ofNat', UInt8.toNat_ofNat', Nat.mod_eq_of_lt hk]

/-- The sniff fires on a length field exactly when it looks like a start code. -/
theorem isAnnexb_beBytes_append {n : Nat} (hn : n < 2 ^ 32) (rest : Bytes) :
    isAnnexb (beBytes 4 n ++ rest) = true ↔ LooksLikeStartCode n := by
  have hzero : ∀ m, (0 : UInt8) = UInt8.ofNat m ↔ m % 256 = 0 :=
    fun m => eq_comm.trans (ofNat_eq_iff (by decide))
  have hone : ∀ m, (1 : UInt8) = UInt8.ofNat m ↔ m % 256 = 1 :=
    fun m => eq_comm.trans (ofNat_eq_iff (by decide))
  rw [beBytes_four]
  simp only [isAnnexb, List.cons_append, List.nil_append, List.isPrefixOf_cons_cons,
    List.isPrefixOf_nil_left,
    Bool.and_true, Bool.or_eq_true, Bool.and_eq_true, beq_iff_eq, hzero, hone, LooksLikeStartCode]
  omega

theorem isAnnexb_avccSample {nal : Bytes} {nals : List Bytes} (hnal : IsNal nal) :
    isAnnexb (avccSample (nal :: nals)) = true ↔ LooksLikeStartCode nal.length := by
  rw [avccSample, LengthPrefix.encode_cons]
  exact isAnnexb_beBytes_append hnal.2 _

/-- The macOS loop is exact on every AVCC sample. -/
theorem handleEncoded_avccSample {nals : List Bytes} (h : ∀ nal ∈ nals, IsNal nal) :
    handleEncoded (avccSample nals) = nals.map (startCode ++ ·) := by
  have hencode : fromBeBytes.encode nals = fromShifts.encode nals := rfl
  rw [handleEncoded, avccSample, hencode, LengthPrefix.parse_encode]
  exact fun nal hnal => (h nal hnal).2

/-- The Windows capturer is exact on the samples it does not take for Annex-B. -/
theorem avccToAnnexb_avccSample {nals : List Bytes} (h : ∀ nal ∈ nals, IsNal nal)
    (hsniff : isAnnexb (avccSample nals) = false) :
    avccToAnnexb (avccSample nals) = nals.map (startCode ++ ·) := by
  rw [avccToAnnexb, hsniff, if_neg (by simp), avccSample, LengthPrefix.parse_encode]
  exact fun nal hnal => (h nal hnal).2

example : avccToAnnexb [0, 0, 0, 3, 0xaa, 0xbb, 0xcc, 0, 0, 0, 3, 0xdd, 0xee, 0xff] =
    [[0, 0, 0, 1, 0xaa, 0xbb, 0xcc], [0, 0, 0, 1, 0xdd, 0xee, 0xff]] := by decide

/-- The conversion is exact on exactly the samples whose first NAL has no length that
    looks like a start code. -/
theorem exact_iff {nals : List Bytes} (h : ∀ nal ∈ nals, IsNal nal) :
    Exact nals ↔ ∀ nal, nals.head? = some nal → ¬ LooksLikeStartCode nal.length := by
  have hsniff : isAnnexb (avccSample nals) = false ↔
      ∀ nal, nals.head? = some nal → ¬ LooksLikeStartCode nal.length := by
    cases nals with
    | nil => simp [avccSample, isAnnexb]
    | cons nal nals =>
      rw [← Bool.not_eq_true, isAnnexb_avccSample (h nal List.mem_cons_self)]
      simp
  rw [← hsniff]
  constructor
  · exact fun hexact => hexact.sniff
  · exact fun hfalse => ⟨hfalse, avccToAnnexb_avccSample h hfalse, handleEncoded_avccSample h⟩

def twoNals : List Bytes := [[0xaa, 0xbb, 0xcc], [0xdd, 0xee, 0xff]]

theorem exact_twoNals :
    Exact twoNals ↔ ∀ nal, twoNals.head? = some nal → ¬ LooksLikeStartCode nal.length :=
  exact_iff (by decide : ∀ nal ∈ twoNals, IsNal nal)

/-- A first NAL of 256 bytes is taken for Annex-B, and comes out one byte too long. -/
theorem avcc_sample_diverted : ¬ ∀ nals, (∀ nal ∈ nals, IsNal nal) → Exact nals := by
  intro h
  have hexact := h [List.replicate 256 0x41] (by decide +kernel)
  have hwin : avccToAnnexb (avccSample [List.replicate 256 0x41]) ≠
      [List.replicate 256 0x41].map (startCode ++ ·) := by decide +kernel
  exact hwin hexact.win

end XyzenRelay.Capture
