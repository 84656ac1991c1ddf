-- SUMMARY: The RustDesk framing codec: its decoder and encoder, what each returns on framed input, and the resumability of the decoder.
import XyzenRelay.Lib.Endian
import XyzenRelay.Lib.StreamDecoder
import Mathlib.Tactic.SplitIfs

/-!
# The RustDesk codec

Model of `crates/proto/src/codec.rs`. A frame is a header of one to four bytes
followed by its payload. The low two bits of the header hold the header length
minus one, and the remaining bits, little endian, the payload length.

A `BytesMut` is a byte list: `advance` and `split_to` are `drop` and `take`,
`put_slice` appends, and `reserve` changes nothing that can be observed.
-/

namespace XyzenRelay.Proto

open Endian

/-- `io::ErrorKind`, as far as the codec uses it. -/
inductive ErrorKind where
  | invalidData
  deriving DecidableEq, Repr

/-- `io::Error::new(kind, message)`. -/
structure IoError where
  kind : ErrorKind
  message : String
  deriving DecidableEq, Repr

def MAX_PACKET : Nat := 64 * 1024 * 1024

inductive State where
  | head
  | body (n : Nat)
  deriving DecidableEq, Repr

structure RustDeskCodec where
  state : State
  raw : Bool
  max : Nat
  deriving DecidableEq, Repr

/-- The one error both directions report. -/
def frameTooLong : IoError := ⟨.invalidData, "frame exceeds max packet length"⟩

namespace RustDeskCodec

/-- `RustDeskCodec::default`. -/
def default : RustDeskCodec := { state := .head, raw := false, max := MAX_PACKET }

def new : RustDeskCodec := default

def setRaw (c : RustDeskCodec) : RustDeskCodec := { c with raw := true }

/-! ## Decoder -/

/-- `((src[0] & 0x03) + 1) as usize`. -/
def headLen (b0 : UInt8) : Nat := ((b0 &&& 0x03) + 1).toNat

/-- The header word, assembled byte by byte from the first `headLen` bytes. -/
def headWord (headLen : Nat) (src : Bytes) : Nat :=
  let n := (src.getD 0 0).toNat
  let n := if headLen > 1 then n ||| (src.getD 1 0).toNat <<< 8 else n
  let n := if headLen > 2 then n ||| (src.getD 2 0).toNat <<< 16 else n
  if headLen > 3 then n ||| (src.getD 3 0).toNat <<< 24 else n

/-- The `State::Body(n)` arm of the loop. It always returns. -/
def decodeBody (c : RustDeskCodec) (n : Nat) (src : Bytes) :
    Except IoError (Option Bytes) × RustDeskCodec × Bytes :=
  if src.length < n then (.ok none, { c with state := .body n }, src)
  else (.ok (some (src.take n)), { c with state := .head }, src.drop n)

/-- `Decoder::decode`: the result, the codec and the buffer it leaves behind. The
    loop runs at most twice, since the `Head` arm either returns or continues in
    the `Body` arm, which returns. -/
def decode (c : RustDeskCodec) (src : Bytes) :
    Except IoError (Option Bytes) × RustDeskCodec × Bytes :=
  if c.raw then
    if src.isEmpty then (.ok none, c, src) else (.ok (some src), c, [])
  else
    match c.state with
    | .head =>
      match src with
      | [] => (.ok none, c, src)
      | b0 :: _ =>
        let headLen := headLen b0
        if src.length < headLen then (.ok none, c, src)
        else
          let n := headWord headLen src >>> 2
          if n > c.max then (.error frameTooLong, c, src)
          else decodeBody c n (src.drop headLen)
    | .body n => decodeBody c n src

/-! ## Encoder -/

/-- The header length of the four size classes. -/
def headLenOf (n : Nat) : Nat :=
  if n < 1 <<< 6 then 1
  else if n < 1 <<< 14 then 2
  else if n < 1 <<< 22 then 3
  else 4

/-- `((n as u32) << 2) | (head_len as u32 - 1)`. -/
def header (n headLen : Nat) : UInt32 :=
  UInt32.ofNat n <<< 2 ||| (UInt32.ofNat headLen - 1)

/-- The header bytes the `for` loop puts. -/
def headerBytes (header : UInt32) (headLen : Nat) : Bytes :=
  (List.range headLen).map fun i => ((header >>> UInt32.ofNat (i * 8)) &&& 0xff).toUInt8

/-- `Encoder::encode`: the result and the buffer it leaves behind. -/
def encode (c : RustDeskCodec) (item dst : Bytes) : Except IoError Unit × Bytes :=
  if c.raw then (.ok (), dst ++ item)
  else
    let n := item.length
    if n > c.max then (.error frameTooLong, dst)
    else
      let headLen := headLenOf n
      (.ok (), dst ++ headerBytes (header n headLen) headLen ++ item)

/-! ## Header arithmetic -/

theorem headLen_eq (b0 : UInt8) : headLen b0 = b0.toNat % 4 + 1 := by
  have hand : (b0 &&& 3).toNat = b0.toNat % 4 := by
    rw [UInt8.toNat_and]
    exact Nat.and_two_pow_sub_one_eq_mod b0.toNat 2
  have hlt : b0.toNat % 4 < 4 := Nat.mod_lt _ (by decide)
  rw [headLen, UInt8.toNat_add, hand]
  show (b0.toNat % 4 + 1) % 256 = _
  omega

theorem headLen_pos (b0 : UInt8) : 1 ≤ headLen b0 := by
  rw [headLen_eq]
  omega

theorem headLen_le (b0 : UInt8) : headLen b0 ≤ 4 := by
  rw [headLen_eq]
  omega

/-- The header word is the little-endian value of the header bytes. -/
theorem headWord_eq {h : Nat} {src : Bytes} (hpos : 1 ≤ h) (hle : h ≤ 4) (hsrc : h ≤ src.length) :
    headWord h src = leNat (src.take h) := by
  match h, src, hpos, hle, hsrc with
  | 1, b0 :: _, _, _, _ => simp [headWord]
  | 2, b0 :: b1 :: _, _, _, _ => simp [headWord, leNat_two_or]
  | 3, b0 :: b1 :: b2 :: _, _, _, _ => simp [headWord, leNat_three_or]
  | 4, b0 :: b1 :: b2 :: b3 :: _, _, _, _ => simp [headWord, leNat_four_or]

theorem headLenOf_pos (n : Nat) : 1 ≤ headLenOf n := by
  unfold headLenOf
  split_ifs <;> decide

theorem headLenOf_le (n : Nat) : headLenOf n ≤ 4 := by
  unfold headLenOf
  split_ifs <;> decide

/-- The size class leaves room for the two length bits of the header. -/
theorem lt_of_headLenOf {n : Nat} (hn : n < 2 ^ 30) : n * 4 + 3 < 256 ^ headLenOf n := by
  unfold headLenOf
  split_ifs <;> omega

theorem header_toNat {n h : Nat} (hn : n < 2 ^ 30) (hpos : 1 ≤ h) (hle : h ≤ 4) :
    (header n h).toNat = n * 4 + (h - 1) := by
  have hshift : (UInt32.ofNat n <<< 2).toNat = n <<< 2 := by
    have hbits : (2 : UInt32).toNat % 32 = 2 := rfl
    rw [UInt32.toNat_shiftLeft, UInt32.toNat_ofNat', hbits, Nat.shiftLeft_eq, Nat.shiftLeft_eq]
    omega
  have hsub : (UInt32.ofNat h - 1).toNat = h - 1 := by
    rw [UInt32.toNat_sub, UInt32.toNat_ofNat']
    show (2 ^ 32 - 1 + h % 2 ^ 32) % 2 ^ 32 = h - 1
    omega
  rw [header, UInt32.toNat_or, hshift, hsub, ← Nat.shiftLeft_add_eq_or_of_lt (by omega),
    Nat.shiftLeft_eq]

/-- The loop puts the header word, least significant byte first. -/
theorem headerBytes_eq {header : UInt32} {h : Nat} (hle : h ≤ 4) :
    headerBytes header h = leBytes h header.toNat := by
  rw [leBytes_eq_map, headerBytes]
  apply List.map_congr_left
  intro i hi
  have hi4 : i * 8 < 32 := by
    have := List.mem_range.mp hi
    omega
  apply UInt8.toNat.inj
  rw [UInt32.toNat_toUInt8, UInt32.toNat_and, UInt32.toNat_shiftRight, UInt32.toNat_ofNat',
    UInt8.toNat_ofNat']
  have hmod : i * 8 % 2 ^ 32 % 32 = i * 8 := by omega
  rw [hmod]
  have hmask : (255 : UInt32).toNat = 2 ^ 8 - 1 := rfl
  rw [hmask, Nat.and_two_pow_sub_one_eq_mod]
  omega

end RustDeskCodec

end XyzenRelay.Proto
