-- SUMMARY: The conversion of BGRA frames to NV12, with every access checked: it fills its buffer exactly, in limited range.
import XyzenRelay.Lib.Endian
import XyzenRelay.Lib.Stores

/-!
# BGRA to NV12

Model of `bgra_to_nv12` in `crates/win-capturer/src/encoder.rs`. The loops only read
from the source and only store to the destination, so the function is the list of its
stores, run against the destination. `none` is a panic: an index out of range, or a
debug assertion that fails. The `i32` sums stay below `2 ^ 16` in size.
-/

namespace XyzenRelay.Capture.Nv12

open Stores

/-! ## The function -/

structure Bgr where
  b : Int
  g : Int
  r : Int
  deriving DecidableEq, Repr

/-- `src[i] as i32`. -/
def channel (src : Bytes) (i : Nat) : Option Int := src[i]?.map fun b => (b.toNat : Int)

/-- The three reads of a pixel at `i`. -/
def readPixel (src : Bytes) (i : Nat) : Option Bgr := do
  let b ← channel src i
  let g ← channel src (i + 1)
  let r ← channel src (i + 2)
  return { b, g, r }

namespace Bgr

def yVal (p : Bgr) : Int := (66 * p.r + 129 * p.g + 25 * p.b + 128) >>> (8 : Nat)

def uVal (p : Bgr) : Int := (-38 * p.r - 74 * p.g + 112 * p.b + 128) >>> (8 : Nat)

def vVal (p : Bgr) : Int := (112 * p.r - 94 * p.g - 18 * p.b + 128) >>> (8 : Nat)

def add (p q : Bgr) : Bgr := { b := p.b + q.b, g := p.g + q.g, r := p.r + q.r }

/-- `sum / 4`, which truncates. -/
def quarter (p : Bgr) : Bgr := { b := p.b.tdiv 4, g := p.g.tdiv 4, r := p.r.tdiv 4 }

end Bgr

/-- `v.clamp(0, 255) as u8`. -/
def clampU8 (v : Int) : UInt8 := UInt8.ofNat (max 0 (min v 255)).toNat

/-- The body of the luma loop. -/
def lumaAt (src : Bytes) (w y x : Nat) : Option (List (Nat × UInt8)) := do
  let p ← readPixel src (y * w * 4 + x * 4)
  return [(y * w + x, clampU8 (p.yVal + 16))]

/-- The offsets `(dy, dx)` of the inner two loops. -/
def blockOffsets : List (Nat × Nat) := [(0, 0), (0, 1), (1, 0), (1, 1)]

/-- The sums of the inner two loops. -/
def blockSum (src : Bytes) (w y x : Nat) : Option Bgr :=
  blockOffsets.foldlM
    (fun sum d => do
      let p ← readPixel src (((y + d.1) * w + (x + d.2)) * 4)
      return sum.add p)
    ⟨0, 0, 0⟩

/-- The body of the chroma loop. -/
def chromaAt (src : Bytes) (w h y x : Nat) : Option (List (Nat × UInt8)) := do
  let sum ← blockSum src w y x
  let dstIdx := w * h + y / 2 * w + x
  return [(dstIdx, clampU8 (sum.quarter.uVal + 128)),
    (dstIdx + 1, clampU8 (sum.quarter.vVal + 128))]

/-- `(0..n).step_by(2)`. -/
def stepByTwo (n : Nat) : List Nat := (List.range ((n + 1) / 2)).map (2 * ·)

/-- The stores of the function, in order. -/
def stores (src : Bytes) (w h : Nat) : Option (List (Nat × UInt8)) := do
  let luma ← each (fun y => each (lumaAt src w y) (List.range w)) (List.range h)
  let chroma ← each (fun y => each (chromaAt src w h y) (stepByTwo w)) (stepByTwo h)
  return luma ++ chroma

/-- `bgra_to_nv12`: the destination it leaves behind. -/
def bgraToNv12 (src : Bytes) (w h : Nat) (dst : Bytes) : Option Bytes := do
  let ySize := w * h
  guard (dst.length ≥ ySize + ySize / 2)
  guard (src.length ≥ ySize * 4)
  let writes ← stores src w h
  store dst writes

example : bgraToNv12 (List.replicate 16 0xff) 2 2 (List.replicate 6 0) =
    some [235, 235, 235, 235, 128, 128] := by decide +kernel

/-! ## Limited range -/

/-- The channels are those of bytes. -/
structure Bgr.Wf (p : Bgr) : Prop where
  b : 0 ≤ p.b ∧ p.b ≤ 255
  g : 0 ≤ p.g ∧ p.g ≤ 255
  r : 0 ≤ p.r ∧ p.r ≤ 255

theorem clampU8_eq {v : Int} (h0 : 0 ≤ v) (h255 : v ≤ 255) : ((clampU8 v).toNat : Int) = v := by
  have hclamp : max 0 (min v 255) = v := by omega
  rw [clampU8, hclamp, UInt8.toNat_ofNat']
  omega

namespace Bgr

variable {p : Bgr}

theorem shift_eight (v : Int) : v >>> (8 : Nat) = v / 256 := Int.shiftRight_eq_div_pow v 8

theorem yVal_range (h : p.Wf) : 16 ≤ p.yVal + 16 ∧ p.yVal + 16 ≤ 235 := by
  obtain ⟨hb, hg, hr⟩ := h
  rw [yVal, shift_eight]
  omega

theorem uVal_range (h : p.Wf) : 16 ≤ p.uVal + 128 ∧ p.uVal + 128 ≤ 240 := by
  obtain ⟨hb, hg, hr⟩ := h
  rw [uVal, shift_eight]
  omega

theorem vVal_range (h : p.Wf) : 16 ≤ p.vVal + 128 ∧ p.vVal + 128 ≤ 240 := by
  obtain ⟨hb, hg, hr⟩ := h
  rw [vVal, shift_eight]
  omega

def Grey (p : Bgr) : Prop := p.b = p.g ∧ p.g = p.r

theorem uVal_grey (h : p.Grey) : p.uVal = 0 := by
  obtain ⟨hbg, hgr⟩ := h
  rw [uVal, shift_eight]
  omega

theorem vVal_grey (h : p.Grey) : p.vVal = 0 := by
  obtain ⟨hbg, hgr⟩ := h
  rw [vVal, shift_eight]
  omega

end Bgr

/-! ## Reads in range -/

/-- The pixel at an offset of the source. -/
def pixelAt (src : Bytes) (i : Nat) : Bgr where
  b := (src.getD i 0).toNat
  g := (src.getD (i + 1) 0).toNat
  r := (src.getD (i + 2) 0).toNat

/-- The pixel in column `x` of row `y` of a tightly packed source of width `w`. -/
def pixel (src : Bytes) (w x y : Nat) : Bgr := pixelAt src ((y * w + x) * 4)

theorem wf_pixelAt (src : Bytes) (i : Nat) : (pixelAt src i).Wf := by
  have hbyte : ∀ b : UInt8, (0 : Int) ≤ b.toNat ∧ (b.toNat : Int) ≤ 255 := fun b => by
    have := b.toNat_lt
    omega
  exact ⟨hbyte _, hbyte _, hbyte _⟩

theorem channel_eq {src : Bytes} {i : Nat} (h : i < src.length) :
    channel src i = some ((src.getD i 0).toNat : Int) := by
  rw [channel, List.getD_eq_getElem?_getD, List.getElem?_eq_getElem h]
  rfl

theorem readPixel_eq {src : Bytes} {i : Nat} (h : i + 2 < src.length) :
    readPixel src i = some (pixelAt src i) := by
  simp only [readPixel, channel_eq (show i < src.length by omega),
    channel_eq (show i + 1 < src.length by omega), channel_eq h]
  rfl

/-- A pixel inside the frame is inside the source. -/
theorem index_lt {w h x y : Nat} (hx : x < w) (hy : y < h) : y * w + x < w * h := by
  have hrow : (y + 1) * w ≤ h * w := Nat.mul_le_mul_right w hy
  rw [Nat.succ_mul] at hrow
  rw [Nat.mul_comm w h]
  omega

/-- The sum of a 2x2 block. -/
def blockTotal (src : Bytes) (w x y : Nat) : Bgr :=
  (blockOffsets.map fun d => pixel src w (x + d.2) (y + d.1)).foldl Bgr.add ⟨0, 0, 0⟩

/-- The averaged pixel of the 2x2 block in column `i` of block row `j`. -/
def block (src : Bytes) (w i j : Nat) : Bgr := (blockTotal src w (2 * i) (2 * j)).quarter

theorem blockSum_eq {src : Bytes} {w h x y : Nat} (hsrc : 4 * w * h ≤ src.length)
    (hx : x + 1 < w) (hy : y + 1 < h) : blockSum src w y x = some (blockTotal src w x y) := by
  have hread : ∀ dy dx, dy ≤ 1 → dx ≤ 1 →
      readPixel src (((y + dy) * w + (x + dx)) * 4) = some (pixel src w (x + dx) (y + dy)) := by
    intro dy dx hdy hdx
    have hin := index_lt (w := w) (h := h) (x := x + dx) (y := y + dy) (by omega) (by omega)
    rw [Nat.mul_assoc] at hsrc
    exact readPixel_eq (by omega)
  simp only [blockSum, blockOffsets, List.foldlM_cons, List.foldlM_nil,
    hread 0 0 (by omega) (by omega),
    hread 0 1 (by omega) (by omega), hread 1 0 (by omega) (by omega),
    hread 1 1 (by omega) (by omega)]
  rfl

/-- Averaging four values of a byte stays a byte. -/
theorem tdiv_four_range {a b c d : Int} (ha : 0 ≤ a ∧ a ≤ 255) (hb : 0 ≤ b ∧ b ≤ 255)
    (hc : 0 ≤ c ∧ c ≤ 255) (hd : 0 ≤ d ∧ d ≤ 255) :
    0 ≤ (0 + a + b + c + d).tdiv 4 ∧ (0 + a + b + c + d).tdiv 4 ≤ 255 := by
  rw [Int.tdiv_eq_ediv_of_nonneg (by omega)]
  omega

theorem wf_block (src : Bytes) (w i j : Nat) : (block src w i j).Wf := by
  have hp : ∀ x y, (pixel src w x y).Wf := fun x y => wf_pixelAt _ _
  constructor
  · exact tdiv_four_range (hp _ _).b (hp _ _).b (hp _ _).b (hp _ _).b
  · exact tdiv_four_range (hp _ _).g (hp _ _).g (hp _ _).g (hp _ _).g
  · exact tdiv_four_range (hp _ _).r (hp _ _).r (hp _ _).r (hp _ _).r

theorem grey_block {src : Bytes} {w i j : Nat}
    (h : ∀ dx ≤ 1, ∀ dy ≤ 1, (pixel src w (2 * i + dx) (2 * j + dy)).Grey) :
    (block src w i j).Grey := by
  have h00 := h 0 (by omega) 0 (by omega)
  have h01 := h 1 (by omega) 0 (by omega)
  have h10 := h 0 (by omega) 1 (by omega)
  have h11 := h 1 (by omega) 1 (by omega)
  simp only [Bgr.Grey, block, blockTotal, blockOffsets, List.map_cons, List.map_nil,
    List.foldl_cons, List.foldl_nil, Bgr.quarter, Bgr.add] at h00 h01 h10 h11 ⊢
  simp only [h00, h01, h10, h11, and_self]

/-! ## The stores -/

def lumaByte (src : Bytes) (w x y : Nat) : UInt8 := clampU8 ((pixel src w x y).yVal + 16)

def uByte (src : Bytes) (w i j : Nat) : UInt8 := clampU8 ((block src w i j).uVal + 128)

def vByte (src : Bytes) (w i j : Nat) : UInt8 := clampU8 ((block src w i j).vVal + 128)

def lumaStores (src : Bytes) (w h : Nat) : List (Nat × UInt8) :=
  (List.range h).flatMap fun y => (List.range w).flatMap fun x =>
    [(y * w + x, lumaByte src w x y)]

/-- The stores of the chroma loop for a frame of `2 * a` by `2 * c` pixels. -/
def chromaStores (src : Bytes) (w h a c : Nat) : List (Nat × UInt8) :=
  (List.range c).flatMap fun j => (List.range a).flatMap fun i =>
    [(w * h + j * w + 2 * i, uByte src w i j), (w * h + j * w + 2 * i + 1, vByte src w i j)]

theorem stepByTwo_even (n : Nat) : stepByTwo (2 * n) = (List.range n).map (2 * ·) := by
  rw [stepByTwo, show (2 * n + 1) / 2 = n by omega]

theorem stores_eq {src : Bytes} {w h a c : Nat} (hw : w = 2 * a) (hh : h = 2 * c)
    (hsrc : 4 * w * h ≤ src.length) :
    stores src w h = some (lumaStores src w h ++ chromaStores src w h a c) := by
  have hluma : each (fun y => each (lumaAt src w y) (List.range w)) (List.range h) =
      some (lumaStores src w h) := by
    refine each_eq fun y hy => each_eq fun x hx => ?_
    have hin := index_lt (List.mem_range.mp hx) (List.mem_range.mp hy)
    have hoff : y * w * 4 + x * 4 = (y * w + x) * 4 := by rw [Nat.add_mul]
    rw [Nat.mul_assoc] at hsrc
    rw [lumaAt, hoff, readPixel_eq (by omega)]
    rfl
  have hchroma : each (fun y => each (chromaAt src w h y) (stepByTwo w)) (stepByTwo h) =
      some (chromaStores src w h a c) := by
    rw [hw, hh, stepByTwo_even, stepByTwo_even, each_map, ← hw, ← hh]
    refine each_eq fun j hj => ?_
    rw [each_map]
    refine each_eq fun i hi => ?_
    have hi' := List.mem_range.mp hi
    have hj' := List.mem_range.mp hj
    rw [chromaAt, blockSum_eq hsrc (by omega) (by omega), Nat.mul_div_cancel_left j (by decide)]
    rfl
  simp only [stores, hluma, hchroma]
  rfl

theorem chroma_positions {src : Bytes} {w h a c : Nat} (hw : w = 2 * a) (hh : h = 2 * c) :
    (chromaStores src w h a c).map Prod.fst = (List.range (w * h / 2)).map (w * h + ·) := by
  have hhalf : w * h / 2 = c * w := by
    rw [hh, Nat.mul_comm w, Nat.mul_assoc, Nat.mul_div_cancel_left _ (by decide)]
  have hrow : ∀ j, (List.range a).flatMap (fun i => [w * h + j * w + 2 * i,
      w * h + j * w + 2 * i + 1]) = (List.range w).map fun x => w * h + (j * w + x) := by
    intro j
    have htile := range_tile a 2
    rw [Nat.mul_comm a 2, ← hw] at htile
    rw [← htile, List.map_flatMap]
    apply List.flatMap_congr
    intro i _
    simp only [List.range_succ, List.range_zero, List.nil_append, List.map_cons, List.map_nil,
      List.cons_append, Nat.add_zero, Nat.add_assoc, Nat.mul_comm i 2]
  rw [hhalf, ← range_tile, List.map_flatMap, chromaStores, List.map_flatMap]
  apply List.flatMap_congr
  intro j _
  rw [List.map_flatMap, List.map_map]
  exact hrow j

theorem luma_positions (src : Bytes) (w h : Nat) :
    (lumaStores src w h).map Prod.fst = List.range (w * h) := by
  rw [Nat.mul_comm, ← range_tile, lumaStores, List.map_flatMap]
  apply List.flatMap_congr
  intro y _
  rw [List.map_flatMap, List.map_eq_flatMap]
  rfl

theorem stores_positions {src : Bytes} {w h a c : Nat} (hw : w = 2 * a) (hh : h = 2 * c) :
    (lumaStores src w h ++ chromaStores src w h a c).map Prod.fst =
      List.range (w * h + w * h / 2) := by
  rw [List.map_append, luma_positions, chroma_positions hw hh, List.range_add]

/-! ## The converted frame -/

/-- The destination holds the luma of every pixel and the chroma of every 2x2 block at
    their places, all in limited range and as computed before the clamps, and neutral
    chroma where a block is grey. -/
structure Converted (src : Bytes) (w h : Nat) (out : Bytes) : Prop where
  luma : ∀ x < w, ∀ y < h, ∃ v : UInt8, out[y * w + x]? = some v ∧
    (v.toNat : Int) = (pixel src w x y).yVal + 16 ∧ 16 ≤ v.toNat ∧ v.toNat ≤ 235
  chroma : ∀ i < w / 2, ∀ j < h / 2, ∃ u v : UInt8,
    out[w * h + j * w + 2 * i]? = some u ∧ out[w * h + j * w + 2 * i + 1]? = some v ∧
    (u.toNat : Int) = (block src w i j).uVal + 128 ∧ 16 ≤ u.toNat ∧ u.toNat ≤ 240 ∧
    (v.toNat : Int) = (block src w i j).vVal + 128 ∧ 16 ≤ v.toNat ∧ v.toNat ≤ 240 ∧
    ((∀ dx ≤ 1, ∀ dy ≤ 1, (pixel src w (2 * i + dx) (2 * j + dy)).Grey) →
      u.toNat = 128 ∧ v.toNat = 128)

theorem mem_lumaStores {src : Bytes} {w h x y : Nat} (hx : x < w) (hy : y < h) :
    (y * w + x, lumaByte src w x y) ∈ lumaStores src w h :=
  List.mem_flatMap.mpr ⟨y, List.mem_range.mpr hy,
    List.mem_flatMap.mpr ⟨x, List.mem_range.mpr hx, List.mem_singleton.mpr rfl⟩⟩

theorem mem_chromaStores {src : Bytes} {w h a c i j : Nat} (hi : i < a) (hj : j < c) :
    (w * h + j * w + 2 * i, uByte src w i j) ∈ chromaStores src w h a c ∧
    (w * h + j * w + 2 * i + 1, vByte src w i j) ∈ chromaStores src w h a c := by
  have hmem : ∀ p ∈ [(w * h + j * w + 2 * i, uByte src w i j),
      (w * h + j * w + 2 * i + 1, vByte src w i j)], p ∈ chromaStores src w h a c :=
    fun p hp => List.mem_flatMap.mpr ⟨j, List.mem_range.mpr hj,
      List.mem_flatMap.mpr ⟨i, List.mem_range.mpr hi, hp⟩⟩
  exact ⟨hmem _ (by simp), hmem _ (by simp)⟩

/-- A luma byte is what was computed: the clamp changes nothing. -/
theorem lumaByte_eq (src : Bytes) (w x y : Nat) :
    ((lumaByte src w x y).toNat : Int) = (pixel src w x y).yVal + 16 ∧
    16 ≤ (lumaByte src w x y).toNat ∧ (lumaByte src w x y).toNat ≤ 235 := by
  have hrange := Bgr.yVal_range (wf_pixelAt src ((y * w + x) * 4))
  have heq : ((lumaByte src w x y).toNat : Int) = (pixel src w x y).yVal + 16 :=
    clampU8_eq (by rw [pixel]; omega) (by rw [pixel]; omega)
  rw [← pixel] at hrange
  exact ⟨heq, by omega, by omega⟩

theorem uByte_eq (src : Bytes) (w i j : Nat) :
    ((uByte src w i j).toNat : Int) = (block src w i j).uVal + 128 ∧
    16 ≤ (uByte src w i j).toNat ∧ (uByte src w i j).toNat ≤ 240 := by
  have hrange := Bgr.uVal_range (wf_block src w i j)
  have heq : ((uByte src w i j).toNat : Int) = (block src w i j).uVal + 128 :=
    clampU8_eq (by omega) (by omega)
  exact ⟨heq, by omega, by omega⟩

theorem vByte_eq (src : Bytes) (w i j : Nat) :
    ((vByte src w i j).toNat : Int) = (block src w i j).vVal + 128 ∧
    16 ≤ (vByte src w i j).toNat ∧ (vByte src w i j).toNat ≤ 240 := by
  have hrange := Bgr.vVal_range (wf_block src w i j)
  have heq : ((vByte src w i j).toNat : Int) = (block src w i j).vVal + 128 :=
    clampU8_eq (by omega) (by omega)
  exact ⟨heq, by omega, by omega⟩

/-- The function on even sizes: its stores, at the positions of the destination in
    order, and their values as the destination. -/
theorem bgraToNv12_eq {src dst : Bytes} {w h a c : Nat} (hw : w = 2 * a) (hh : h = 2 * c)
    (hsrc : 4 * w * h ≤ src.length) (hdst : dst.length = w * h + w * h / 2) :
    (lumaStores src w h ++ chromaStores src w h a c).map Prod.fst = List.range dst.length ∧
    bgraToNv12 src w h dst =
      some ((lumaStores src w h ++ chromaStores src w h a c).map Prod.snd) := by
  have hpos : (lumaStores src w h ++ chromaStores src w h a c).map Prod.fst =
      List.range (w * h + w * h / 2) := stores_positions hw hh
  rw [← hdst] at hpos
  have hsize : src.length ≥ w * h * 4 := by
    rw [Nat.mul_assoc] at hsrc
    omega
  have hroom : dst.length ≥ w * h + w * h / 2 := Nat.le_of_eq hdst.symm
  refine ⟨hpos, ?_⟩
  simp only [bgraToNv12, hroom, hsize, guard_true, stores_eq hw hh hsrc, Option.bind_eq_bind]
  exact store_range hpos

/-- On even sizes, with a source that is large enough and a destination of the size of
    an NV12 frame, no access is out of range, every destination byte is stored exactly
    once, in order, and the destination holds the converted frame. -/
theorem bgraToNv12_exact {src dst : Bytes} {w h : Nat} (hw : w % 2 = 0) (hh : h % 2 = 0)
    (hsrc : 4 * w * h ≤ src.length) (hdst : dst.length = w * h + w * h / 2) :
    ∃ writes out, stores src w h = some writes ∧
      writes.map Prod.fst = List.range dst.length ∧
      bgraToNv12 src w h dst = some out ∧ out.length = dst.length ∧ Converted src w h out := by
  have hw' : w = 2 * (w / 2) := by omega
  have hh' : h = 2 * (h / 2) := by omega
  obtain ⟨hpos, hconvert⟩ := bgraToNv12_eq hw' hh' hsrc hdst
  refine ⟨_, _, stores_eq hw' hh' hsrc, hpos, hconvert, ?_, ?_, ?_⟩
  · have hlen := congrArg List.length hpos
    rw [List.length_map, List.length_range] at hlen
    rw [List.length_map, hlen]
  · intro x hx y hy
    have hin := getElem?_of_store hpos (List.mem_append_left _ (mem_lumaStores hx hy))
    exact ⟨lumaByte src w x y, hin, lumaByte_eq src w x y⟩
  · intro i hi j hj
    obtain ⟨hu, hv⟩ := @mem_chromaStores src w h _ _ i j hi hj
    have huin := getElem?_of_store hpos (List.mem_append_right _ hu)
    have hvin := getElem?_of_store hpos (List.mem_append_right _ hv)
    obtain ⟨hueq, hulow, huhigh⟩ := uByte_eq src w i j
    obtain ⟨hveq, hvlow, hvhigh⟩ := vByte_eq src w i j
    refine ⟨uByte src w i j, vByte src w i j, huin, hvin, hueq, hulow, huhigh, hveq, hvlow,
      hvhigh, fun hgrey => ?_⟩
    rw [Bgr.uVal_grey (grey_block hgrey)] at hueq
    rw [Bgr.vVal_grey (grey_block hgrey)] at hveq
    omega

/-- A red, a green, a blue and a white pixel. -/
theorem bgraToNv12_exact_square :
    ∃ writes out,
      stores [0, 0, 255, 255, 0, 255, 0, 255, 255, 0, 0, 255, 255, 255, 255, 255] 2 2 =
        some writes ∧
      writes.map Prod.fst = List.range 6 ∧
      bgraToNv12 [0, 0, 255, 255, 0, 255, 0, 255, 255, 0, 0, 255, 255, 255, 255, 255] 2 2
        (List.replicate 6 0) = some out ∧ out.length = 6 ∧
      Converted [0, 0, 255, 255, 0, 255, 0, 255, 255, 0, 0, 255, 255, 255, 255, 255] 2 2 out :=
  @bgraToNv12_exact _ (List.replicate 6 0) 2 2 (by decide) (by decide) (by decide) (by decide)

end XyzenRelay.Capture.Nv12
