-- SUMMARY: Little- and big-endian encodings of natural numbers as byte lists, with their inverse laws and their bitwise readings.
import Mathlib.Data.List.Basic
import Mathlib.Tactic.Ring

/-!
# Byte order

`leBytes k v` is the `k` low bytes of `v`, least significant first, and `leNat`
reads such a list back. The big-endian pair is the same on the reversed list.
Code that assembles a number with shifts and ors, or takes it apart with shifts
and masks, is related to this pair by `leNat_cons_or` and `leBytes_eq_map`.
-/

/-- A byte string. -/
abbrev Bytes := List UInt8

namespace Endian

/-- The `k` low bytes of `v`, least significant first. -/
def leBytes : Nat → Nat → Bytes
  | 0, _ => []
  | k + 1, v => UInt8.ofNat v :: leBytes k (v / 256)

/-- The number a byte list denotes, least significant byte first. -/
def leNat : Bytes → Nat
  | [] => 0
  | b :: bs => b.toNat + 256 * leNat bs

/-- The `k` low bytes of `v`, most significant first. -/
def beBytes (k v : Nat) : Bytes := (leBytes k v).reverse

/-- The number a byte list denotes, most significant byte first. -/
def beNat (bs : Bytes) : Nat := leNat bs.reverse

/-! ## Little endian -/

@[simp] theorem leBytes_length (k v : Nat) : (leBytes k v).length = k := by
  induction k generalizing v with
  | zero => rfl
  | succ k ih => simp [leBytes, ih]

theorem leNat_lt (bs : Bytes) : leNat bs < 256 ^ bs.length := by
  induction bs with
  | nil => simp [leNat]
  | cons b bs ih =>
    have hb : b.toNat < 256 := b.toNat_lt
    simp only [leNat, List.length_cons, Nat.pow_succ]
    omega

theorem leNat_leBytes (k v : Nat) : leNat (leBytes k v) = v % 256 ^ k := by
  induction k generalizing v with
  | zero => simp [leBytes, leNat, Nat.mod_one]
  | succ k ih =>
    have hb : (UInt8.ofNat v).toNat = v % 256 := UInt8.toNat_ofNat'
    rw [leBytes, leNat, ih, hb, Nat.pow_succ, Nat.mul_comm (256 ^ k) 256, Nat.mod_mul]

theorem leBytes_leNat (bs : Bytes) : leBytes bs.length (leNat bs) = bs := by
  induction bs with
  | nil => rfl
  | cons b bs ih =>
    have hb : b.toNat < 256 := b.toNat_lt
    have hdiv : (b.toNat + 256 * leNat bs) / 256 = leNat bs := by omega
    have hhead : UInt8.ofNat (b.toNat + 256 * leNat bs) = b := by
      apply UInt8.toNat.inj
      rw [UInt8.toNat_ofNat']
      omega
    rw [List.length_cons, leNat, leBytes, hdiv, ih, hhead]

/-- Reading a number with shifts and ors. -/
theorem leNat_cons_or (b : UInt8) (bs : Bytes) :
    leNat (b :: bs) = b.toNat ||| leNat bs <<< 8 := by
  have h : leNat bs <<< 8 + b.toNat = leNat bs <<< 8 ||| b.toNat :=
    Nat.shiftLeft_add_eq_or_of_lt b.toNat_lt _
  rw [Nat.or_comm, ← h, leNat, Nat.shiftLeft_eq]
  ring

@[simp] theorem leNat_one (a : UInt8) : leNat [a] = a.toNat := rfl

theorem leNat_two_or (a b : UInt8) : leNat [a, b] = a.toNat ||| b.toNat <<< 8 := by
  rw [leNat_cons_or, leNat_one]

theorem leNat_three_or (a b c : UInt8) :
    leNat [a, b, c] = a.toNat ||| b.toNat <<< 8 ||| c.toNat <<< 16 := by
  rw [leNat_cons_or, leNat_two_or, Nat.shiftLeft_or_distrib, ← Nat.shiftLeft_add, Nat.or_assoc]

theorem leNat_four_or (a b c d : UInt8) :
    leNat [a, b, c, d] = a.toNat ||| b.toNat <<< 8 ||| c.toNat <<< 16 ||| d.toNat <<< 24 := by
  rw [leNat_cons_or, leNat_three_or, Nat.shiftLeft_or_distrib, Nat.shiftLeft_or_distrib,
    ← Nat.shiftLeft_add, ← Nat.shiftLeft_add, Nat.or_assoc, Nat.or_assoc, Nat.or_assoc]

/-- Taking a number apart with shifts and casts. -/
theorem leBytes_eq_map (k v : Nat) :
    leBytes k v = (List.range k).map fun i => UInt8.ofNat (v >>> (i * 8)) := by
  induction k generalizing v with
  | zero => rfl
  | succ k ih =>
    rw [leBytes, ih, List.range_succ_eq_map, List.map_cons, List.map_map]
    congr 1
    apply List.map_congr_left
    intro i _
    have hdiv : v / 256 = v >>> 8 := (Nat.shiftRight_eq_div_pow v 8).symm
    simp only [Function.comp_apply]
    rw [hdiv, ← Nat.shiftRight_add]
    congr 2
    omega

/-! ## Big endian -/

@[simp] theorem beBytes_length (k v : Nat) : (beBytes k v).length = k := by
  simp [beBytes]

theorem beNat_lt (bs : Bytes) : beNat bs < 256 ^ bs.length := by
  simpa [beNat] using leNat_lt bs.reverse

theorem beNat_beBytes (k v : Nat) : beNat (beBytes k v) = v % 256 ^ k := by
  simp [beNat, beBytes, leNat_leBytes]

theorem beBytes_beNat (bs : Bytes) : beBytes bs.length (beNat bs) = bs := by
  have h := leBytes_leNat bs.reverse
  rw [List.length_reverse] at h
  rw [beBytes, beNat, h, List.reverse_reverse]

/-- Taking a number apart with shifts and casts, most significant byte first. -/
theorem beBytes_eq_map (k v : Nat) :
    beBytes k v = (List.range k).map fun i => UInt8.ofNat (v >>> (8 * (k - 1 - i))) := by
  have hreverse : (List.range k).reverse = (List.range k).map (k - 1 - ·) := by
    rw [List.range_eq_range', List.reverse_range', ← List.range_eq_range']
    simp
  rw [beBytes, leBytes_eq_map, ← List.map_reverse, hreverse, List.map_map]
  apply List.map_congr_left
  intro i _
  simp [Nat.mul_comm]

/-- Four bytes, read most significant first with shifts and ors. -/
theorem beNat_four_or (a b c d : UInt8) :
    beNat [a, b, c, d] = a.toNat <<< 24 ||| b.toNat <<< 16 ||| c.toNat <<< 8 ||| d.toNat := by
  have h : beNat [a, b, c, d] = leNat [d, c, b, a] := rfl
  rw [h, leNat_four_or, Nat.or_comm, Nat.or_comm (_ ||| _), Nat.or_comm d.toNat, Nat.or_assoc,
    Nat.or_assoc]

end Endian
