-- SUMMARY: Random peer ids: nine digits, the first one not zero, whatever the random bytes are.
import XyzenRelay.Lib.Endian
import Mathlib.Data.Nat.Notation

/-!
# Peer ids

Model of `random_id` in `crates/control/src/ids.rs`. The random bytes are an input.
-/

namespace XyzenRelay.Control

/-- 999_999_999 - 100_000_000 + 1 -/
def SPAN : Nat := 900000000

def BASE : Nat := 100000000

/-- `random_id`, with the eight bytes `OsRng` has filled in. -/
def randomId (buf : Vector UInt8 8) : String := toString (Endian.leNat buf.toList % SPAN + BASE)

/-- Nine digits without a leading zero. -/
structure IsPeerId (s : String) : Prop where
  length : s.length = 9
  digits : ∀ c ∈ s.toList, c.isDigit = true
  leading : s.toList.head? ≠ some '0'

/-- A number is written without a leading zero. -/
theorem head?_toDigits {n : Nat} (hn : 0 < n) : (Nat.toDigits 10 n).head? ≠ some '0' := by
  induction n using Nat.strongRecOn with
  | ind n ih =>
    rw [Nat.toDigits_eq_if (by decide)]
    split
    · next hlt =>
      have hdigit : ∀ d : Fin 10, 0 < d.val → d.val.digitChar ≠ '0' := by decide
      simpa using hdigit ⟨n, hlt⟩ hn
    · next hge =>
      have hquotient := ih (n / 10) (by omega) (by omega)
      rwa [List.head?_append_of_ne_nil _ Nat.toDigits_ne_nil]

theorem isPeerId_toString {n : Nat} (hlow : 10 ^ 8 ≤ n) (hhigh : n < 10 ^ 9) :
    IsPeerId (toString n) := by
  have hlist : (toString n).toList = Nat.toDigits 10 n := Nat.toList_repr
  refine ⟨?_, ?_, ?_⟩
  · have hle : (Nat.toDigits 10 n).length ≤ 9 :=
      (Nat.length_toDigits_le_iff (by decide) (by decide)).mpr hhigh
    have hgt : ¬ (Nat.toDigits 10 n).length ≤ 8 := by
      rw [Nat.length_toDigits_le_iff (by decide) (by decide)]
      omega
    rw [← String.length_toList, hlist]
    omega
  · rw [hlist]
    exact fun c hc => Nat.isDigit_of_mem_toDigits (by decide) (by decide) hc
  · rw [hlist]
    exact head?_toDigits (by omega)

/-- The range is hit whatever the random bytes are. -/
theorem isPeerId_randomId (buf : Vector UInt8 8) : IsPeerId (randomId buf) := by
  have hlt : Endian.leNat buf.toList % SPAN < SPAN := Nat.mod_lt _ (by decide)
  unfold SPAN at hlt
  refine isPeerId_toString ?_ ?_ <;> unfold SPAN BASE <;> omega

end XyzenRelay.Control
