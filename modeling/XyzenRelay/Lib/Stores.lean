-- SUMMARY: Loops that read with checks and store into a buffer by position, and the buffer they leave when the positions tile it.
import Mathlib.Data.List.Basic

/-!
# Positional stores

A loop that fills a buffer is the list of its stores, in program order, each a
position and a value. `store` runs them with every position checked. When the positions
are those of the buffer in order, every cell is stored exactly once, nothing of the old
buffer is left, and the value of a store is found at its position
(`getElem?_of_store`).
-/

namespace Stores

variable {ι α : Type}

/-! ## Loops -/

/-- Run a loop body, which may fail, over the indices, and join what it yields. -/
def each (f : ι → Option (List α)) : List ι → Option (List α)
  | [] => some []
  | i :: is =>
    match f i, each f is with
    | some xs, some ys => some (xs ++ ys)
    | _, _ => none

theorem each_eq {f : ι → Option (List α)} {g : ι → List α} {is : List ι}
    (h : ∀ i ∈ is, f i = some (g i)) : each f is = some (is.flatMap g) := by
  induction is with
  | nil => rfl
  | cons i is ih =>
    have hcons := List.forall_mem_cons.mp h
    rw [each, hcons.1, ih hcons.2, List.flatMap_cons]

theorem each_map {κ : Type} (f : κ → Option (List α)) (g : ι → κ) (is : List ι) :
    each f (is.map g) = each (fun i => f (g i)) is := by
  induction is with
  | nil => rfl
  | cons i is ih => rw [List.map_cons, each, each, ih]

/-! ## Stores -/

/-- Store the values one after the other; a position outside the buffer fails. -/
def store (dst : List α) : List (Nat × α) → Option (List α)
  | [] => some dst
  | (i, v) :: ws => if i < dst.length then store (dst.set i v) ws else none

/-- Stores in order from a position to the end replace the rest of the buffer. -/
theorem store_range' {ws : List (Nat × α)} {dst : List α} {k n : Nat}
    (hpos : ws.map Prod.fst = List.range' k n) (hlen : k + n = dst.length) :
    store dst ws = some (dst.take k ++ ws.map Prod.snd) := by
  induction n generalizing ws dst k with
  | zero =>
    rw [List.range'_zero, List.map_eq_nil_iff] at hpos
    rw [hpos, List.take_of_length_le (by omega)]
    simp [store]
  | succ n ih =>
    cases ws with
    | nil => simp [List.range'_succ] at hpos
    | cons p ws =>
      obtain ⟨i, v⟩ := p
      rw [List.range'_succ, List.map_cons, List.cons.injEq] at hpos
      obtain ⟨rfl, hpos⟩ := hpos
      have hi : i < dst.length := by omega
      have htake : (dst.set i v).take (i + 1) = dst.take i ++ [v] := by
        rw [List.take_add_one, List.take_set_of_le (Nat.le_refl i), List.getElem?_set_self hi]
        rfl
      rw [store, if_pos hi, ih hpos (by rw [List.length_set]; omega), htake, List.map_cons,
        List.append_assoc, List.singleton_append]

/-- Stores in order to every position of the buffer leave their values. -/
theorem store_range {ws : List (Nat × α)} {dst : List α}
    (hpos : ws.map Prod.fst = List.range dst.length) : store dst ws = some (ws.map Prod.snd) := by
  rw [List.range_eq_range'] at hpos
  exact store_range' hpos (Nat.zero_add _)

/-- A value is found at the position it was stored to. -/
theorem getElem?_of_store {ws : List (Nat × α)} {n i : Nat} {v : α}
    (hpos : ws.map Prod.fst = List.range n) (h : (i, v) ∈ ws) :
    (ws.map Prod.snd)[i]? = some v := by
  obtain ⟨k, hk⟩ := List.mem_iff_getElem?.mp h
  have hfst : (ws.map Prod.fst)[k]? = some i := by rw [List.getElem?_map, hk]; rfl
  rw [hpos] at hfst
  obtain ⟨hlt, hrange⟩ := List.getElem?_eq_some_iff.mp hfst
  rw [List.getElem_range] at hrange
  rw [← hrange, List.getElem?_map, hk]
  rfl

/-! ## Tiles -/

/-- Rows of `m` positions, one behind the other, tile a range. -/
theorem range_tile (n m : Nat) :
    (List.range n).flatMap (fun y => (List.range m).map (y * m + ·)) = List.range (n * m) := by
  induction n with
  | zero => simp
  | succ n ih =>
    rw [List.range_succ, List.flatMap_append, ih, Nat.succ_mul, List.range_add]
    simp

end Stores
