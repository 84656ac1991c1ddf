-- SUMMARY: Logs whose entries carry their own position, and what a position says about the prefixes and suffixes an entry is in.
import Mathlib.Data.List.Basic

/-!
# Numbered logs

An append-only log is numbered when every entry carries its own position. Then
positions stand for prefixes: an entry is in the first `n` entries exactly when
its number is below `n`.
-/

/-- Every entry of the log carries its position. -/
def Numbered {α : Type} (index : α → Nat) (xs : List α) : Prop :=
  xs.map index = List.range xs.length

namespace Numbered

variable {α : Type} {index : α → Nat} {xs ys : List α} {x y : α} {n : Nat}

theorem nil : Numbered index [] := rfl

theorem concat (h : Numbered index xs) (hx : index x = xs.length) : Numbered index (xs ++ [x]) := by
  unfold Numbered at h ⊢
  simp [h, hx, List.range_succ]

theorem of_append (h : Numbered index (xs ++ ys)) : Numbered index xs := by
  unfold Numbered at h ⊢
  have htake := congrArg (List.take xs.length) h
  simpa [← List.map_take, List.take_range] using htake

/-- Later entries carry larger numbers. -/
theorem pairwise (h : Numbered index xs) : xs.Pairwise fun x y => index x < index y := by
  have hrange : (xs.map index).Pairwise (· < ·) := by
    rw [show xs.map index = _ from h]
    exact List.pairwise_lt_range
  exact List.pairwise_map.mp hrange

theorem nodup (h : Numbered index xs) : xs.Nodup := by
  apply List.nodup_iff_pairwise_ne.mpr
  apply h.pairwise.imp
  rintro x y hlt rfl
  exact Nat.lt_irrefl _ hlt

/-- The number of an entry is where it is found. -/
theorem getElem?_index (h : Numbered index xs) (hx : x ∈ xs) : xs[index x]? = some x := by
  obtain ⟨i, hi, rfl⟩ := List.mem_iff_getElem.mp hx
  have hindex : index xs[i] = i := by
    have hget := congrArg (·[i]?) h
    simpa [hi] using hget
  rw [hindex]
  exact List.getElem?_eq_getElem hi

theorem index_lt (h : Numbered index xs) (hx : x ∈ xs) : index x < xs.length := by
  have hget := h.getElem?_index hx
  by_contra hge
  rw [List.getElem?_eq_none (by omega)] at hget
  simp at hget

theorem mem_take_iff (h : Numbered index xs) (hx : x ∈ xs) : x ∈ xs.take n ↔ index x < n := by
  have hsplit : Numbered index (xs.take n ++ xs.drop n) := by rwa [List.take_append_drop]
  constructor
  · intro hmem
    have hlt := hsplit.of_append.index_lt hmem
    rw [List.length_take] at hlt
    omega
  · intro hlt
    apply List.mem_of_getElem? (i := index x)
    rw [List.getElem?_take_of_lt hlt]
    exact h.getElem?_index hx

theorem mem_drop_iff (h : Numbered index xs) (hx : x ∈ xs) : x ∈ xs.drop n ↔ n ≤ index x := by
  constructor
  · intro hmem
    by_contra hlt
    have htake : x ∈ xs.take n := (h.mem_take_iff hx).mpr (by omega)
    have hcross : (xs.take n ++ xs.drop n).Pairwise fun x y => index x < index y := by
      rw [List.take_append_drop]
      exact h.pairwise
    exact Nat.lt_irrefl _ ((List.pairwise_append.mp hcross).2.2 x htake x hmem)
  · intro hle
    have hmem : x ∈ xs.take n ++ xs.drop n := by rwa [List.take_append_drop]
    rcases List.mem_append.mp hmem with htake | hdrop
    · have := (h.mem_take_iff hx).mp htake
      omega
    · exact hdrop

/-- Numbers from `n` on are found behind any earlier position. -/
theorem filter_drop (h : Numbered index xs) {m : Nat} (hmn : m ≤ n) :
    (xs.drop m).filter (fun x => n ≤ index x) = xs.filter fun x => n ≤ index x := by
  have htake : (xs.take m).filter (fun x => n ≤ index x) = [] := by
    rw [List.filter_eq_nil_iff]
    intro x hx
    have hlt := (h.mem_take_iff (List.mem_of_mem_take hx)).mp hx
    simp only [decide_eq_true_eq]
    omega
  conv_rhs => rw [← List.take_append_drop m xs, List.filter_append, htake, List.nil_append]

/-- An entry numbered above another comes after it. -/
theorem mem_of_lt (h : Numbered index (xs ++ y :: ys)) (hx : x ∈ xs ++ y :: ys)
    (hlt : index y < index x) : x ∈ ys := by
  have hlater := List.pairwise_append.mp h.pairwise
  rcases List.mem_append.mp hx with hx | hx
  · have := hlater.2.2 x hx y List.mem_cons_self
    omega
  · rcases List.mem_cons.mp hx with rfl | hx
    · exact absurd hlt (Nat.lt_irrefl _)
    · exact hx

/-- The number of an entry is the length of what precedes it. -/
theorem index_eq_length (h : Numbered index (xs ++ y :: ys)) : index y = xs.length := by
  have hget := congrArg (·[xs.length]?) h
  simpa using hget

/-- Two entries with the same number are the same entry. -/
theorem index_inj (h : Numbered index xs) (hx : x ∈ xs) (hy : y ∈ xs) (heq : index x = index y) :
    x = y := by
  have hget := h.getElem?_index hx
  rw [heq, h.getElem?_index hy] at hget
  exact (Option.some.inj hget).symm

end Numbered
