-- SUMMARY: The latest matching entries of a log, newest first, and what an entry that is not among them says.
import Mathlib.Data.List.Basic

/-!
# The latest entries of a log

`latest p n xs` lists the last `n` entries of the log that match, the newest first.
In a log ordered by `R`, an entry is left out only for `n` later ones.
-/

section Latest

variable {α : Type} {R : α → α → Prop} (p : α → Prop) [DecidablePred p] {n : Nat} {xs : List α}
  {x : α}

/-- The last `n` matching entries, the newest first. -/
def latest (n : Nat) (xs : List α) : List α := (xs.filter p).reverse.take n

theorem length_latest_le : (latest p n xs).length ≤ n := List.length_take_le n _

variable {p}

theorem mem_of_mem_latest (h : x ∈ latest p n xs) : x ∈ xs ∧ p x := by
  have hfound : x ∈ xs.filter p := List.mem_reverse.mp (List.mem_of_mem_take h)
  simpa using hfound

theorem pairwise_latest (h : xs.Pairwise R) : (latest p n xs).Pairwise fun x y => R y x := by
  have hfound : (xs.filter p).reverse.Pairwise fun x y => R y x :=
    List.pairwise_reverse.mpr (h.sublist List.filter_sublist)
  exact hfound.sublist (List.take_sublist n _)

/-- A matching entry is listed, or the list is full of later ones. -/
theorem mem_latest_or_full (h : xs.Pairwise R) (hx : x ∈ xs) (hp : p x) :
    x ∈ latest p n xs ∨ (latest p n xs).length = n ∧ ∀ y ∈ latest p n xs, R x y := by
  have hfound : x ∈ (xs.filter p).reverse := by simp [hx, hp]
  have hpair : (xs.filter p).reverse.Pairwise fun x y => R y x :=
    List.pairwise_reverse.mpr (h.sublist List.filter_sublist)
  rw [← List.take_append_drop n (xs.filter p).reverse] at hfound hpair
  rcases List.mem_append.mp hfound with htake | hdrop
  · exact .inl htake
  · refine .inr ⟨?_, fun y hy => (List.pairwise_append.mp hpair).2.2 y hy x hdrop⟩
    -- what is dropped is behind `n` entries
    have hlong : n < (xs.filter p).reverse.length := by
      by_contra hle
      rw [List.drop_eq_nil_of_le (by omega)] at hdrop
      simp at hdrop
    rw [latest, List.length_take]
    omega

end Latest
