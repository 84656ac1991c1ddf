-- SUMMARY: The entries of a list two by two, and how they grow with the list.
import Mathlib.Data.List.Basic

/-!
# Two by two

A queue that gives out its entries in pairs gives out `twos` of what has come, and keeps
what is `leftover`.
-/

namespace TwoByTwo

variable {α : Type}

/-- The entries two by two, in order. -/
def twos : List α → List (α × α)
  | x :: y :: xs => (x, y) :: twos xs
  | _ => []

/-- The last entry of an odd number. -/
def leftover : List α → Option α
  | _ :: _ :: xs => leftover xs
  | [x] => some x
  | [] => none

/-- One more entry makes a pair with the one left over. -/
theorem concat_of_some {xs : List α} {y : α} (h : leftover xs = some y) (x : α) :
    twos (xs ++ [x]) = twos xs ++ [(y, x)] ∧ leftover (xs ++ [x]) = none := by
  induction xs using leftover.induct with
  | case1 a b xs ih =>
    obtain ⟨htwos, hleft⟩ := ih h
    exact ⟨congrArg ((a, b) :: ·) htwos, hleft⟩
  | case2 a =>
    obtain rfl : a = y := Option.some.inj h
    exact ⟨rfl, rfl⟩
  | case3 => cases h

/-- One more entry is left over where none was. -/
theorem concat_of_none {xs : List α} (h : leftover xs = none) (x : α) :
    twos (xs ++ [x]) = twos xs ∧ leftover (xs ++ [x]) = some x := by
  induction xs using leftover.induct with
  | case1 a b xs ih =>
    obtain ⟨htwos, hleft⟩ := ih h
    exact ⟨congrArg ((a, b) :: ·) htwos, hleft⟩
  | case2 a => cases h
  | case3 => exact ⟨rfl, rfl⟩

end TwoByTwo
