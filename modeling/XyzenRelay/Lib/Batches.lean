-- SUMMARY: Cutting a stream into batches that are closed by their last element.
import Mathlib.Data.List.Basic

/-!
# Batches

A collector keeps the elements that arrive until one closes the batch, and hands
the batch on. Which elements close a batch may depend on how many were handed on
before. Nothing is lost or reordered (`elements_push`), and every batch ends with
the only element that closes it (`WellCut.push`).
-/

/-- The batches handed on so far, and the elements of the open one. -/
structure Batches (α : Type) where
  closed : List (List α)
  pending : List α
  deriving DecidableEq, Repr

namespace Batches

variable {α : Type}

def empty : Batches α := ⟨[], []⟩

/-- Everything that arrived, in order. -/
def elements (b : Batches α) : List α := b.closed.flatten ++ b.pending

variable (closes : Nat → α → Bool)

def push (b : Batches α) (x : α) : Batches α :=
  if closes b.closed.length x then ⟨b.closed ++ [b.pending ++ [x]], []⟩
  else { b with pending := b.pending ++ [x] }

/-- The batch ends with the only element of it that closes the `n`-th batch. -/
def IsBatch (n : Nat) (batch : List α) : Prop :=
  ∃ body x, batch = body ++ [x] ∧ closes n x = true ∧ ∀ y ∈ body, closes n y = false

/-- Every batch is closed by its last element and by no other. -/
structure WellCut (b : Batches α) : Prop where
  closed : ∀ n batch, b.closed[n]? = some batch → IsBatch closes n batch
  pending : ∀ y ∈ b.pending, closes b.closed.length y = false

section Push

variable {closes} {b : Batches α} {x : α}

theorem wellCut_empty : (empty : Batches α).WellCut closes := ⟨by simp [empty], by simp [empty]⟩

theorem push_closing (h : closes b.closed.length x = true) :
    b.push closes x = ⟨b.closed ++ [b.pending ++ [x]], []⟩ := if_pos h

theorem push_open (h : closes b.closed.length x = false) :
    b.push closes x = { b with pending := b.pending ++ [x] } := if_neg (by simp [h])

@[simp] theorem elements_push : (b.push closes x).elements = b.elements ++ [x] := by
  cases h : closes b.closed.length x with
  | true => simp [push_closing h, elements]
  | false => simp [push_open h, elements]

theorem WellCut.push (hb : b.WellCut closes) : (b.push closes x).WellCut closes := by
  cases h : closes b.closed.length x with
  | true =>
    rw [push_closing h]
    refine ⟨fun n batch hn => ?_, by simp⟩
    rcases Nat.lt_trichotomy n b.closed.length with hlt | rfl | hgt
    · exact hb.closed n batch (by rwa [List.getElem?_append_left hlt] at hn)
    · rw [List.getElem?_concat_length, Option.some.injEq] at hn
      exact ⟨b.pending, x, hn.symm, h, hb.pending⟩
    · have hlen : (b.closed ++ [b.pending ++ [x]]).length ≤ n := by simp; omega
      simp [List.getElem?_eq_none hlen] at hn
  | false =>
    rw [push_open h]
    refine ⟨hb.closed, fun y hy => ?_⟩
    rcases List.mem_append.mp hy with hy | hy
    · exact hb.pending y hy
    · rw [List.mem_singleton.mp hy]
      exact h

end Push

end Batches
