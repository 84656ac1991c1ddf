-- SUMMARY: A bounded broadcast channel: every live receiver reads, in send order, the values sent after it subscribed, and a slow one loses the oldest.
import Mathlib.Data.List.AList

/-!
# Broadcast channels

A broadcast channel keeps the values sent to it and, for every live receiver,
how far it has read. A new receiver starts behind the last value. A value sent
while nobody listens is dropped. A receiver that falls more than `capacity`
values behind is told how many it lost and continues with the oldest value kept.

The log is never truncated here: what a ring buffer would have overwritten is
what no receiver can read any more.
-/

/-- A broadcast channel with receivers named by `ρ`. -/
structure Broadcast (ρ α : Type) where
  capacity : Nat
  log : List α
  cursors : AList fun _ : ρ => Nat

namespace Broadcast

variable {ρ α : Type} [DecidableEq ρ]

/-- What a receive call reports. -/
inductive Recv (α : Type) where
  | value (v : α)
  | lagged (n : Nat)
  | empty
  deriving DecidableEq, Repr

/-- A channel nobody has subscribed to yet. -/
def channel (capacity : Nat) : Broadcast ρ α := { capacity, log := [], cursors := ∅ }

def receiverCount (b : Broadcast ρ α) : Nat := b.cursors.keys.length

def subscribe (b : Broadcast ρ α) (r : ρ) : Broadcast ρ α :=
  { b with cursors := b.cursors.insert r b.log.length }

/-- Drop a receiver. -/
def drop (b : Broadcast ρ α) (r : ρ) : Broadcast ρ α :=
  { b with cursors := b.cursors.erase r }

/-- Send a value. With no receiver the call fails and the value is dropped. -/
def send (b : Broadcast ρ α) (v : α) : Broadcast ρ α :=
  if b.receiverCount = 0 then b else { b with log := b.log ++ [v] }

/-- The values a receiver has not read yet. -/
def backlog (b : Broadcast ρ α) (r : ρ) : List α :=
  (b.cursors.lookup r).elim [] fun n => b.log.drop n

/-- The receiver has fallen behind by more than the channel keeps. -/
def Lagging (b : Broadcast ρ α) (r : ρ) : Prop := b.capacity < (b.backlog r).length

instance (b : Broadcast ρ α) (r : ρ) : Decidable (b.Lagging r) :=
  inferInstanceAs (Decidable (b.capacity < _))

/-- Receive without waiting. -/
def recv (b : Broadcast ρ α) (r : ρ) : Recv α × Broadcast ρ α :=
  match b.cursors.lookup r with
  | none => (.empty, b)
  | some n =>
    if b.capacity < (b.log.drop n).length then
      (.lagged ((b.log.drop n).length - b.capacity),
        { b with cursors := b.cursors.insert r (b.log.length - b.capacity) })
    else
      match b.log[n]? with
      | some v => (.value v, { b with cursors := b.cursors.insert r (n + 1) })
      | none => (.empty, b)

/-! ## Receivers -/

omit [DecidableEq ρ] in
theorem receiverCount_eq_zero {b : Broadcast ρ α} : b.receiverCount = 0 ↔ ∀ r, r ∉ b.cursors := by
  rw [receiverCount, List.length_eq_zero_iff, List.eq_nil_iff_forall_not_mem]
  simp [AList.mem_keys]

omit [DecidableEq ρ] in
theorem receiverCount_pos {b : Broadcast ρ α} {r : ρ} (h : r ∈ b.cursors) : b.receiverCount ≠ 0 :=
  fun h0 => receiverCount_eq_zero.mp h0 r h

@[simp] theorem mem_subscribe {b : Broadcast ρ α} {r q : ρ} :
    q ∈ (b.subscribe r).cursors ↔ q = r ∨ q ∈ b.cursors := by
  simp [subscribe]

@[simp] theorem mem_drop {b : Broadcast ρ α} {r q : ρ} :
    q ∈ (b.drop r).cursors ↔ q ≠ r ∧ q ∈ b.cursors := by
  simp [drop]

omit [DecidableEq ρ] in
@[simp] theorem cursors_send (b : Broadcast ρ α) (v : α) : (b.send v).cursors = b.cursors := by
  unfold send
  split <;> rfl

/-- A receiver moves nothing but cursors. -/
theorem exists_recv (b : Broadcast ρ α) (r : ρ) :
    ∃ cursors, (b.recv r).2 = { b with cursors } := by
  unfold recv
  cases b.cursors.lookup r with
  | none => exact ⟨_, rfl⟩
  | some n =>
    dsimp only
    split
    · exact ⟨_, rfl⟩
    · split <;> exact ⟨_, rfl⟩

@[simp] theorem capacity_recv (b : Broadcast ρ α) (r : ρ) : (b.recv r).2.capacity = b.capacity := by
  obtain ⟨cursors, h⟩ := b.exists_recv r
  rw [h]

@[simp] theorem log_recv (b : Broadcast ρ α) (r : ρ) : (b.recv r).2.log = b.log := by
  obtain ⟨cursors, h⟩ := b.exists_recv r
  rw [h]

/-- A value received was sent. -/
theorem mem_log_of_recv {b : Broadcast ρ α} {r : ρ} {v : α} (h : (b.recv r).1 = .value v) :
    v ∈ b.log := by
  unfold recv at h
  cases hr : b.cursors.lookup r with
  | none => simp [hr] at h
  | some n =>
    simp only [hr] at h
    split at h
    · simp at h
    · split at h
      · next u hu =>
        simp only [Recv.value.injEq] at h
        exact h ▸ List.mem_of_getElem? hu
      · simp at h

theorem mem_recv {b : Broadcast ρ α} {r q : ρ} : q ∈ (b.recv r).2.cursors ↔ q ∈ b.cursors := by
  unfold recv
  cases hr : b.cursors.lookup r with
  | none => rfl
  | some n =>
    have hmem : r ∈ b.cursors := AList.lookup_isSome.mp (by simp [hr])
    have hinsert : q = r ∨ q ∈ b.cursors ↔ q ∈ b.cursors :=
      ⟨fun h => h.elim (fun h => h ▸ hmem) id, .inr⟩
    dsimp only
    split
    · simpa using hinsert
    · split
      · simpa using hinsert
      · rfl

/-! ## Backlogs -/

@[simp] theorem backlog_subscribe (b : Broadcast ρ α) (r : ρ) : (b.subscribe r).backlog r = [] := by
  simp [backlog, subscribe]

/-- No cursor is past the end of the log. -/
def CursorsLe (b : Broadcast ρ α) : Prop := ∀ r n, b.cursors.lookup r = some n → n ≤ b.log.length

/-- A value sent reaches every receiver subscribed before the send. -/
theorem backlog_send {b : Broadcast ρ α} {r : ρ} (hb : b.CursorsLe) (hr : r ∈ b.cursors) (v : α) :
    (b.send v).backlog r = b.backlog r ++ [v] := by
  obtain ⟨n, hn⟩ := Option.isSome_iff_exists.mp (AList.lookup_isSome.mpr hr)
  have hle := hb r n hn
  unfold send
  rw [if_neg (receiverCount_pos hr)]
  simp only [backlog, hn, Option.elim_some]
  rw [List.drop_append_of_le_length hle]

/-- A receive call takes the head of the backlog, unless the receiver lags. -/
theorem recv_of_backlog {b : Broadcast ρ α} {r : ρ} {v : α} {vs : List α}
    (hlag : ¬ b.Lagging r) (h : b.backlog r = v :: vs) :
    (b.recv r).1 = .value v ∧ (b.recv r).2.log = b.log ∧ (b.recv r).2.backlog r = vs := by
  unfold Lagging at hlag
  unfold backlog at h hlag
  unfold recv
  cases hr : b.cursors.lookup r with
  | none => simp [hr] at h
  | some n =>
    simp only [hr, Option.elim_some] at h hlag
    have hget : b.log[n]? = some v := by
      have := congrArg (·[0]?) h
      simpa using this
    have hdrop : b.log.drop (n + 1) = vs := by
      have := congrArg (List.drop 1) h
      simpa [List.drop_drop] using this
    simp only [hlag, if_false, hget]
    exact ⟨trivial, trivial, by simp [backlog, hdrop]⟩

theorem recv_of_empty {b : Broadcast ρ α} {r : ρ} (h : b.backlog r = []) :
    b.recv r = (.empty, b) := by
  unfold backlog at h
  unfold recv
  cases hr : b.cursors.lookup r with
  | none => rfl
  | some n =>
    simp only [hr, Option.elim_some] at h
    have hget : b.log[n]? = none := by
      rw [List.getElem?_eq_none_iff]
      simpa using h
    simp [h, hget]

theorem recv_of_lagging {b : Broadcast ρ α} {r : ρ} (h : b.Lagging r) :
    ∃ n, (b.recv r).1 = .lagged n := by
  unfold Lagging backlog at h
  unfold recv
  cases hr : b.cursors.lookup r with
  | none => simp [hr] at h
  | some n =>
    simp only [hr, Option.elim_some] at h
    simp only [h, if_true]
    exact ⟨_, rfl⟩

/-! ## Cursors stay inside the log -/

theorem CursorsLe.channel (capacity : Nat) :
    (Broadcast.channel capacity : Broadcast ρ α).CursorsLe := by
  intro r n h
  simp [Broadcast.channel] at h

theorem CursorsLe.subscribe {b : Broadcast ρ α} (hb : b.CursorsLe) (r : ρ) :
    (b.subscribe r).CursorsLe := by
  intro q n h
  by_cases hq : q = r
  · subst hq
    simp only [Broadcast.subscribe, AList.lookup_insert, Option.some.injEq] at h
    exact h ▸ Nat.le_refl _
  · simp only [Broadcast.subscribe, AList.lookup_insert_ne hq] at h
    exact hb q n h

theorem CursorsLe.drop {b : Broadcast ρ α} (hb : b.CursorsLe) (r : ρ) : (b.drop r).CursorsLe := by
  intro q n h
  by_cases hq : q = r
  · subst hq
    simp [Broadcast.drop] at h
  · simp only [Broadcast.drop, AList.lookup_erase_ne hq] at h
    exact hb q n h

theorem CursorsLe.send {b : Broadcast ρ α} (hb : b.CursorsLe) (v : α) : (b.send v).CursorsLe := by
  intro q n h
  rw [cursors_send] at h
  have hle := hb q n h
  unfold Broadcast.send
  split
  · exact hle
  · simp only [List.length_append]
    omega

theorem CursorsLe.recv {b : Broadcast ρ α} (hb : b.CursorsLe) (r : ρ) : (b.recv r).2.CursorsLe := by
  -- moving one cursor inside the log
  have hmove : ∀ m, m ≤ b.log.length → CursorsLe { b with cursors := b.cursors.insert r m } := by
    intro m hm q n h
    by_cases hq : q = r
    · subst hq
      simp only [AList.lookup_insert, Option.some.injEq] at h
      exact h ▸ hm
    · simp only [AList.lookup_insert_ne hq] at h
      exact hb q n h
  unfold Broadcast.recv
  cases hr : b.cursors.lookup r with
  | none => exact hb
  | some n =>
    dsimp only
    split
    · exact hmove _ (Nat.sub_le _ _)
    · split
      · next v hv =>
        have hlt : n < b.log.length := by
          by_contra hge
          rw [List.getElem?_eq_none (by omega)] at hv
          simp at hv
        exact hmove _ hlt
      · exact hb

end Broadcast
