-- SUMMARY: Resumable decoders over a growing buffer, and the rule that makes their output independent of how the input is cut.
import Mathlib.Data.List.Basic

/-!
# Stream decoders

A stream decoder keeps a state and a buffer. Bytes are appended to the buffer
as they arrive, and the decoder is then called until it asks for more. A call
either yields an item, fails, or asks for more input, and it may consume part of
the buffer in each of the three cases.

`Resumable` says that a call does not look past what it needs: its answer
survives any bytes appended later. For such a decoder the chunks do not matter
(`Resumable.feed_eq_drain`).
-/

/-- A decoder with the measure that bounds how many items a buffer can yield. -/
structure StreamDecoder (σ ι ε α : Type) where
  decode : σ → List α → Except ε (Option ι) × σ × List α
  size : σ → List α → Nat
  progress : ∀ {s buf x s' buf'}, decode s buf = (.ok (some x), s', buf') →
    size s' buf' < size s buf

namespace StreamDecoder

variable {σ ι ε α : Type} (D : StreamDecoder σ ι ε α)

/-- What a sequence of calls leaves behind: the items it yielded, the error that
    stopped it, if any, and the state and buffer at that point. -/
structure Outcome (σ ι ε α : Type) where
  items : List ι
  error : Option ε
  state : σ
  buf : List α

namespace Outcome

/-- The outcome with one more item in front. -/
def cons (x : ι) (o : Outcome σ ι ε α) : Outcome σ ι ε α := { o with items := x :: o.items }

/-- The outcome with earlier items in front. -/
def prepend (xs : List ι) (o : Outcome σ ι ε α) : Outcome σ ι ε α :=
  { o with items := xs ++ o.items }

end Outcome

/-- Call the decoder until it asks for more input or fails. -/
def drain (s : σ) (buf : List α) : Outcome σ ι ε α :=
  match _h : D.decode s buf with
  | (.ok (some x), s', buf') => (drain s' buf').cons x
  | (.ok none, s', buf') => ⟨[], none, s', buf'⟩
  | (.error e, s', buf') => ⟨[], some e, s', buf'⟩
termination_by D.size s buf
decreasing_by exact D.progress _h

/-- Append each chunk to the buffer and drain it. After an error the remaining
    bytes still arrive, but nothing is decoded. -/
def feed (s : σ) (buf : List α) : List (List α) → Outcome σ ι ε α
  | [] => ⟨[], none, s, buf⟩
  | c :: cs =>
    match D.drain s (buf ++ c) with
    | ⟨xs, none, s', buf'⟩ => (feed s' buf' cs).prepend xs
    | ⟨xs, some e, s', buf'⟩ => ⟨xs, some e, s', buf' ++ cs.flatten⟩

variable {D}

theorem drain_item {s s' : σ} {buf buf' : List α} {x : ι}
    (h : D.decode s buf = (.ok (some x), s', buf')) :
    D.drain s buf = (D.drain s' buf').cons x := by
  rw [drain]
  split <;> simp_all

theorem drain_more {s s' : σ} {buf buf' : List α} (h : D.decode s buf = (.ok none, s', buf')) :
    D.drain s buf = ⟨[], none, s', buf'⟩ := by
  rw [drain]
  split <;> simp_all

theorem drain_error {s s' : σ} {buf buf' : List α} {e : ε}
    (h : D.decode s buf = (.error e, s', buf')) :
    D.drain s buf = ⟨[], some e, s', buf'⟩ := by
  rw [drain]
  split <;> simp_all

/-- Calls with equal answers drain to equal outcomes. -/
theorem drain_congr {s t : σ} {buf cuf : List α} (h : D.decode s buf = D.decode t cuf) :
    D.drain s buf = D.drain t cuf := by
  rcases hd : D.decode t cuf with ⟨r, t', cuf'⟩
  rw [hd] at h
  match r with
  | .ok (some x) => rw [drain_item h, drain_item hd]
  | .ok none => rw [drain_more h, drain_more hd]
  | .error e => rw [drain_error h, drain_error hd]

/-! ## Chunk independence -/

variable (D) in
/-- In the states of `P`, which the decoder never leaves, the answer of a call
    survives any bytes appended later, and a call that asks for more can be
    resumed where it stopped. -/
structure Resumable (P : σ → Prop) : Prop where
  stays : ∀ {s buf r s' buf'}, P s → D.decode s buf = (r, s', buf') → P s'
  item : ∀ {s buf x s' buf'}, P s → D.decode s buf = (.ok (some x), s', buf') →
    ∀ ext, D.decode s (buf ++ ext) = (.ok (some x), s', buf' ++ ext)
  more : ∀ {s buf s' buf'}, P s → D.decode s buf = (.ok none, s', buf') →
    ∀ ext, D.decode s (buf ++ ext) = D.decode s' (buf' ++ ext)
  error : ∀ {s buf e s' buf'}, P s → D.decode s buf = (.error e, s', buf') →
    ∀ ext, D.decode s (buf ++ ext) = (.error e, s', buf' ++ ext)

/-- The decoder has nothing to do on this buffer until more input arrives. -/
def Waiting (D : StreamDecoder σ ι ε α) (s : σ) (buf : List α) : Prop :=
  D.decode s buf = (.ok none, s, buf)

namespace Resumable

variable {P : σ → Prop} (hD : D.Resumable P)
include hD

/-- Draining a buffer and then the rest is draining both at once. -/
theorem drain_append {s : σ} (hs : P s) (buf ext : List α) :
    D.drain s (buf ++ ext) =
      match D.drain s buf with
      | ⟨xs, none, s', buf'⟩ => (D.drain s' (buf' ++ ext)).prepend xs
      | ⟨xs, some e, s', buf'⟩ => ⟨xs, some e, s', buf' ++ ext⟩ := by
  induction s, buf using StreamDecoder.drain.induct D with
  | case1 s buf x s' buf' h ih =>
    rw [drain_item h, drain_item (hD.item hs h ext), ih (hD.stays hs h)]
    rcases D.drain s' buf' with ⟨xs, _ | e, t, cuf⟩ <;> rfl
  | case2 s buf s' buf' h =>
    rw [drain_more h]
    exact drain_congr (hD.more hs h ext)
  | case3 s buf e s' buf' h => rw [drain_error h, drain_error (hD.error hs h ext)]

/-- A drain without an error ends in `P`, with the decoder waiting. -/
theorem waiting_drain {s s' : σ} {buf buf' : List α} {xs : List ι} (hs : P s)
    (h : D.drain s buf = ⟨xs, none, s', buf'⟩) : P s' ∧ D.Waiting s' buf' := by
  induction s, buf using StreamDecoder.drain.induct D generalizing xs with
  | case1 s buf x t cuf hd ih =>
    rw [drain_item hd] at h
    rcases ho : D.drain t cuf with ⟨ys, e, u, duf⟩
    rw [ho] at h
    simp only [Outcome.cons, Outcome.mk.injEq] at h
    obtain ⟨-, rfl, rfl, rfl⟩ := h
    exact ih (hD.stays hs hd) ho
  | case2 s buf t cuf hd =>
    rw [drain_more hd, Outcome.mk.injEq] at h
    obtain ⟨-, -, rfl, rfl⟩ := h
    have hresume := hD.more hs hd []
    simp only [List.append_nil] at hresume
    exact ⟨hD.stays hs hd, hresume.symm.trans hd⟩
  | case3 s buf e t cuf hd =>
    rw [drain_error hd, Outcome.mk.injEq] at h
    exact absurd h.2.1 (by simp)

/-- However the input is cut, a waiting decoder does with the chunks what it does
    with their concatenation. -/
theorem feed_eq_drain {s : σ} {buf : List α} (hs : P s) (hw : D.Waiting s buf)
    (chunks : List (List α)) :
    D.feed s buf chunks = D.drain s (buf ++ chunks.flatten) := by
  induction chunks generalizing s buf with
  | nil =>
    rw [List.flatten_nil, List.append_nil, drain_more hw]
    rfl
  | cons c cs ih =>
    have hsplit := hD.drain_append hs (buf ++ c) cs.flatten
    rw [List.append_assoc] at hsplit
    rw [List.flatten_cons, hsplit, feed]
    rcases ho : D.drain s (buf ++ c) with ⟨xs, _ | e, s', buf'⟩
    · obtain ⟨hs', hw'⟩ := hD.waiting_drain hs ho
      simp only
      rw [ih hs' hw']
    · rfl

end Resumable

end StreamDecoder
