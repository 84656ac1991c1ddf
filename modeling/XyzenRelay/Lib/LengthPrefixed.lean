-- SUMMARY: Chunk lists stored as a fixed-width length followed by the chunk, for any reading of the length, and their round trip.
import Mathlib.Data.List.Basic

/-!
# Length-prefixed chunks

A chunk list is stored as the concatenation of its chunks, each behind its length
in a field of fixed width. Parsing stops at the first field that is cut short, or
that promises more than is left.
-/

/-- A way to write and read a length in a field of fixed width. -/
structure LengthPrefix (α : Type) where
  width : Nat
  write : Nat → List α
  read : List α → Nat
  /-- The lengths below `bound` survive. -/
  bound : Nat
  width_pos : 0 < width
  length_write : ∀ n, (write n).length = width
  read_write : ∀ n, n < bound → read (write n) = n

namespace LengthPrefix

variable {α : Type} (p : LengthPrefix α)

def encode (chunks : List (List α)) : List α :=
  chunks.flatMap fun chunk => p.write chunk.length ++ chunk

/-- Parse at most `fuel` chunks. -/
def parseFrom : Nat → List α → List (List α)
  | 0, _ => []
  | fuel + 1, buf =>
    if buf.length < p.width then []
    else
      let n := p.read (buf.take p.width)
      let body := buf.drop p.width
      if body.length < n then [] else body.take n :: parseFrom fuel (body.drop n)

/-- Parse the whole buffer: every chunk takes at least its length field. -/
def parse (buf : List α) : List (List α) := p.parseFrom buf.length buf

@[simp] theorem encode_nil : p.encode [] = [] := rfl

theorem encode_cons (chunk : List α) (chunks : List (List α)) :
    p.encode (chunk :: chunks) = p.write chunk.length ++ (chunk ++ p.encode chunks) := by
  simp [encode]

/-- Every chunk takes room in the buffer. -/
theorem length_le_encode (chunks : List (List α)) : chunks.length ≤ (p.encode chunks).length := by
  induction chunks with
  | nil => simp
  | cons chunk chunks ih =>
    have hwidth := p.width_pos
    simp only [encode_cons, List.length_append, p.length_write, List.length_cons]
    omega

/-- No further chunk can be read: the field is cut short, or promises more than is left. -/
def Stuck (rest : List α) : Prop :=
  rest.length < p.width ∨ (rest.drop p.width).length < p.read (rest.take p.width)

theorem stuck_nil : p.Stuck [] := .inl p.width_pos

theorem parseFrom_stuck {rest : List α} (h : p.Stuck rest) (fuel : Nat) :
    p.parseFrom fuel rest = [] := by
  cases fuel with
  | zero => rfl
  | succ fuel =>
    rw [parseFrom]
    by_cases hshort : rest.length < p.width
    · rw [if_pos hshort]
    · rw [if_neg hshort]
      exact if_pos (h.resolve_left hshort)

/-- Encoded chunks in front of a rest that gives no chunk are what is parsed. -/
theorem parseFrom_encode_append {chunks : List (List α)} {rest : List α}
    (hbound : ∀ chunk ∈ chunks, chunk.length < p.bound) (hrest : p.Stuck rest)
    {fuel : Nat} (hfuel : chunks.length ≤ fuel) :
    p.parseFrom fuel (p.encode chunks ++ rest) = chunks := by
  induction chunks generalizing fuel with
  | nil => exact p.parseFrom_stuck hrest fuel
  | cons chunk chunks ih =>
    obtain ⟨fuel, rfl⟩ : ∃ k, fuel = k + 1 :=
      ⟨fuel - 1, by simp only [List.length_cons] at hfuel; omega⟩
    have hwidth := p.length_write chunk.length
    have hread : p.read (p.write chunk.length) = chunk.length :=
      p.read_write _ (hbound chunk List.mem_cons_self)
    have hbytes : p.encode (chunk :: chunks) ++ rest =
        p.write chunk.length ++ (chunk ++ (p.encode chunks ++ rest)) := by
      rw [encode_cons, List.append_assoc, List.append_assoc]
    have htake : (p.encode (chunk :: chunks) ++ rest).take p.width = p.write chunk.length := by
      rw [hbytes, ← hwidth, List.take_left]
    have hdrop : (p.encode (chunk :: chunks) ++ rest).drop p.width =
        chunk ++ (p.encode chunks ++ rest) := by
      rw [hbytes, ← hwidth, List.drop_left]
    have hlong : ¬ (p.encode (chunk :: chunks) ++ rest).length < p.width := by
      rw [hbytes, List.length_append, hwidth]
      omega
    have hlater :=
      ih (fun c hc => hbound c (List.mem_cons_of_mem _ hc)) (Nat.le_of_succ_le_succ hfuel)
    simp only [parseFrom, hlong, if_false, htake, hdrop, hread]
    simp [hlater]

theorem parseFrom_encode {chunks : List (List α)}
    (hbound : ∀ chunk ∈ chunks, chunk.length < p.bound)
    {fuel : Nat} (hfuel : chunks.length ≤ fuel) : p.parseFrom fuel (p.encode chunks) = chunks := by
  have happ := p.parseFrom_encode_append hbound p.stuck_nil hfuel
  rwa [List.append_nil] at happ

/-- Parsing what was encoded gives the chunks back. -/
theorem parse_encode {chunks : List (List α)} (hbound : ∀ chunk ∈ chunks, chunk.length < p.bound) :
    p.parse (p.encode chunks) = chunks :=
  p.parseFrom_encode hbound (p.length_le_encode chunks)

/-! ## Arbitrary buffers -/

/-- Every field of the width is the writing of a length below the bound. -/
structure Faithful : Prop where
  read_lt : ∀ field : List α, field.length = p.width → p.read field < p.bound
  write_read : ∀ field : List α, field.length = p.width → p.write (p.read field) = field

/-- With fuel for the whole buffer, the parse takes it apart and stops where no
    further chunk can be read. -/
theorem parseFrom_exact (hp : p.Faithful) {fuel : Nat} {buf : List α} (hfuel : buf.length ≤ fuel) :
    (∀ chunk ∈ p.parseFrom fuel buf, chunk.length < p.bound) ∧
    ∃ rest, buf = p.encode (p.parseFrom fuel buf) ++ rest ∧ p.Stuck rest := by
  induction fuel generalizing buf with
  | zero =>
    obtain rfl : buf = [] := List.length_eq_zero_iff.mp (Nat.le_zero.mp hfuel)
    exact ⟨by simp [parseFrom], [], rfl, p.stuck_nil⟩
  | succ fuel ih =>
    have hwidth := p.width_pos
    rw [parseFrom]
    by_cases hshort : buf.length < p.width
    · rw [if_pos hshort]
      exact ⟨by simp, buf, rfl, .inl hshort⟩
    · by_cases hbody : (buf.drop p.width).length < p.read (buf.take p.width)
      · simp only [hshort, hbody, if_false, if_true]
        exact ⟨by simp, buf, rfl, .inr hbody⟩
      · have hfield : (buf.take p.width).length = p.width :=
          List.length_take_of_le (Nat.le_of_not_lt hshort)
        have hchunk : ((buf.drop p.width).take (p.read (buf.take p.width))).length =
            p.read (buf.take p.width) := List.length_take_of_le (Nat.le_of_not_lt hbody)
        obtain ⟨hbound, rest, hrest, hstuck⟩ :=
          @ih ((buf.drop p.width).drop (p.read (buf.take p.width))) (by
            simp only [List.length_drop]
            omega)
        simp only [hshort, hbody, if_false]
        refine ⟨List.forall_mem_cons.mpr ⟨?_, hbound⟩, rest, ?_, hstuck⟩
        · rw [hchunk]
          exact hp.read_lt _ hfield
        · rw [encode_cons, hchunk, hp.write_read _ hfield, List.append_assoc, List.append_assoc,
            ← hrest, List.take_append_drop, List.take_append_drop]

/-- Every buffer is in one way the encoding of chunks with a rest that gives no chunk;
    the chunks are those of the parse. -/
theorem parse_exact (hp : p.Faithful) (buf : List α) :
    (∀ chunk ∈ p.parse buf, chunk.length < p.bound) ∧
    ∃ rest, buf = p.encode (p.parse buf) ++ rest ∧ p.Stuck rest :=
  p.parseFrom_exact hp (Nat.le_refl _)

theorem parse_unique {buf rest : List α} {chunks : List (List α)}
    (hbound : ∀ chunk ∈ chunks, chunk.length < p.bound) (hrest : p.Stuck rest)
    (hbuf : buf = p.encode chunks ++ rest) : p.parse buf = chunks := by
  have hfuel : chunks.length ≤ buf.length := by
    have hroom := p.length_le_encode chunks
    rw [hbuf, List.length_append]
    omega
  have hparse := p.parseFrom_encode_append hbound hrest hfuel
  rwa [← hbuf] at hparse

end LengthPrefix
