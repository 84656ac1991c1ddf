-- SUMMARY: The format of a framed stream as a parse of the whole string, and the decoder as an exact implementation of it on arbitrary bytes.
import XyzenRelay.Proto.RoundTrip

/-!
# The reference parse

`reference` reads a string the way the format is described: a header whose first
byte tells its length, and the payload it announces, over and over. It knows
nothing of states and buffers. `drain_reference` says that the codec computes this
parse, and where its state and buffer stand when it stops.
-/

namespace XyzenRelay.Proto

open Endian RustDeskCodec

/-- A frame of the parse: the header it was read from, and its payload. -/
structure Piece where
  head : Bytes
  payload : Bytes
  deriving DecidableEq, Repr

def Piece.bytes (f : Piece) : Bytes := f.head ++ f.payload

/-- Why a parse goes no further: the header is cut short, or the payload is, or the
    header announces more than the limit. -/
inductive Stop where
  | header (rest : Bytes)
  | payload (head : Bytes) (n : Nat) (rest : Bytes)
  | oversize (rest : Bytes)
  deriving DecidableEq, Repr

structure Parse where
  frames : List Piece
  stop : Stop
  deriving DecidableEq, Repr

namespace Stop

def failed : Stop → Bool
  | .oversize _ => true
  | _ => false

/-- What the parse did not turn into frames. -/
def bytes : Stop → Bytes
  | .header rest => rest
  | .payload head _ rest => head ++ rest
  | .oversize rest => rest

/-- The state the codec stops in. -/
def state : Stop → State
  | .payload _ n _ => .body n
  | _ => .head

/-- The buffer the codec stops with: only a complete header has been removed. -/
def buffer : Stop → Bytes
  | .header rest => rest
  | .payload _ _ rest => rest
  | .oversize rest => rest

def error : Stop → Option IoError
  | .oversize _ => some frameTooLong
  | _ => none

theorem isSome_error (t : Stop) : t.error.isSome = t.failed := by
  cases t <;> rfl

end Stop

namespace Parse

def cons (f : Piece) (p : Parse) : Parse := { p with frames := f :: p.frames }

def failed (p : Parse) : Bool := p.stop.failed

def payloads (p : Parse) : List Bytes := p.frames.map Piece.payload

end Parse

/-- Take the first byte, read the header whose length its low two bits give, and
    then the payload whose length the header gives; fail if that is over the limit. -/
def reference : Bytes → Parse
  | [] => ⟨[], .header []⟩
  | b0 :: tail =>
    let s := b0 :: tail
    let h := b0.toNat % 4 + 1
    if s.length < h then ⟨[], .header s⟩
    else
      let n := leNat (s.take h) / 4
      if n > MAX_PACKET then ⟨[], .oversize s⟩
      else if (s.drop h).length < n then ⟨[], .payload (s.take h) n (s.drop h)⟩
      else (reference ((s.drop h).drop n)).cons ⟨s.take h, (s.drop h).take n⟩
termination_by s => s.length
decreasing_by
  simp only [List.length_drop, List.length_cons]
  omega

/-! ## What the frames of a parse are -/

/-- A header of the format: its length is the one its first byte gives. -/
structure IsHead (head : Bytes) (n : Nat) : Prop where
  length : ∃ b0 tail, head = b0 :: tail ∧ head.length = b0.toNat % 4 + 1
  value : leNat head / 4 = n

namespace IsHead

variable {head : Bytes} {n : Nat}

theorem ne_nil (h : IsHead head n) : head ≠ [] := by
  obtain ⟨b0, tail, hhead, -⟩ := h.length
  simp [hhead]

theorem length_le (h : IsHead head n) : head.length ≤ 4 := by
  obtain ⟨b0, tail, -, hlen⟩ := h.length
  omega

/-- The leading bytes of a string that is long enough are a header. -/
theorem of_take {b0 : UInt8} {tail : Bytes} (hlen : b0.toNat % 4 + 1 ≤ (b0 :: tail).length) :
    IsHead ((b0 :: tail).take (b0.toNat % 4 + 1))
      (leNat ((b0 :: tail).take (b0.toNat % 4 + 1)) / 4) where
  length := by
    refine ⟨b0, tail.take (b0.toNat % 4), rfl, ?_⟩
    rw [List.length_take]
    omega
  value := rfl

/-- No header is shorter than the one the encoder writes for the same length. -/
theorem headLenOf_le_length (h : IsHead head n) : headLenOf n ≤ head.length := by
  obtain ⟨b0, tail, hhead, hlen⟩ := h.length
  have hpos : 1 ≤ head.length := by omega
  have hle := h.length_le
  have hvalue := h.value
  have hlt := leNat_lt head
  unfold headLenOf
  split_ifs with h1 h2 h3
  · exact hpos
  · rcases Nat.lt_or_ge head.length 2 with hshort | hlong
    · have hone : head.length = 1 := by omega
      rw [hone] at hlt
      omega
    · exact hlong
  · rcases Nat.lt_or_ge head.length 3 with hshort | hlong
    · have hpow : 256 ^ head.length ≤ 256 ^ 2 := Nat.pow_le_pow_right (by decide) (by omega)
      omega
    · exact hlong
  · rcases Nat.lt_or_ge head.length 4 with hshort | hlong
    · have hpow : 256 ^ head.length ≤ 256 ^ 3 := Nat.pow_le_pow_right (by decide) (by omega)
      omega
    · exact hlong

end IsHead

/-- A frame as the format describes it. -/
def Piece.WellFormed (f : Piece) : Prop :=
  IsHead f.head f.payload.length ∧ f.payload.length ≤ MAX_PACKET

/-- A string that stops inside a header. -/
def CutHead : Bytes → Prop
  | [] => True
  | b0 :: tail => (b0 :: tail).length < b0.toNat % 4 + 1

theorem cutHead_or_head (s : Bytes) :
    CutHead s ∨ ∃ head n rest, IsHead head n ∧ s = head ++ rest := by
  cases s with
  | nil => exact .inl trivial
  | cons b0 tail =>
    rcases Nat.lt_or_ge (b0 :: tail).length (b0.toNat % 4 + 1) with hlen | hlen
    · exact .inl hlen
    · exact .inr ⟨_, _, _, .of_take hlen, (List.take_append_drop _ _).symm⟩

/-! ## The parse, case by case -/

theorem reference_cutHead {s : Bytes} (hs : CutHead s) : reference s = ⟨[], .header s⟩ := by
  cases s with
  | nil => rw [reference]
  | cons b0 tail =>
    rw [reference]
    exact if_pos hs

/-- Behind a complete header. -/
theorem reference_head {head : Bytes} {n : Nat} (hhead : IsHead head n) (rest : Bytes) :
    reference (head ++ rest) =
      if n > MAX_PACKET then ⟨[], .oversize (head ++ rest)⟩
      else if rest.length < n then ⟨[], .payload head n rest⟩
      else (reference (rest.drop n)).cons ⟨head, rest.take n⟩ := by
  obtain ⟨b0, tail, rfl, hlen⟩ := hhead.length
  have hlong : ¬ (b0 :: (tail ++ rest)).length < b0.toNat % 4 + 1 := by
    simp only [List.length_cons, List.length_append] at hlen ⊢
    omega
  have htake : (b0 :: (tail ++ rest)).take (b0.toNat % 4 + 1) = b0 :: tail := by
    rw [← hlen, ← List.cons_append, List.take_left]
  have hdrop : (b0 :: (tail ++ rest)).drop (b0.toNat % 4 + 1) = rest := by
    rw [← hlen, ← List.cons_append, List.drop_left]
  rw [List.cons_append, reference]
  simp only [hlong, if_false, htake, hdrop, hhead.value]

theorem reference_oversize {head : Bytes} {n : Nat} (hhead : IsHead head n)
    (hmax : n > MAX_PACKET) (rest : Bytes) :
    reference (head ++ rest) = ⟨[], .oversize (head ++ rest)⟩ := by
  rw [reference_head hhead, if_pos hmax]

theorem reference_payload {head rest : Bytes} {n : Nat} (hhead : IsHead head n)
    (hmax : n ≤ MAX_PACKET) (hrest : rest.length < n) :
    reference (head ++ rest) = ⟨[], .payload head n rest⟩ := by
  rw [reference_head hhead, if_neg (by omega), if_pos hrest]

theorem reference_frame {f : Piece} (hf : f.WellFormed) (rest : Bytes) :
    reference (f.bytes ++ rest) = (reference rest).cons f := by
  have hfits : ¬ (f.payload ++ rest).length < f.payload.length := by
    rw [List.length_append]
    omega
  rw [Piece.bytes, List.append_assoc, reference_head hf.1, if_neg (Nat.not_lt.mpr hf.2),
    if_neg hfits, List.drop_left, List.take_left]

/-- A string is taken apart frame by frame: what holds of the strings a parse stops
    at, and of a frame with what follows it, holds of every string. -/
theorem stream_induction {P : Bytes → Prop} (cut : ∀ s, CutHead s → P s)
    (oversize : ∀ head n rest, IsHead head n → n > MAX_PACKET → P (head ++ rest))
    (truncated : ∀ head n rest, IsHead head n → n ≤ MAX_PACKET → rest.length < n →
      P (head ++ rest))
    (frame : ∀ f rest, Piece.WellFormed f → P rest → P (f.bytes ++ rest)) (s : Bytes) : P s := by
  induction hlen : s.length using Nat.strongRecOn generalizing s with
  | ind len ih =>
    rcases cutHead_or_head s with hcut | ⟨head, n, rest, hhead, rfl⟩
    · exact cut s hcut
    · rcases Nat.lt_or_ge MAX_PACKET n with hmax | hmax
      · exact oversize head n rest hhead hmax
      · rcases Nat.lt_or_ge rest.length n with hrest | hrest
        · exact truncated head n rest hhead hmax hrest
        · have hpayload : (rest.take n).length = n := List.length_take_of_le hrest
          have hwf : Piece.WellFormed ⟨head, rest.take n⟩ := by
            rw [Piece.WellFormed, hpayload]
            exact ⟨hhead, hmax⟩
          have hpos := List.length_pos_iff.mpr hhead.ne_nil
          have hsmaller : (rest.drop n).length < len := by
            simp only [List.length_append, List.length_drop] at hlen ⊢
            omega
          have happ := frame ⟨head, rest.take n⟩ (rest.drop n) hwf (ih _ hsmaller _ rfl)
          rw [Piece.bytes, List.append_assoc, List.take_append_drop] at happ
          exact happ

theorem reference_wellFormed (s : Bytes) : ∀ f ∈ (reference s).frames, f.WellFormed := by
  induction s using stream_induction with
  | cut s hcut => simp [reference_cutHead hcut]
  | oversize head n rest hhead hmax => simp [reference_oversize hhead hmax]
  | truncated head n rest hhead hmax hrest => simp [reference_payload hhead hmax hrest]
  | frame f rest hf ih =>
    rw [reference_frame hf]
    exact List.forall_mem_cons.mpr ⟨hf, ih⟩

/-- The parse takes the string apart: the frames, and what it stopped at. -/
theorem reference_bytes (s : Bytes) :
    (reference s).frames.flatMap Piece.bytes ++ (reference s).stop.bytes = s := by
  induction s using stream_induction with
  | cut s hcut => simp [reference_cutHead hcut, Stop.bytes]
  | oversize head n rest hhead hmax => simp [reference_oversize hhead hmax, Stop.bytes]
  | truncated head n rest hhead hmax hrest =>
    simp [reference_payload hhead hmax hrest, Stop.bytes]
  | frame f rest hf ih =>
    simp only [reference_frame hf, Parse.cons, List.flatMap_cons, List.append_assoc, ih]

/-! ## The decoder computes the parse -/

namespace RustDeskCodec

theorem decode_cutHead {c : RustDeskCodec} (hraw : c.raw = false) (hstate : c.state = .head)
    {s : Bytes} (hs : CutHead s) : decode c s = (.ok none, c, s) := by
  cases s with
  | nil => exact decode_nil hraw hstate
  | cons b0 tail =>
    have hlen : (b0 :: tail).length < headLen b0 := by
      rw [headLen_eq]
      exact hs
    exact decode_short hraw hstate hlen

/-- On any header of the format, canonical or not. -/
theorem decode_isHead {c : RustDeskCodec} {head : Bytes} {n : Nat} (hraw : c.raw = false)
    (hstate : c.state = .head) (hhead : IsHead head n) (rest : Bytes) :
    decode c (head ++ rest) =
      if n > c.max then (.error frameTooLong, c, head ++ rest) else decodeBody c n rest := by
  obtain ⟨b0, tail, rfl, hlen⟩ := hhead.length
  rw [← headLen_eq] at hlen
  have hlong : headLen b0 ≤ (b0 :: (tail ++ rest)).length := by
    rw [← hlen, ← List.cons_append, List.length_append]
    omega
  have htake : (b0 :: (tail ++ rest)).take (headLen b0) = b0 :: tail := by
    rw [← hlen, ← List.cons_append, List.take_left]
  have hdrop : (b0 :: (tail ++ rest)).drop (headLen b0) = rest := by
    rw [← hlen, ← List.cons_append, List.drop_left]
  rw [List.cons_append, decode_head hraw hstate hlong, htake, hdrop, hhead.value]

/-- Any frame of the format is accepted, and nothing behind it is looked at. -/
theorem decode_piece {c : RustDeskCodec} (hraw : c.raw = false) (hstate : c.state = .head)
    (hmax : c.max = MAX_PACKET) {f : Piece} (hf : f.WellFormed) (rest : Bytes) :
    decode c (f.bytes ++ rest) = (.ok (some f.payload), c, rest) := by
  have hfits : ¬ (f.payload ++ rest).length < f.payload.length := by
    rw [List.length_append]
    omega
  have hover : ¬ f.payload.length > c.max := by
    rw [hmax]
    exact Nat.not_lt.mpr hf.2
  rw [Piece.bytes, List.append_assoc, decode_isHead hraw hstate hf.1, if_neg hover, decodeBody,
    if_neg hfits, List.take_left, List.drop_left]
  cases c
  simp_all

/-- Draining a string yields its parse, and leaves the codec where the parse stops. -/
theorem drain_reference (s : Bytes) :
    decoder.drain new s =
      ⟨(reference s).payloads, (reference s).stop.error,
        { new with state := (reference s).stop.state }, (reference s).stop.buffer⟩ := by
  induction s using stream_induction with
  | cut s hcut =>
    rw [reference_cutHead hcut]
    exact StreamDecoder.drain_more (decode_cutHead (c := new) rfl rfl hcut)
  | oversize head n rest hhead hmax =>
    have hover : n > new.max := hmax
    have hdec := decode_isHead (c := new) rfl rfl hhead rest
    rw [if_pos hover] at hdec
    rw [reference_oversize hhead hmax]
    exact StreamDecoder.drain_error hdec
  | truncated head n rest hhead hmax hrest =>
    have hover : ¬ n > new.max := Nat.not_lt.mpr hmax
    have hdec := decode_isHead (c := new) rfl rfl hhead rest
    rw [if_neg hover, decodeBody, if_pos hrest] at hdec
    rw [reference_payload hhead hmax hrest]
    exact StreamDecoder.drain_more hdec
  | frame f rest hf ih =>
    rw [StreamDecoder.drain_item (decode_piece (c := new) rfl rfl rfl hf rest), ih,
      reference_frame hf]
    rfl

theorem waiting_new : StreamDecoder.Waiting decoder new [] := decode_nil (c := new) rfl rfl

/-- So does feeding it in any chunks. -/
theorem feed_reference (chunks : List Bytes) :
    decoder.feed new [] chunks =
      ⟨(reference chunks.flatten).payloads, (reference chunks.flatten).stop.error,
        { new with state := (reference chunks.flatten).stop.state },
        (reference chunks.flatten).stop.buffer⟩ := by
  rw [decoder_resumable.feed_eq_drain rfl waiting_new, List.nil_append, drain_reference]

/-! ## Encoding a parsed frame again -/

/-- The header the encoder writes for a payload. -/
def frameHead (p : Bytes) : Bytes :=
  headerBytes (header p.length (headLenOf p.length)) (headLenOf p.length)

theorem frame_eq_head_append (p : Bytes) : frame p = frameHead p ++ p := rfl

@[simp] theorem length_frameHead (p : Bytes) : (frameHead p).length = headLenOf p.length := by
  simp [frameHead, headerBytes]

/-- Encoding the payload of a parsed frame writes a header no longer than the one it
    was read from, and what is written decodes to the same payload. -/
theorem encode_piece {f : Piece} (hf : f.WellFormed) :
    (encode new f.payload []).1 = .ok () ∧
    (encode new f.payload []).2 = frameHead f.payload ++ f.payload ∧
    (frameHead f.payload).length ≤ f.head.length ∧
    decode new (frameHead f.payload ++ f.payload) = (.ok (some f.payload), new, []) := by
  have henc := encode_frame (c := new) rfl hf.2 []
  have hsmall : f.payload.length < 2 ^ 30 := Nat.lt_of_le_of_lt hf.2 (by decide)
  have hdec := decode_frame (c := new) rfl rfl hf.2 hsmall []
  rw [List.append_nil] at hdec
  refine ⟨by rw [henc], by rw [henc]; rfl, ?_, hdec⟩
  rw [length_frameHead]
  exact hf.1.headLenOf_le_length

/-! ## After an oversize header -/

/-- The answers of a decoder that is called once after each of the chunks. -/
def answers (c : RustDeskCodec) (buf : Bytes) : List Bytes → List (Except IoError (Option Bytes))
  | [] => []
  | chunk :: chunks =>
    match decode c (buf ++ chunk) with
    | (r, c', buf') => r :: answers c' buf' chunks

/-- A call that fails leaves everything as it was, and fails again after any bytes. -/
theorem answers_of_error {c : RustDeskCodec} {buf : Bytes} {e : IoError} (hraw : c.raw = false)
    (h : decode c buf = (.error e, c, buf)) (chunks : List Bytes) :
    answers c buf chunks = List.replicate chunks.length (.error e) := by
  induction chunks generalizing buf with
  | nil => rfl
  | cons chunk chunks ih =>
    have hlater := decoder_resumable.error hraw h chunk
    rw [answers, show decode c (buf ++ chunk) = _ from hlater, List.length_cons,
      List.replicate_succ]
    simp only
    rw [ih hlater]

theorem decode_oversize {s : Bytes} (hfail : (reference s).failed = true) :
    decode new (reference s).stop.buffer =
      (.error frameTooLong, new, (reference s).stop.buffer) := by
  induction s using stream_induction with
  | cut s hcut => simp [reference_cutHead hcut, Parse.failed, Stop.failed] at hfail
  | oversize head n rest hhead hmax =>
    have hover : n > new.max := hmax
    rw [reference_oversize hhead hmax, Stop.buffer, decode_isHead (c := new) rfl rfl hhead rest,
      if_pos hover]
  | truncated head n rest hhead hmax hrest =>
    simp [reference_payload hhead hmax hrest, Parse.failed, Stop.failed] at hfail
  | frame f rest hf ih =>
    rw [reference_frame hf] at hfail ⊢
    exact ih hfail

end RustDeskCodec

open RustDeskCodec

/-- The codec on arbitrary bytes, in any chunks: its frames and its failure are those
    of the reference parse; every frame of the format, whatever its header, is accepted;
    a parsed frame is encoded again in no more bytes, which decode to it; and where the
    parse fails, the codec is in the `Head` state with the oversize header and all
    behind it still buffered, and every later call returns the same error. -/
theorem feed_exact (chunks : List Bytes) :
    (decoder.feed new [] chunks).items = (reference chunks.flatten).payloads ∧
    (decoder.feed new [] chunks).error.isSome = (reference chunks.flatten).failed ∧
    (∀ f : Piece, f.WellFormed → ∀ rest, decode new (f.bytes ++ rest) =
      (.ok (some f.payload), new, rest)) ∧
    (∀ f ∈ (reference chunks.flatten).frames, ∃ head,
      encode new f.payload [] = (.ok (), head ++ f.payload) ∧ head.length ≤ f.head.length ∧
      decode new (head ++ f.payload) = (.ok (some f.payload), new, [])) ∧
    ((reference chunks.flatten).failed = true →
      (decoder.feed new [] chunks).state.state = .head ∧
      (reference chunks.flatten).frames.flatMap Piece.bytes ++ (decoder.feed new [] chunks).buf =
        chunks.flatten ∧
      ∀ later : List Bytes,
        answers (decoder.feed new [] chunks).state (decoder.feed new [] chunks).buf later =
          List.replicate later.length (.error frameTooLong)) := by
  rw [feed_reference]
  refine ⟨rfl, Stop.isSome_error _, fun f hf rest => decode_piece (c := new) rfl rfl rfl hf rest,
    ?_, ?_⟩
  · intro f hf
    obtain ⟨hok, hbytes, hle, hdec⟩ := encode_piece (reference_wellFormed _ f hf)
    exact ⟨frameHead f.payload, Prod.ext hok hbytes, hle, hdec⟩
  · intro hfail
    have hdec := decode_oversize hfail
    have hbytes := reference_bytes chunks.flatten
    cases hstop : (reference chunks.flatten).stop with
    | header rest => simp [Parse.failed, hstop, Stop.failed] at hfail
    | payload head n rest => simp [Parse.failed, hstop, Stop.failed] at hfail
    | oversize rest =>
      rw [hstop] at hdec hbytes
      exact ⟨rfl, hbytes, answers_of_error rfl hdec⟩

end XyzenRelay.Proto
