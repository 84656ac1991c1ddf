-- SUMMARY: The switch to raw passthrough behind a handshake: no byte of the raw tail is lost, however it is already buffered.
import XyzenRelay.Proto.Truncation

/-!
# Raw passthrough

A reader that expects a number of framed payloads calls `set_raw` right after
`decode` returned the last of them. Part of the raw tail may be in the buffer by
then. In the framed mode the codec is `Synced` with a prefix of the stream: it
answers as a fresh codec would with that prefix in its buffer.
-/

namespace XyzenRelay.Proto

open Endian RustDeskCodec

/-- A codec, and the number of framed payloads its owner still expects. -/
structure Handshake where
  codec : RustDeskCodec
  left : Nat
  deriving DecidableEq, Repr

namespace Handshake

/-- A call of `decode`, and of `set_raw` if it returned the last payload expected. -/
def decode (s : Handshake) (src : Bytes) : Except IoError (Option Bytes) × Handshake × Bytes :=
  match RustDeskCodec.decode s.codec src with
  | (.ok (some frame), c, src') =>
    (.ok (some frame), if s.left = 1 then ⟨c.setRaw, 0⟩ else ⟨c, s.left - 1⟩, src')
  | (r, c, src') => (r, { s with codec := c }, src')

def size (s : Handshake) (src : Bytes) : Nat := RustDeskCodec.size s.codec src

theorem decode_item {s : Handshake} {c : RustDeskCodec} {src src' frame : Bytes}
    (h : RustDeskCodec.decode s.codec src = (.ok (some frame), c, src')) :
    decode s src =
      (.ok (some frame), if s.left = 1 then ⟨c.setRaw, 0⟩ else ⟨c, s.left - 1⟩, src') := by
  simp only [decode, h]

theorem decode_none {s : Handshake} {c : RustDeskCodec} {src src' : Bytes}
    (h : RustDeskCodec.decode s.codec src = (.ok none, c, src')) :
    decode s src = (.ok none, { s with codec := c }, src') := by
  simp only [decode, h]

theorem decode_progress {s s' : Handshake} {src src' frame : Bytes}
    (h : decode s src = (.ok (some frame), s', src')) : size s' src' < size s src := by
  rcases hdec : RustDeskCodec.decode s.codec src with ⟨r, c, cuf⟩
  match r with
  | .ok (some x) =>
    rw [decode_item hdec] at h
    simp only [Prod.mk.injEq, Except.ok.injEq, Option.some.injEq] at h
    obtain ⟨-, rfl, rfl⟩ := h
    have hlt := RustDeskCodec.decode_progress hdec
    split <;> exact hlt
  | .ok none => simp [decode, hdec] at h
  | .error e => simp [decode, hdec] at h

def decoder : StreamDecoder Handshake Bytes IoError UInt8 where
  decode := decode
  size := size
  progress := decode_progress

/-! ## Raw -/

/-- Raw, a drain takes the whole buffer. -/
theorem drain_raw (buf : Bytes) :
    ∃ raws : List Bytes, decoder.drain ⟨new.setRaw, 0⟩ buf = ⟨raws, none, ⟨new.setRaw, 0⟩, []⟩ ∧
      raws.flatten = buf := by
  have hempty : decoder.drain ⟨new.setRaw, 0⟩ [] = ⟨[], none, ⟨new.setRaw, 0⟩, []⟩ :=
    StreamDecoder.drain_more rfl
  cases buf with
  | nil => exact ⟨[], hempty, rfl⟩
  | cons b buf =>
    have hitem : decoder.decode ⟨new.setRaw, 0⟩ (b :: buf) =
        (.ok (some (b :: buf)), ⟨new.setRaw, 0⟩, []) := rfl
    refine ⟨[b :: buf], ?_, by simp⟩
    rw [StreamDecoder.drain_item hitem, hempty]
    rfl

theorem feed_raw (chunks : List Bytes) :
    ∃ raws : List Bytes, decoder.feed ⟨new.setRaw, 0⟩ [] chunks =
      ⟨raws, none, ⟨new.setRaw, 0⟩, []⟩ ∧ raws.flatten = chunks.flatten := by
  induction chunks with
  | nil => exact ⟨[], rfl, rfl⟩
  | cons chunk chunks ih =>
    obtain ⟨first, hdrain, hfirst⟩ := drain_raw chunk
    obtain ⟨later, hfeed, hlater⟩ := ih
    refine ⟨first ++ later, ?_, by simp [hfirst, hlater]⟩
    rw [StreamDecoder.feed, List.nil_append, hdrain]
    simp only [hfeed]
    rfl

/-! ## Framed -/

/-- The codec with its buffer answers as a fresh codec with `pre` in its buffer. -/
structure Synced (c : RustDeskCodec) (buf pre : Bytes) : Prop where
  framed : c.raw = false
  same : ∀ ext, RustDeskCodec.decode c (buf ++ ext) = RustDeskCodec.decode new (pre ++ ext)

namespace Synced

variable {c : RustDeskCodec} {buf pre : Bytes}

theorem fresh (buf : Bytes) : Synced new buf buf := ⟨rfl, fun _ => rfl⟩

theorem append (h : Synced c buf pre) (chunk : Bytes) :
    Synced c (buf ++ chunk) (pre ++ chunk) where
  framed := h.framed
  same := fun ext => by rw [List.append_assoc, List.append_assoc, h.same]

/-- A complete frame is returned, and the codec is fresh again. -/
theorem item {q rest : Bytes} (h : Synced c buf (frame q ++ rest))
    (hq : q.length ≤ MAX_PACKET) :
    RustDeskCodec.decode c buf = (.ok (some q), new, rest) := by
  have hsame := h.same []
  rw [List.append_nil, List.append_nil] at hsame
  have hsmall : q.length < 2 ^ 30 := Nat.lt_of_le_of_lt hq (by decide)
  rw [hsame]
  exact decode_frame (c := new) rfl rfl hq hsmall rest

/-- On part of a frame a fresh codec asks for more. -/
theorem decode_cut {p q : Bytes} (hp : p.length ≤ MAX_PACKET) (hq : q <+: frame p)
    (hne : q ≠ frame p) : ∃ c' q', RustDeskCodec.decode new q = (.ok none, c', q') := by
  rcases cut_cases hp hq hne with ⟨hcut, -⟩ | ⟨rest, rfl, hlt⟩
  · exact ⟨_, _, decode_cutHead (c := new) rfl rfl hcut⟩
  · have hhead : IsHead (frameHead p) p.length := (Piece.wellFormed_canonical hp).1
    have hover : ¬ p.length > new.max := Nat.not_lt.mpr hp
    refine ⟨{ new with state := .body p.length }, rest, ?_⟩
    rw [decode_isHead (c := new) rfl rfl hhead, if_neg hover, decodeBody, if_pos hlt]

/-- So does a codec in step with it, and stays in step. -/
theorem more {q : Bytes} (h : Synced c buf pre) (hq : q.length ≤ MAX_PACKET)
    (hpre : pre <+: frame q) (hne : pre ≠ frame q) :
    ∃ c' buf', RustDeskCodec.decode c buf = (.ok none, c', buf') ∧ Synced c' buf' pre := by
  have hsame := h.same []
  rw [List.append_nil, List.append_nil] at hsame
  obtain ⟨c', buf', hcut⟩ := decode_cut hq hpre hne
  refine ⟨c', buf', hsame.trans hcut, ?_, ?_⟩
  · have hkeep := decode_raw new pre
    rw [hcut] at hkeep
    exact hkeep
  · exact fun ext => (decoder_resumable.more (s := new) rfl hcut ext).symm

end Synced

/-- In the framed mode, with `q` the next payload of the stream and only part of its
    frame read. -/
structure Expecting (s : Handshake) (buf pre q : Bytes) (qs : List Bytes) : Prop where
  left : s.left = qs.length + 1
  synced : Synced s.codec buf pre
  part : pre <+: frame q
  short : pre ≠ frame q

/-- The bytes of the payloads still to come, and the raw tail behind them. -/
def ahead (payloads : List Bytes) (tail : Bytes) : Bytes := (payloads.map frame).flatten ++ tail

theorem ahead_cons (q : Bytes) (qs : List Bytes) (tail : Bytes) :
    ahead (q :: qs) tail = frame q ++ ahead qs tail := by
  simp [ahead]

/-- The next frame is there in part, or completely. -/
theorem part_or_whole {q pre rest tail : Bytes} {qs : List Bytes}
    (hbytes : pre ++ rest = ahead (q :: qs) tail) :
    (pre <+: frame q ∧ pre ≠ frame q) ∨
    ∃ pre', pre = frame q ++ pre' ∧ pre' ++ rest = ahead qs tail := by
  rw [ahead_cons] at hbytes
  by_cases hwhole : frame q <+: pre
  · obtain ⟨pre', rfl⟩ := hwhole
    rw [List.append_assoc, List.append_cancel_left_eq] at hbytes
    exact .inr ⟨pre', rfl, hbytes⟩
  · have hpart : pre <+: frame q := within_of_not_past ⟨rest, hbytes⟩ ⟨_, rfl⟩ hwhole
    exact .inl ⟨hpart, fun heq => hwhole (heq ▸ List.prefix_rfl)⟩

/-- Where calls leave a stream of which `rest` has not arrived: with payloads still to
    come, or raw, with all of them returned and what has arrived of the tail. -/
inductive Reached (rest tail : Bytes) :
    List Bytes → StreamDecoder.Outcome Handshake Bytes IoError UInt8 → Prop
  | framed {done qs : List Bytes} {q buf pre : Bytes} {s : Handshake}
      (hexp : Expecting s buf pre q qs) (hbytes : pre ++ rest = ahead (q :: qs) tail) :
      Reached rest tail (done ++ q :: qs) ⟨done, none, s, buf⟩
  | raw {qs raws : List Bytes} (htail : raws.flatten ++ rest = tail) :
      Reached rest tail qs ⟨qs ++ raws, none, ⟨new.setRaw, 0⟩, []⟩

theorem Reached.cons {rest tail : Bytes} {qs : List Bytes} (q : Bytes)
    {o : StreamDecoder.Outcome Handshake Bytes IoError UInt8} (h : Reached rest tail qs o) :
    Reached rest tail (q :: qs) (o.cons q) := by
  cases h with
  | @framed done _ _ _ _ _ hexp hbytes =>
    exact @Reached.framed rest tail (q :: done) _ _ _ _ _ hexp hbytes
  | raw htail => exact .raw htail

/-- With only part of the next frame there, a drain returns nothing. -/
theorem drain_part {q : Bytes} {qs : List Bytes} (hmax : ∀ p ∈ q :: qs, p.length ≤ MAX_PACKET)
    {s : Handshake} {buf pre rest tail : Bytes} (hleft : s.left = qs.length + 1)
    (hsync : Synced s.codec buf pre) (hbytes : pre ++ rest = ahead (q :: qs) tail)
    (hpart : pre <+: frame q ∧ pre ≠ frame q) :
    Reached rest tail (q :: qs) (decoder.drain s buf) := by
  obtain ⟨c', buf', hdec, hsync'⟩ := hsync.more (hmax q List.mem_cons_self) hpart.1 hpart.2
  rw [StreamDecoder.drain_more (decode_none hdec)]
  exact @Reached.framed rest tail [] _ _ _ _ _ ⟨hleft, hsync', hpart.1, hpart.2⟩ hbytes

/-- A drain in the framed mode returns the payloads that are there. -/
theorem drain_synced {q : Bytes} {qs : List Bytes} (hmax : ∀ p ∈ q :: qs, p.length ≤ MAX_PACKET)
    {s : Handshake} {buf pre rest tail : Bytes} (hleft : s.left = qs.length + 1)
    (hsync : Synced s.codec buf pre) (hbytes : pre ++ rest = ahead (q :: qs) tail) :
    Reached rest tail (q :: qs) (decoder.drain s buf) := by
  induction qs generalizing q s buf pre with
  | nil =>
    rcases part_or_whole hbytes with hpart | ⟨pre', rfl, hrest⟩
    · exact drain_part hmax hleft hsync hbytes hpart
    · -- the last payload: from here on the codec is raw
      have hlast : s.left = 1 := hleft
      have hitem := decode_item (hsync.item (hmax q List.mem_cons_self))
      rw [if_pos hlast] at hitem
      obtain ⟨raws, hraw, hflat⟩ := drain_raw pre'
      rw [StreamDecoder.drain_item hitem, hraw]
      exact .raw (by rw [hflat]; exact hrest)
  | cons r qs ih =>
    rcases part_or_whole hbytes with hpart | ⟨pre', rfl, hrest⟩
    · exact drain_part hmax hleft hsync hbytes hpart
    · have hitem := decode_item (hsync.item (hmax q List.mem_cons_self))
      rw [if_neg (by rw [hleft, List.length_cons]; omega), hleft, Nat.add_sub_cancel] at hitem
      rw [StreamDecoder.drain_item hitem]
      exact (ih (fun p hp => hmax p (List.mem_cons_of_mem q hp)) rfl (.fresh pre') hrest).cons q

/-- The chunks that arrive while payloads are still to come. -/
theorem feed_expecting {chunks : List Bytes} {q : Bytes} {qs : List Bytes}
    (hmax : ∀ p ∈ q :: qs, p.length ≤ MAX_PACKET) {s : Handshake} {buf pre tail : Bytes}
    (hexp : Expecting s buf pre q qs) (hbytes : pre ++ chunks.flatten = ahead (q :: qs) tail) :
    ∃ raws : List Bytes, decoder.feed s buf chunks = ⟨q :: qs ++ raws, none, ⟨new.setRaw, 0⟩, []⟩ ∧
      raws.flatten = tail := by
  induction chunks generalizing q qs s buf pre with
  | nil =>
    -- the input cannot end inside a frame
    rw [List.flatten_nil, List.append_nil, ahead_cons] at hbytes
    have hlong : frame q <+: pre := ⟨_, hbytes.symm⟩
    exact absurd (hexp.part.eq_of_length
      (Nat.le_antisymm hexp.part.length_le hlong.length_le)) hexp.short
  | cons chunk chunks ih =>
    rw [List.flatten_cons, ← List.append_assoc] at hbytes
    have hreached := drain_synced hmax hexp.left (hexp.synced.append chunk) hbytes
    generalize ho : decoder.drain s (buf ++ chunk) = o at hreached
    generalize hqs : q :: qs = payloads at hreached hmax ⊢
    cases hreached with
    | @framed done qs' q' buf' pre' s' hexp' hbytes' =>
      have hmax' : ∀ p ∈ q' :: qs', p.length ≤ MAX_PACKET :=
        fun p hp => hmax p (List.mem_append_right done hp)
      obtain ⟨raws, hfeed, hflat⟩ := ih hmax' hexp' hbytes'
      refine ⟨raws, ?_, hflat⟩
      rw [StreamDecoder.feed, ho]
      simp only [hfeed, StreamDecoder.Outcome.prepend, List.append_assoc]
    | @raw _ raws htail =>
      obtain ⟨later, hfeed, hlater⟩ := feed_raw chunks
      refine ⟨raws ++ later, ?_, by rw [List.flatten_append, hlater, htail]⟩
      rw [StreamDecoder.feed, ho]
      simp only [hfeed, StreamDecoder.Outcome.prepend, List.append_assoc]

end Handshake

/-! ## The switch -/

theorem encodeAll_raw {c : RustDeskCodec} (hraw : c.raw = true) (items : List Bytes) (dst : Bytes) :
    encodeAll c items dst = (.ok (), dst ++ items.flatten) := by
  induction items generalizing dst with
  | nil => simp [encodeAll]
  | cons item items ih =>
    rw [encodeAll, encode, if_pos hraw]
    simp only
    rw [ih, List.flatten_cons, List.append_assoc]

/-- Framed payloads and then raw bytes: a peer that calls `set_raw` behind its last
    payload writes such a stream, and a reader that calls `set_raw` right after the
    last payload was returned gets the payloads and then exactly the raw bytes,
    however the stream is cut and whatever was buffered at the switch. -/
theorem passthrough_exact {payloads : List Bytes} (hne : payloads ≠ [])
    (hmax : ∀ p ∈ payloads, p.length ≤ MAX_PACKET) :
    ∃ wire, encodeAll new payloads [] = (.ok (), wire) ∧
      (∀ items : List Bytes,
        encodeAll new.setRaw items wire = (.ok (), wire ++ items.flatten)) ∧
      ∀ (tail : Bytes) (chunks : List Bytes), chunks.flatten = wire ++ tail →
        ∃ raws : List Bytes, Handshake.decoder.feed ⟨new, payloads.length⟩ [] chunks =
          ⟨payloads ++ raws, none, ⟨new.setRaw, 0⟩, []⟩ ∧ raws.flatten = tail := by
  refine ⟨(payloads.map frame).flatten, encodeAll_frames rfl hmax [],
    fun items => encodeAll_raw rfl items _, ?_⟩
  intro tail chunks hchunks
  cases payloads with
  | nil => exact absurd rfl hne
  | cons q qs =>
    have hfirst : [] ≠ frame q := by
      rw [frame_eq_head_append]
      intro hnil
      have hlen := congrArg List.length hnil
      have hpos := headLenOf_pos q.length
      simp only [List.length_nil, List.length_append, length_frameHead] at hlen
      omega
    exact Handshake.feed_expecting hmax ⟨rfl, .fresh [], List.nil_prefix, hfirst⟩ hchunks

/-- A payload of one byte, in front of any tail. -/
theorem passthrough_exact_one :
    ∃ wire, encodeAll new [[0xaa]] [] = (.ok (), wire) ∧
      (∀ items : List Bytes,
        encodeAll new.setRaw items wire = (.ok (), wire ++ items.flatten)) ∧
      ∀ (tail : Bytes) (chunks : List Bytes), chunks.flatten = wire ++ tail →
        ∃ raws : List Bytes, Handshake.decoder.feed ⟨new, 1⟩ [] chunks =
          ⟨[[0xaa]] ++ raws, none, ⟨new.setRaw, 0⟩, []⟩ ∧ raws.flatten = tail :=
  passthrough_exact (by simp) (by decide)

end XyzenRelay.Proto
