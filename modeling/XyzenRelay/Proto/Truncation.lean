-- SUMMARY: The end of the input: what a reader of a truncated stream is told, and the one cut that looks like a clean end.
import XyzenRelay.Proto.Reference

/-!
# Truncated streams

At the end of the input `Framed` calls `decode_eof`, whose default reports an error
exactly when bytes remain in the buffer. The decoder takes a header out of the buffer
before its payload is there, so a stream cut right behind a header leaves nothing
behind.
-/

namespace XyzenRelay.Proto

open Endian RustDeskCodec

/-- What a reader can be told instead of a clean end. -/
inductive ReadError where
  | decode (e : IoError)
  | bytesRemaining
  deriving DecidableEq, Repr

namespace RustDeskCodec

/-- The default `Decoder::decode_eof`. -/
def decodeEof (c : RustDeskCodec) (src : Bytes) :
    Except ReadError (Option Bytes) × RustDeskCodec × Bytes :=
  match decode c src with
  | (.ok (some frame), c', src') => (.ok (some frame), c', src')
  | (.ok none, c', src') =>
    if src'.isEmpty then (.ok none, c', src') else (.error .bytesRemaining, c', src')
  | (.error e, c', src') => (.error (.decode e), c', src')

theorem decodeEof_progress {c c' : RustDeskCodec} {src src' x : Bytes}
    (h : decodeEof c src = (.ok (some x), c', src')) : size c' src' < size c src := by
  unfold decodeEof at h
  split at h
  · rename_i hdec
    simp only [Prod.mk.injEq, Except.ok.injEq, Option.some.injEq] at h
    obtain ⟨rfl, rfl, rfl⟩ := h
    exact decode_progress hdec
  · split at h <;> simp at h
  · simp at h

/-- The calls after the input has ended. -/
def eofDecoder : StreamDecoder RustDeskCodec Bytes ReadError UInt8 where
  decode := decodeEof
  size := size
  progress := decodeEof_progress

/-- A decoder that waits is told apart by its buffer alone. -/
theorem drain_eof_of_waiting {c : RustDeskCodec} {buf : Bytes}
    (hwait : StreamDecoder.Waiting decoder c buf) :
    eofDecoder.drain c buf =
      ⟨[], if buf.isEmpty then none else some .bytesRemaining, c, buf⟩ := by
  have hdec : decode c buf = (.ok none, c, buf) := hwait
  cases hbuf : buf.isEmpty with
  | true =>
    apply StreamDecoder.drain_more
    simp [eofDecoder, decodeEof, hdec, hbuf]
  | false =>
    apply StreamDecoder.drain_error
    simp [eofDecoder, decodeEof, hdec, hbuf]

end RustDeskCodec

/-- Read the chunks and then the end of the input: the frames, and the error that
    ends them, if the end is not a clean one. -/
def readToEnd (chunks : List Bytes) : List Bytes × Option ReadError :=
  match decoder.feed new [] chunks with
  | ⟨frames, some e, _, _⟩ => (frames, some (.decode e))
  | ⟨frames, none, c, buf⟩ =>
    (frames ++ (eofDecoder.drain c buf).items, (eofDecoder.drain c buf).error)

/-- Without a decoding error the end is clean exactly when the buffer is empty. -/
theorem readToEnd_of_feed {chunks xs : List Bytes} {c : RustDeskCodec} {buf : Bytes}
    (h : decoder.feed new [] chunks = ⟨xs, none, c, buf⟩) :
    readToEnd chunks = (xs, if buf.isEmpty then none else some .bytesRemaining) := by
  have hdrain := decoder_resumable.feed_eq_drain rfl waiting_new chunks
  rw [h] at hdrain
  obtain ⟨-, hwait⟩ := decoder_resumable.waiting_drain rfl hdrain.symm
  simp only [readToEnd, h, drain_eof_of_waiting hwait, List.append_nil]

/-- The error a parse ends with. -/
def Stop.readError : Stop → Option ReadError
  | .oversize _ => some (.decode frameTooLong)
  | stop => if stop.buffer.isEmpty then none else some .bytesRemaining

theorem readToEnd_reference (chunks : List Bytes) :
    readToEnd chunks =
      ((reference chunks.flatten).payloads, (reference chunks.flatten).stop.readError) := by
  have hfeed := feed_reference chunks
  cases hstop : (reference chunks.flatten).stop with
  | oversize rest =>
    rw [hstop] at hfeed
    simp only [readToEnd, hfeed, Stop.error, Stop.readError]
  | header rest =>
    rw [hstop] at hfeed
    exact readToEnd_of_feed hfeed
  | payload head n rest =>
    rw [hstop] at hfeed
    exact readToEnd_of_feed hfeed

/-! ## Canonical frames in the parse -/

/-- The frame of a payload, as the encoder writes it. -/
def Piece.canonical (p : Bytes) : Piece := ⟨frameHead p, p⟩

theorem Piece.bytes_canonical (p : Bytes) : (Piece.canonical p).bytes = frame p := rfl

theorem Piece.wellFormed_canonical {p : Bytes} (hp : p.length ≤ MAX_PACKET) :
    (Piece.canonical p).WellFormed := by
  have hsmall : p.length < 2 ^ 30 := Nat.lt_of_le_of_lt hp (by decide)
  have hpos := headLenOf_pos p.length
  have hle := headLenOf_le p.length
  have hfit := lt_of_headLenOf hsmall
  have hhead : frameHead p =
      leBytes (headLenOf p.length) (p.length * 4 + (headLenOf p.length - 1)) := by
    rw [frameHead, headerBytes_eq hle, header_toNat hsmall hpos hle]
  obtain ⟨h, hh⟩ : ∃ h, headLenOf p.length = h + 1 := ⟨headLenOf p.length - 1, by omega⟩
  rw [hh] at hhead hfit hle
  have hnat : leNat (frameHead p) = p.length * 4 + h := by
    rw [hhead, leNat_leBytes, Nat.add_sub_cancel, Nat.mod_eq_of_lt (by omega)]
  refine ⟨⟨⟨UInt8.ofNat (p.length * 4 + h), leBytes h ((p.length * 4 + h) / 256), hhead, ?_⟩, ?_⟩,
    hp⟩
  · rw [Piece.canonical, hhead, leBytes_length, UInt8.toNat_ofNat']
    omega
  · show leNat (frameHead p) / 4 = p.length
    omega

theorem reference_frames_append {payloads : List Bytes}
    (hmax : ∀ p ∈ payloads, p.length ≤ MAX_PACKET) (q : Bytes) :
    reference ((payloads.map frame).flatten ++ q) =
      ⟨payloads.map Piece.canonical ++ (reference q).frames, (reference q).stop⟩ := by
  induction payloads with
  | nil => rfl
  | cons p ps ih =>
    have hwf := Piece.wellFormed_canonical (hmax p List.mem_cons_self)
    rw [List.map_cons, List.flatten_cons, List.append_assoc, ← Piece.bytes_canonical,
      reference_frame hwf, ih fun q hq => hmax q (List.mem_cons_of_mem p hq)]
    rfl

theorem cutHead_of_within {head q : Bytes} {n : Nat} (hhead : IsHead head n) (hq : q <+: head)
    (hne : q ≠ head) : CutHead q := by
  obtain ⟨rest, rfl⟩ := hq
  obtain ⟨b0, tail, hcons, hlen⟩ := hhead.length
  cases q with
  | nil => trivial
  | cons b q =>
    have hrest : rest ≠ [] := by
      rintro rfl
      exact hne (List.append_nil _).symm
    have hpos := List.length_pos_iff.mpr hrest
    rw [List.cons_append, List.cons.injEq] at hcons
    simp only [CutHead, hcons.1, List.length_cons]
    simp only [List.length_append, List.length_cons] at hlen
    omega

/-- Of two prefixes of a list, one that the other one does not reach past. -/
theorem within_of_not_past {as bs cs : Bytes} (ha : as <+: cs) (hb : bs <+: cs)
    (hpast : ¬ bs <+: as) : as <+: bs := by
  rcases List.prefix_or_prefix_of_prefix ha hb with h | h
  · exact h
  · exact absurd h hpast

/-- A frame is cut inside its header, or behind it with the payload incomplete. -/
theorem cut_cases {p q : Bytes} (hp : p.length ≤ MAX_PACKET) (hq : q <+: frame p)
    (hne : q ≠ frame p) :
    (CutHead q ∧ q ≠ frameHead p) ∨ ∃ rest, q = frameHead p ++ rest ∧ rest.length < p.length := by
  have hhead : IsHead (frameHead p) p.length := (Piece.wellFormed_canonical hp).1
  by_cases hlong : frameHead p <+: q
  · obtain ⟨rest, rfl⟩ := hlong
    rw [frame_eq_head_append, List.prefix_append_right_inj] at hq
    refine .inr ⟨rest, rfl, Nat.lt_of_le_of_ne hq.length_le fun hlen => hne ?_⟩
    rw [frame_eq_head_append, hq.eq_of_length hlen]
  · have hpre : q <+: frameHead p := within_of_not_past hq ⟨p, rfl⟩ hlong
    have hother : q ≠ frameHead p := fun heq => hlong (heq ▸ List.prefix_rfl)
    exact .inl ⟨cutHead_of_within hhead hpre hother, hother⟩

/-- A frame that is cut: nothing is yielded, and the buffer is empty only if the cut is
    in front of the frame or right behind its header. -/
theorem reference_cut {p q : Bytes} (hp : p.length ≤ MAX_PACKET) (hq : q <+: frame p)
    (hne : q ≠ frame p) :
    (reference q).frames = [] ∧
    ((reference q).stop.readError =
      if q = [] ∨ q = frameHead p then none else some .bytesRemaining) := by
  have hhead : IsHead (frameHead p) p.length := (Piece.wellFormed_canonical hp).1
  rcases cut_cases hp hq hne with ⟨hcut, hother⟩ | ⟨rest, rfl, hlt⟩
  · rw [reference_cutHead hcut]
    refine ⟨rfl, ?_⟩
    cases q with
    | nil => simp [Stop.readError, Stop.buffer]
    | cons b q => simp [Stop.readError, Stop.buffer, hother]
  · rw [reference_payload hhead hp hlt]
    refine ⟨rfl, ?_⟩
    cases rest with
    | nil => simp [Stop.readError, Stop.buffer]
    | cons b rest => simp [Stop.readError, Stop.buffer, hhead.ne_nil]

/-! ## The cuts of a stream -/

/-- The bytes a fresh codec writes for the payloads. -/
def encoded (payloads : List Bytes) : Bytes := (encodeAll new payloads []).2

theorem encoded_eq {payloads : List Bytes} (hmax : ∀ p ∈ payloads, p.length ≤ MAX_PACKET) :
    encoded payloads = (payloads.map frame).flatten := by
  rw [encoded, encodeAll_frames rfl hmax, List.nil_append]

/-- The stream is cut between two frames, or at one of its ends. -/
def OnBoundary (payloads : List Bytes) (cut : Bytes) : Prop :=
  ∃ k, cut = encoded (payloads.take k)

/-- The stream is cut right behind the header of one of its frames. -/
def BehindHead (payloads : List Bytes) (cut : Bytes) : Prop :=
  ∃ k p, payloads[k]? = some p ∧ cut = encoded (payloads.take k) ++ frameHead p

/-- The frames that the cut stream holds completely are the first `k`. -/
structure Complete (payloads : List Bytes) (cut : Bytes) (k : Nat) : Prop where
  le : k ≤ payloads.length
  whole : encoded (payloads.take k) <+: cut
  last : k < payloads.length → ¬ encoded (payloads.take (k + 1)) <+: cut

/-- The reader is given the complete frames and then an error. -/
def TruncationReported (payloads : List Bytes) (chunks : List Bytes) : Prop :=
  ∃ k e, Complete payloads chunks.flatten k ∧ readToEnd chunks = (payloads.take k, some e)

/-- A cut off the boundaries leaves some frames and a proper piece of the next one. -/
theorem exists_cut {payloads : List Bytes} {cut : Bytes}
    (hmax : ∀ p ∈ payloads, p.length ≤ MAX_PACKET)
    (hpre : cut <+: encoded payloads) (hcut : ¬ OnBoundary payloads cut) :
    ∃ k p q, payloads[k]? = some p ∧ cut = encoded (payloads.take k) ++ q ∧ q ≠ [] ∧
      q <+: frame p ∧ q ≠ frame p := by
  induction payloads generalizing cut with
  | nil =>
    rw [encoded_eq hmax, List.map_nil, List.flatten_nil, List.prefix_nil] at hpre
    exact absurd ⟨0, hpre⟩ hcut
  | cons p ps ih =>
    have hp := hmax p List.mem_cons_self
    have hmaxps : ∀ q ∈ ps, q.length ≤ MAX_PACKET := fun q hq => hmax q (List.mem_cons_of_mem p hq)
    have hmaxtake : ∀ k, ∀ q ∈ ps.take k, q.length ≤ MAX_PACKET :=
      fun k q hq => hmaxps q (List.mem_of_mem_take hq)
    have hcons : ∀ qs : List Bytes, (∀ q ∈ qs, q.length ≤ MAX_PACKET) →
        encoded (p :: qs) = frame p ++ encoded qs := by
      intro qs hqs
      rw [encoded_eq (List.forall_mem_cons.mpr ⟨hp, hqs⟩), encoded_eq hqs, List.map_cons,
        List.flatten_cons]
    rw [hcons ps hmaxps] at hpre
    by_cases hwhole : frame p <+: cut
    · -- the first frame is there completely
      obtain ⟨later, rfl⟩ := hwhole
      rw [List.prefix_append_right_inj] at hpre
      have hlater : ¬ OnBoundary ps later := by
        rintro ⟨k, hk⟩
        exact hcut ⟨k + 1, by rw [List.take_succ_cons, hcons _ (hmaxtake k), hk]⟩
      obtain ⟨k, p', q, hget, hq, hrest⟩ := ih hmaxps hpre hlater
      refine ⟨k + 1, p', q, hget, ?_, hrest⟩
      rw [List.take_succ_cons, hcons _ (hmaxtake k), hq, List.append_assoc]
    · have hshort : cut <+: frame p := within_of_not_past hpre ⟨_, rfl⟩ hwhole
      refine ⟨0, p, cut, rfl, rfl, ?_, hshort, fun heq => hwhole (heq ▸ List.prefix_rfl)⟩
      rintro rfl
      exact hcut ⟨0, rfl⟩

/-- What the reader of a stream cut inside a frame is told. -/
theorem readToEnd_cut {payloads chunks : List Bytes} {k : Nat} {p q : Bytes}
    (hmax : ∀ p ∈ payloads, p.length ≤ MAX_PACKET) (hget : payloads[k]? = some p)
    (hcut : chunks.flatten = encoded (payloads.take k) ++ q) (hnil : q ≠ []) (hq : q <+: frame p)
    (hne : q ≠ frame p) :
    readToEnd chunks =
      (payloads.take k, if q = frameHead p then none else some .bytesRemaining) := by
  have hp := hmax p (List.mem_of_getElem? hget)
  have hmaxtake : ∀ q ∈ payloads.take k, q.length ≤ MAX_PACKET :=
    fun q hq => hmax q (List.mem_of_mem_take hq)
  obtain ⟨hframes, hstop⟩ := reference_cut hp hq hne
  have hpayloads : Parse.payloads ⟨(payloads.take k).map Piece.canonical, (reference q).stop⟩ =
      payloads.take k := by
    rw [Parse.payloads, List.map_map]
    exact List.map_id _
  rw [readToEnd_reference, hcut, encoded_eq hmaxtake, reference_frames_append hmaxtake, hframes,
    List.append_nil, hstop, hpayloads]
  simp only [hnil, false_or]

theorem encoded_take_succ {payloads : List Bytes} {k : Nat} {p : Bytes}
    (hmax : ∀ p ∈ payloads, p.length ≤ MAX_PACKET) (hget : payloads[k]? = some p) :
    encoded (payloads.take (k + 1)) = encoded (payloads.take k) ++ frame p := by
  have hmaxtake : ∀ j, ∀ q ∈ payloads.take j, q.length ≤ MAX_PACKET :=
    fun j q hq => hmax q (List.mem_of_mem_take hq)
  rw [encoded_eq (hmaxtake (k + 1)), encoded_eq (hmaxtake k), List.take_add_one, hget,
    Option.toList_some, List.map_append, List.flatten_append]
  simp

/-- The complete frames of a stream cut inside a frame are those in front of it. -/
theorem complete_cut {payloads : List Bytes} {cut p q : Bytes} {k : Nat}
    (hmax : ∀ p ∈ payloads, p.length ≤ MAX_PACKET) (hget : payloads[k]? = some p)
    (hcut : cut = encoded (payloads.take k) ++ q) (hq : q <+: frame p) (hne : q ≠ frame p) :
    Complete payloads cut k where
  le := Nat.le_of_lt (List.getElem?_eq_some_iff.mp hget).1
  whole := ⟨q, hcut.symm⟩
  last := by
    intro hk hnext
    rw [encoded_take_succ hmax hget, hcut, List.prefix_append_right_inj] at hnext
    exact hne (hq.eq_of_length (Nat.le_antisymm hq.length_le hnext.length_le))

/-- A stream cut off the frame boundaries is reported to its reader, whatever the
    chunks, unless the cut is right behind the header of a frame. -/
theorem truncationReported_iff {payloads chunks : List Bytes}
    (hmax : ∀ p ∈ payloads, p.length ≤ MAX_PACKET)
    (hpre : chunks.flatten <+: encoded payloads) (hcut : ¬ OnBoundary payloads chunks.flatten) :
    TruncationReported payloads chunks ↔ ¬ BehindHead payloads chunks.flatten := by
  obtain ⟨k, p, q, hget, hbytes, hnil, hq, hne⟩ := exists_cut hmax hpre hcut
  have hread := readToEnd_cut hmax hget hbytes hnil hq hne
  constructor
  · rintro ⟨j, e, -, hreported⟩ ⟨k', p', hget', hbehind⟩
    have hne' : frameHead p' ≠ frame p' := by
      intro heq
      -- then the payload is empty, and the cut is a boundary
      refine hcut ⟨k' + 1, ?_⟩
      rw [encoded_take_succ hmax hget', hbehind, heq]
    have hnil' : frameHead p' ≠ [] :=
      (Piece.wellFormed_canonical (hmax p' (List.mem_of_getElem? hget'))).1.ne_nil
    have hclean := readToEnd_cut hmax hget' hbehind hnil' ⟨p', rfl⟩ hne'
    rw [if_pos rfl, hreported] at hclean
    exact absurd (congrArg Prod.snd hclean) (by simp)
  · intro hbehind
    have hother : q ≠ frameHead p := fun heq => hbehind ⟨k, p, hget, heq ▸ hbytes⟩
    rw [if_neg hother] at hread
    exact ⟨k, .bytesRemaining, complete_cut hmax hget hbytes hq hne, hread⟩

/-- An empty frame, and one that is cut inside its header. -/
theorem truncationReported_pair :
    TruncationReported [[], List.replicate 64 0xaa] [[0x00, 0x01]] ↔
      ¬ BehindHead [[], List.replicate 64 0xaa] [0x00, 0x01] :=
  truncationReported_iff (by decide) (by decide +kernel) (by
    rintro ⟨k, hk⟩
    have hlen := congrArg List.length hk
    match k with
    | 0 => exact absurd hlen (by decide)
    | 1 => exact absurd hlen (by decide)
    | k + 2 =>
      rw [List.take_of_length_le (by simp)] at hlen
      exact absurd hlen (by decide +kernel))

/-- Cut right behind the header of its only frame, a stream ends cleanly and empty. -/
theorem truncation_unnoticed : ¬ ∀ payloads chunks : List Bytes, payloads ≠ [] →
    (∀ p ∈ payloads, p.length ≤ MAX_PACKET) → chunks.flatten <+: encoded payloads →
    ¬ OnBoundary payloads chunks.flatten → TruncationReported payloads chunks := by
  intro hall
  have hmax : ∀ p ∈ [[(0xaa : UInt8)]], p.length ≤ MAX_PACKET := by decide
  have hboundary : ¬ OnBoundary [[0xaa]] [0x04] := by
    rintro ⟨k, hk⟩
    have hlen := congrArg List.length hk
    match k with
    | 0 => exact absurd hlen (by decide)
    | k + 1 =>
      rw [List.take_of_length_le (by simp)] at hlen
      exact absurd hlen (by decide)
  obtain ⟨k, e, -, hread⟩ := hall [[0xaa]] [[0x04]] (by simp) hmax (by decide) hboundary
  have hclean : readToEnd [[0x04]] = ([], none) :=
    @readToEnd_cut [[0xaa]] _ 0 [0xaa] _ hmax rfl rfl (by simp)
      (by decide) (by decide)
  rw [hclean] at hread
  exact absurd (congrArg Prod.snd hread) (by simp)

end XyzenRelay.Proto
