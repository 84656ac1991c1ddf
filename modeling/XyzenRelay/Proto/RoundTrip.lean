-- SUMMARY: The framed decoder as a resumable stream decoder, and the round trip of a whole stream of payloads under any chunking.
import XyzenRelay.Proto.Codec

namespace XyzenRelay.Proto

open Endian

namespace RustDeskCodec

/-! ## The decoder on its two states -/

theorem decode_nil {c : RustDeskCodec} (hraw : c.raw = false) (hstate : c.state = .head) :
    decode c [] = (.ok none, c, []) := by
  simp [decode, hraw, hstate]

theorem decode_body {c : RustDeskCodec} {n : Nat} (hraw : c.raw = false)
    (hstate : c.state = .body n)
    (src : Bytes) : decode c src = decodeBody c n src := by
  simp [decode, hraw, hstate]

/-- The header is still incomplete. -/
theorem decode_short {c : RustDeskCodec} {b0 : UInt8} {src : Bytes} (hraw : c.raw = false)
    (hstate : c.state = .head) (hlen : (b0 :: src).length < headLen b0) :
    decode c (b0 :: src) = (.ok none, c, b0 :: src) := by
  simp only [List.length_cons] at hlen
  simp [decode, hraw, hstate, hlen]

/-- The header is complete: its value is the little-endian word, without the two
    length bits. -/
theorem decode_head {c : RustDeskCodec} {b0 : UInt8} {src : Bytes} (hraw : c.raw = false)
    (hstate : c.state = .head) (hlen : headLen b0 ≤ (b0 :: src).length) :
    decode c (b0 :: src) =
      if leNat ((b0 :: src).take (headLen b0)) / 4 > c.max then (.error frameTooLong, c, b0 :: src)
      else decodeBody c (leNat ((b0 :: src).take (headLen b0)) / 4)
        ((b0 :: src).drop (headLen b0)) := by
  have hword : headWord (headLen b0) (b0 :: src) >>> 2 =
      leNat ((b0 :: src).take (headLen b0)) / 4 := by
    rw [headWord_eq (headLen_pos b0) (headLen_le b0) hlen, Nat.shiftRight_eq_div_pow]
  have hnot : ¬ (b0 :: src).length < headLen b0 := by omega
  simp only [decode, hraw, hstate, hnot, hword, if_false, Bool.false_eq_true]

/-! ## The framed decoder as a stream decoder -/

/-- The most items a buffer can still yield: every header takes a byte, and a
    pending body may be empty. -/
def size (c : RustDeskCodec) (buf : Bytes) : Nat :=
  2 * buf.length + (match c.state with | .head => 0 | .body _ => 1)

theorem decodeBody_item {c c' : RustDeskCodec} {n : Nat} {src src' x : Bytes}
    (h : decodeBody c n src = (.ok (some x), c', src')) :
    n ≤ src.length ∧ x = src.take n ∧ c' = { c with state := .head } ∧ src' = src.drop n := by
  unfold decodeBody at h
  split_ifs at h with hlen
  · simp at h
  · simp only [Prod.mk.injEq, Except.ok.injEq, Option.some.injEq] at h
    obtain ⟨hx, hc, hs⟩ := h
    exact ⟨by omega, hx.symm, hc.symm, hs.symm⟩

theorem decode_progress {c c' : RustDeskCodec} {src src' x : Bytes}
    (h : decode c src = (.ok (some x), c', src')) : size c' src' < size c src := by
  cases hraw : c.raw with
  | true =>
    simp only [decode, hraw, if_true] at h
    cases src with
    | nil => simp at h
    | cons b0 src =>
      simp only [List.isEmpty_cons, Bool.false_eq_true, if_false, Prod.mk.injEq] at h
      obtain ⟨-, rfl, rfl⟩ := h
      simp only [size, List.length_cons, List.length_nil]
      omega
  | false =>
    cases hstate : c.state with
    | body n =>
      rw [decode_body hraw hstate] at h
      obtain ⟨-, -, rfl, rfl⟩ := decodeBody_item h
      simp only [size, hstate, List.length_drop]
      omega
    | head =>
      cases src with
      | nil => simp [decode_nil hraw hstate] at h
      | cons b0 src =>
        rcases Nat.lt_or_ge (b0 :: src).length (headLen b0) with hlen | hlen
        · simp [decode_short hraw hstate hlen] at h
        · rw [decode_head hraw hstate hlen] at h
          split_ifs at h with hmax
          · simp at h
          · obtain ⟨-, -, rfl, rfl⟩ := decodeBody_item h
            have hpos := headLen_pos b0
            simp only [size, hstate, List.length_drop, List.length_cons]
            omega

def decoder : StreamDecoder RustDeskCodec Bytes IoError UInt8 where
  decode := decode
  size := size
  progress := decode_progress

/-! ## Resumability -/

/-- The body arm is resumed by appending to the buffer. -/
theorem decodeBody_append {c : RustDeskCodec} {n : Nat} {src ext : Bytes} (hraw : c.raw = false) :
    match decodeBody c n src with
    | (.ok none, c', src') => decodeBody c n (src ++ ext) = decode c' (src' ++ ext)
    | (r, c', src') => decodeBody c n (src ++ ext) = (r, c', src' ++ ext) := by
  unfold decodeBody
  by_cases hlen : src.length < n
  · simp only [hlen, if_true]
    rw [decode_body (c := { c with state := .body n }) hraw rfl]
    rfl
  · have hlen' : ¬ (src ++ ext).length < n := by
      rw [List.length_append]
      omega
    have hle : n ≤ src.length := by omega
    simp only [hlen, hlen', if_false, List.take_append_of_le_length hle,
      List.drop_append_of_le_length hle]

/-- Appending to the buffer of a framed call appends to what it leaves, and a call
    that asked for more is resumed where it stopped. -/
theorem decode_append {c : RustDeskCodec} (hraw : c.raw = false) (src ext : Bytes) :
    match decode c src with
    | (.ok none, c', src') => decode c (src ++ ext) = decode c' (src' ++ ext)
    | (r, c', src') => decode c (src ++ ext) = (r, c', src' ++ ext) := by
  cases hstate : c.state with
  | body n =>
    rw [decode_body hraw hstate, decode_body hraw hstate]
    exact decodeBody_append hraw
  | head =>
    cases src with
    | nil => rw [decode_nil hraw hstate]
    | cons b0 src =>
      rcases Nat.lt_or_ge (b0 :: src).length (headLen b0) with hlen | hlen
      · rw [decode_short hraw hstate hlen]
      · have hlen' : headLen b0 ≤ (b0 :: (src ++ ext)).length := by
          simp only [List.length_cons, List.length_append] at hlen ⊢
          omega
        have htake : (b0 :: (src ++ ext)).take (headLen b0) = (b0 :: src).take (headLen b0) := by
          rw [← List.cons_append, List.take_append_of_le_length hlen]
        have hdrop : (b0 :: (src ++ ext)).drop (headLen b0) = (b0 :: src).drop
            (headLen b0) ++ ext := by
          rw [← List.cons_append, List.drop_append_of_le_length hlen]
        rw [List.cons_append, decode_head hraw hstate hlen,
          decode_head hraw hstate hlen', htake, hdrop]
        by_cases hmax : leNat ((b0 :: src).take (headLen b0)) / 4 > c.max
        · simp only [hmax, if_true, List.cons_append]
        · simp only [hmax, if_false]
          exact decodeBody_append hraw

theorem decodeBody_raw (c : RustDeskCodec) (n : Nat) (src : Bytes) :
    (decodeBody c n src).2.1.raw = c.raw := by
  unfold decodeBody
  split <;> rfl

/-- No call switches between the framed and the raw mode. -/
theorem decode_raw (c : RustDeskCodec) (src : Bytes) : (decode c src).2.1.raw = c.raw := by
  unfold decode
  dsimp only
  repeat' split
  all_goals first | rfl | exact decodeBody_raw _ _ _

theorem decoder_resumable : decoder.Resumable fun c => c.raw = false where
  stays := by
    intro c src r c' src' hraw h
    have hkeep := decode_raw c src
    rw [show decode c src = (r, c', src') from h] at hkeep
    exact hkeep.trans hraw
  item := by
    intro c src x c' src' hraw h ext
    have happ := decode_append hraw src ext
    rw [show decode c src = _ from h] at happ
    exact happ
  more := by
    intro c src c' src' hraw h ext
    have happ := decode_append hraw src ext
    rw [show decode c src = _ from h] at happ
    exact happ
  error := by
    intro c src e c' src' hraw h ext
    have happ := decode_append hraw src ext
    rw [show decode c src = _ from h] at happ
    exact happ

/-! ## Frames -/

/-- The bytes `encode` appends for one payload. -/
def frame (p : Bytes) : Bytes :=
  headerBytes (header p.length (headLenOf p.length)) (headLenOf p.length) ++ p

theorem encode_frame {c : RustDeskCodec} {p : Bytes} (hraw : c.raw = false)
    (hmax : p.length ≤ c.max)
    (dst : Bytes) : encode c p dst = (.ok (), dst ++ frame p) := by
  have hnot : ¬ p.length > c.max := by omega
  simp only [encode, hraw, hnot, if_false, Bool.false_eq_true, frame, List.append_assoc]

/-- A frame header is the little-endian encoding of the shifted length. -/
theorem frame_eq {p : Bytes} (hp : p.length < 2 ^ 30) :
    frame p = leBytes (headLenOf p.length) (p.length * 4 + (headLenOf p.length - 1)) ++ p := by
  rw [frame, headerBytes_eq (headLenOf_le _),
    header_toNat hp (headLenOf_pos _) (headLenOf_le _)]

/-- Decoding a frame at the head of the buffer yields its payload and consumes
    exactly the frame. -/
theorem decode_frame {c : RustDeskCodec} {p : Bytes} (hraw : c.raw = false)
    (hstate : c.state = .head)
    (hmax : p.length ≤ c.max) (hp : p.length < 2 ^ 30) (rest : Bytes) :
    decode c (frame p ++ rest) = (.ok (some p), c, rest) := by
  have hpos := headLenOf_pos p.length
  have hle := headLenOf_le p.length
  have hfit := lt_of_headLenOf hp
  obtain ⟨h, hh⟩ : ∃ h, headLenOf p.length = h + 1 := ⟨headLenOf p.length - 1, by omega⟩
  have hframe := frame_eq hp
  rw [hh] at hframe hfit
  rw [hh] at hle
  rw [hframe, leBytes, Nat.add_sub_cancel]
  -- the low two bits of the first byte give back the header length
  have hhead : headLen (UInt8.ofNat (p.length * 4 + h)) = h + 1 := by
    rw [headLen_eq, UInt8.toNat_ofNat']
    omega
  have hword : UInt8.ofNat (p.length * 4 + h) :: leBytes h ((p.length * 4 + h) / 256) =
      leBytes (h + 1) (p.length * 4 + h) := rfl
  have htake : (leBytes (h + 1) (p.length * 4 + h) ++ (p ++ rest)).take (h + 1) =
      leBytes (h + 1) (p.length * 4 + h) := by
    rw [List.take_append_of_le_length (by simp), List.take_of_length_le (by simp)]
  have hdrop : (leBytes (h + 1) (p.length * 4 + h) ++ (p ++ rest)).drop (h + 1) = p ++ rest := by
    rw [List.drop_append_of_le_length (by simp), List.drop_of_length_le (by simp), List.nil_append]
  have hvalue : leNat (leBytes (h + 1) (p.length * 4 + h)) / 4 = p.length := by
    rw [leNat_leBytes, Nat.mod_eq_of_lt (by omega)]
    omega
  have hlen : headLen (UInt8.ofNat (p.length * 4 + h)) ≤
      (UInt8.ofNat (p.length * 4 + h) ::
        (leBytes h ((p.length * 4 + h) / 256) ++ (p ++ rest))).length := by
    rw [hhead]
    simp only [List.length_cons, List.length_append, leBytes_length]
    omega
  rw [List.append_assoc, List.cons_append, decode_head hraw hstate hlen, hhead,
    ← List.cons_append, hword, htake, hdrop, hvalue, if_neg (by omega), decodeBody,
    if_neg (by simp), List.take_append_of_le_length (Nat.le_refl _), List.take_length,
    List.drop_append_of_le_length (Nat.le_refl _), List.drop_length, List.nil_append]
  cases c
  simp_all

end RustDeskCodec

/-! ## A whole stream -/

open RustDeskCodec

/-- Encode the payloads one after another into one buffer. -/
def encodeAll (c : RustDeskCodec) : List Bytes → Bytes → Except IoError Unit × Bytes
  | [], dst => (.ok (), dst)
  | p :: ps, dst =>
    match encode c p dst with
    | (.ok (), dst') => encodeAll c ps dst'
    | (.error e, dst') => (.error e, dst')

theorem encodeAll_frames {c : RustDeskCodec} (hraw : c.raw = false) {ps : List Bytes}
    (hmax : ∀ p ∈ ps, p.length ≤ c.max) (dst : Bytes) :
    encodeAll c ps dst = (.ok (), dst ++ (ps.map frame).flatten) := by
  induction ps generalizing dst with
  | nil => simp [encodeAll]
  | cons p ps ih =>
    rw [encodeAll, encode_frame hraw (hmax p (by simp))]
    simp only
    rw [ih (fun q hq => hmax q (by simp [hq])), List.map_cons, List.flatten_cons, List.append_assoc]

theorem drain_frames {c : RustDeskCodec} (hraw : c.raw = false) (hstate : c.state = .head)
    {ps : List Bytes} (hmax : ∀ p ∈ ps, p.length ≤ c.max) (hsmall : c.max < 2 ^ 30) :
    decoder.drain c (ps.map frame).flatten = ⟨ps, none, c, []⟩ := by
  induction ps with
  | nil => exact StreamDecoder.drain_more (decode_nil hraw hstate)
  | cons p ps ih =>
    have hp := hmax p (by simp)
    have hitem := decode_frame hraw hstate hp (by omega) (ps.map frame).flatten
    rw [List.map_cons, List.flatten_cons, StreamDecoder.drain_item hitem,
      ih fun q hq => hmax q (by simp [hq])]
    rfl

/-- Encoding any payloads within the limit succeeds, and a fresh codec that is fed
    the bytes in any chunks yields exactly these payloads, in order, without an
    error, and ends in the `Head` state with nothing buffered. -/
theorem encodeAll_feed {payloads : List Bytes} (hmax : ∀ p ∈ payloads, p.length ≤ MAX_PACKET) :
    ∃ wire, encodeAll new payloads [] = (.ok (), wire) ∧
      ∀ chunks : List Bytes, chunks.flatten = wire →
        decoder.feed new [] chunks = ⟨payloads, none, new, []⟩ := by
  refine ⟨(payloads.map frame).flatten, encodeAll_frames rfl hmax [], ?_⟩
  intro chunks hwire
  have hwait : StreamDecoder.Waiting decoder new [] := decode_nil (c := new) rfl rfl
  rw [decoder_resumable.feed_eq_drain rfl hwait, List.nil_append, hwire]
  exact drain_frames rfl rfl hmax (by decide)

/-- An empty payload, and one cut inside its header and inside its body. -/
theorem encodeAll_feed_pair :
    ∃ wire, encodeAll new [[], [0xaa, 0xbb]] [] = (.ok (), wire) ∧
      ∀ chunks : List Bytes, chunks.flatten = wire →
        decoder.feed new [] chunks = ⟨[[], [0xaa, 0xbb]], none, new, []⟩ :=
  encodeAll_feed (by decide)

end XyzenRelay.Proto
