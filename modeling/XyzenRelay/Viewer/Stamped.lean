-- SUMMARY: The WebCodecs page against the capturers: behind a timestamp it finds no SPS, so it plays nothing a capturer publishes.
import XyzenRelay.Viewer.Playback
import XyzenRelay.Capture.Stamp
import XyzenRelay.Stream.Isolation

/-!
# Stamped frames in the page

The capturers put an eight-byte timestamp in front of every chunk, and the stream
server passes frames on as they are. The page does not take the timestamp off: it
reads the start code and the NAL type from the first bytes of the message.
-/

namespace XyzenRelay.Viewer

open Capture (WallClock toBeBytes emitAll emitAnnexBChunk sampleToAnnexb shiftBytes_eq)
open XyzenRelay.Stream (Server Tagged ServerAction)

/-- The clock reads a time between 1978 and 4253. -/
def Contemporary (wallUs : WallClock) : Prop := 2 ^ 48 ≤ wallUs.toNat ∧ wallUs.toNat < 2 ^ 56

instance (wallUs : WallClock) : Decidable (Contemporary wallUs) :=
  inferInstanceAs (Decidable (_ ∧ _))

/-- A chunk behind the time it was sent. -/
def Stamped (frame : Bytes) : Prop :=
  ∃ wallUs chunk, Contemporary wallUs ∧ frame = toBeBytes wallUs ++ chunk

/-- What the macOS capturer emits is stamped. -/
theorem stamped_emitAll {clock : Nat → WallClock} (h : ∀ i, Contemporary (clock i))
    {chunks : List Bytes} {frame : Bytes} (hframe : frame ∈ emitAll clock chunks) :
    Stamped frame := by
  obtain ⟨i, hi, rfl⟩ := List.mem_mapIdx.mp hframe
  exact ⟨clock i, chunks[i], h i, by rw [emitAnnexBChunk, shiftBytes_eq]⟩

/-- And so is what the Windows capturer makes of a sample. -/
theorem stamped_sampleToAnnexb {wallUs : WallClock} (h : Contemporary wallUs) {bytes frame : Bytes}
    (hframe : frame ∈ sampleToAnnexb wallUs bytes) : Stamped frame := by
  obtain ⟨chunk, -, rfl⟩ := List.mem_map.mp hframe
  exact ⟨wallUs, chunk, h, rfl⟩

theorem toBeBytes_contemporary {wallUs : WallClock} (h : Contemporary wallUs) :
    ∃ b rest, toBeBytes wallUs = 0 :: b :: rest ∧ b ≠ 0 := by
  obtain ⟨hlow, hhigh⟩ := h
  have hfirst : UInt8.ofNat (wallUs.toNat >>> 56) = 0 := by
    rw [Nat.shiftRight_eq_div_pow, Nat.div_eq_of_lt hhigh]
    rfl
  have hsecond : UInt8.ofNat (wallUs.toNat >>> 48) ≠ 0 := by
    intro hzero
    have hnat := congrArg UInt8.toNat hzero
    rw [UInt8.toNat_ofNat', Nat.shiftRight_eq_div_pow] at hnat
    simp only [UInt8.toNat_zero] at hnat
    omega
  refine ⟨_, (List.range' 2 6).map fun i => UInt8.ofNat (wallUs.toNat >>> (8 * (8 - 1 - i))), ?_,
    hsecond⟩
  rw [toBeBytes, Endian.beBytes_eq_map, ← hfirst]
  rfl

/-- The page takes a stamped frame for a NAL of type 0. -/
theorem nalType_stamped {frame : Bytes} (h : Stamped frame) : nalType frame = 0 := by
  obtain ⟨wallUs, chunk, hwall, rfl⟩ := h
  obtain ⟨b, rest, hbytes, hb⟩ := toBeBytes_contemporary hwall
  have hcode : startCodeLen (toBeBytes wallUs ++ chunk) = 0 := by
    simp [startCodeLen, hbytes, hb]
  rw [nalType, hcode, hbytes]
  simp

/-- A player that is fed stamped frames stays as it was. -/
theorem pushAll_stamped {frames : List Bytes} (h : ∀ frame ∈ frames, Stamped frame) :
    Player.fresh.pushAll frames = .fresh := by
  induction frames with
  | nil => rfl
  | cons frame frames ih =>
    rw [List.forall_mem_cons] at h
    have hnot : ¬ Configures frame := fun hconf => by
      have htype := hconf.1
      rw [nalType_stamped h.1] at htype
      revert htype
      decide
    have hstep : Player.fresh.pushAll (frame :: frames) =
        (Player.fresh.pushNal frame).pushAll frames := rfl
    rw [hstep, pushNal_waiting hnot, ih h.2]

/-- A frame a viewer was sent is one that some publisher handler has read. -/
theorem received_of_sent {as : List ServerAction} {t : Server}
    (hrun : Server.machine.run Server.machine.init as = some t) {v : Stream.ViewerId}
    {w : Stream.Viewer} (hw : t.viewers v = some w) {f : Tagged} (hf : f ∈ w.out) :
    .publisher f.session (.item (.binary f.bytes)) ∈ as := by
  obtain ⟨hmem, -⟩ := ((Server.sourced_run hrun).viewers v w hw).out f hf
  obtain ⟨L, K, hsplit⟩ := List.append_of_mem hmem
  obtain ⟨bs, a, cs, u, -, rfl, -, -, ha, -, -, -⟩ :=
    Server.machine.journal_split Server.received hrun hsplit
  have haction : a = .publisher f.session (.item (.binary f.bytes)) := by
    unfold Server.received at ha
    split at ha
    · next i bytes =>
      obtain rfl := Option.some.inj ha
      rfl
    · simp at ha
  rw [← haction]
  simp

/-- Whatever the capturers publish through the stream server, and however its messages
    reach the page, the page never configures its decoder and never decodes anything. -/
theorem page_plays_nothing {as : List ServerAction} {t : Server}
    (hrun : Server.machine.run Server.machine.init as = some t)
    (hstamped : ∀ i frame, .publisher i (.item (.binary frame)) ∈ as → Stamped frame)
    {v : Stream.ViewerId} {w : Stream.Viewer} (hw : t.viewers v = some w)
    {bs : List PageAction} {page : Page}
    (hpage : Page.machine.run Page.machine.init bs = some page)
    (hfed : ∀ data ∈ page.received, data ∈ w.out.map Tagged.bytes) : page.player = .fresh := by
  have hinit : Page.Inv Page.machine.init := rfl
  have hinv : page.player = Player.fresh.pushAll page.received :=
    Page.inv_preserved.run Page.machine hinit hpage
  rw [hinv]
  refine pushAll_stamped fun data hdata => ?_
  obtain ⟨f, hf, rfl⟩ := List.mem_map.mp (hfed data hdata)
  exact hstamped f.session f.bytes (received_of_sent hrun hw hf)

/-- An SPS as a capturer sends it in 2023. -/
def stampedSps : Bytes :=
  toBeBytes (.ofNat 64 1700000000000000) ++ [0, 0, 0, 1, 0x67, 0x42, 0, 0x1f]

def spsSession : List ServerAction :=
  [.publisherConnect "pc", .viewerConnect 0 "pc", .viewer 0 .subscribe, .viewer 0 .snapshot,
    .viewer 0 (.replay true), .publisher 0 (.item (.binary stampedSps)), .publisher 0 .send,
    .viewer 0 (.recv true)]

def spsPage : Page :=
  (Page.machine.run Page.machine.init [.start "pc" true, .message stampedSps]).getD .stop

theorem spsPage_plays_nothing :
    spsPage.received = [stampedSps] ∧ spsPage.player = .fresh := by
  have hrun := Server.machine.run_getD (s := Server.machine.init) spsSession (by decide +kernel)
  obtain ⟨w, hw, hout⟩ : ∃ w, ((Server.machine.run Server.machine.init spsSession).getD
      Server.machine.init).viewers 0 = some w ∧ w.out.map Tagged.bytes = [stampedSps] := by
    refine ⟨_, rfl, ?_⟩
    decide +kernel
  refine ⟨by decide +kernel, page_plays_nothing hrun ?_ hw
    (by rfl : Page.machine.run Page.machine.init [.start "pc" true, .message stampedSps] =
      some spsPage) ?_⟩
  · intro i frame hmem
    obtain ⟨-, rfl⟩ : i = 0 ∧ frame = stampedSps := by simpa [spsSession] using hmem
    exact ⟨_, _, by decide, rfl⟩
  · rw [hout]
    exact fun data hdata => hdata

end XyzenRelay.Viewer
