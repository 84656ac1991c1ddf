-- SUMMARY: What a session of the WebCodecs page has fed its decoder: one configuration, then the received NALs in chunks; and late viewers catch up.
import XyzenRelay.Viewer.WebCodecs
import Mathlib.Data.List.TakeWhile

/-!
# Playback

From the first usable SPS on, the page plays what it receives: the decoder is
configured once, with that SPS, and is then fed every NAL, in order, in chunks.
The first ends with its only IDR, a later one with its only NAL that is neither
SPS nor PPS. The queue holds what is not yet part of a chunk.
-/

namespace XyzenRelay.Viewer

/-! ## Concatenation -/

theorem setAt_zeros (done part : Bytes) (n : Nat) :
    setAt (done ++ List.replicate (part.length + n) 0) done.length part =
      (done ++ part) ++ List.replicate n 0 := by
  have hdrop : (done ++ List.replicate (part.length + n) 0).drop (done.length + part.length) =
      List.replicate n 0 := by
    rw [← List.drop_drop, List.drop_left, List.drop_replicate, Nat.add_sub_cancel_left]
  rw [setAt, List.take_left, hdrop]

theorem concat_eq_flatten (parts : List Bytes) : concat parts = parts.flatten := by
  have hloop : ∀ (parts : List Bytes) (done : Bytes),
      (parts.foldl (fun (out, off) p => (setAt out off p, off + p.length))
        (done ++ List.replicate (parts.map List.length).sum 0, done.length)).1 =
          done ++ parts.flatten := by
    intro parts
    induction parts with
    | nil => simp
    | cons part parts ih =>
      intro done
      simp only [List.foldl_cons, List.map_cons, List.sum_cons]
      rw [setAt_zeros, ← List.length_append, ih]
      simp
  exact hloop parts []

/-! ## The chunks of a stream -/

/-- The NAL that closes a chunk: an IDR closes the first, and everything but an SPS or a
    PPS a later one. -/
def closes : Nat → Bytes → Bool
  | 0, buf => nalType buf = 5
  | _ + 1, buf => ¬ (nalType buf = 7 ∨ nalType buf = 8)

/-- The call that feeds the decoder a chunk. -/
def chunk (batch : List Bytes) : Call :=
  .decode (if batch.getLast?.map nalType = some 5 then .key else .delta) batch.flatten

/-- The player of a configured session that has cut what it received into chunks. -/
def playing (codec : String) (cut : Batches Bytes) : Player where
  configured := true
  sawKey := !cut.closed.isEmpty
  nalQueue := cut.pending
  calls := .configure codec :: cut.closed.map chunk

theorem chunk_concat (queue : List Bytes) (buf : Bytes) :
    chunk (queue ++ [buf]) =
      .decode (if nalType buf = 5 then .key else .delta) (concat (queue ++ [buf])) := by
  simp [chunk, concat_eq_flatten]

theorem pushNal_configured {p : Player} (h : p.configured = true) (buf : Bytes) :
    p.pushNal buf = p.feed buf := if_pos h

theorem feed_playing (codec : String) (cut : Batches Bytes) (buf : Bytes) :
    (playing codec cut).feed buf = playing codec (cut.push closes buf) := by
  cases hclosed : cut.closed with
  | nil =>
    by_cases hidr : nalType buf = 5
    · rw [Batches.push_closing (by simp [hclosed, closes, hidr])]
      simp [playing, Player.feed, hclosed, hidr, chunk_concat]
    · rw [Batches.push_open (by simp [hclosed, closes, hidr])]
      simp [playing, Player.feed, hclosed, hidr]
  | cons batch batches =>
    by_cases hparam : nalType buf = 7 ∨ nalType buf = 8
    · rw [Batches.push_open (by simp [hclosed, closes, hparam])]
      simp [playing, Player.feed, hclosed, hparam]
    · rw [Batches.push_closing (by simp [hclosed, closes, hparam])]
      simp [playing, Player.feed, hclosed, hparam, chunk_concat]

/-! ## The first usable SPS -/

/-- The NAL configures a decoder: an SPS with profile, constraints and level. -/
def Configures (buf : Bytes) : Prop := nalType buf = 7 ∧ (codecStringFromSps buf).isSome

instance (buf : Bytes) : Decidable (Configures buf) := inferInstanceAs (Decidable (_ ∧ _))

theorem pushNal_waiting {buf : Bytes} (h : ¬ Configures buf) :
    Player.fresh.pushNal buf = .fresh := by
  rw [Player.pushNal, if_neg (by simp [Player.fresh])]
  split_ifs with htype
  · rfl
  · cases hcodec : codecStringFromSps buf with
    | none => rfl
    | some codec => exact absurd ⟨by simpa using htype, by simp [hcodec]⟩ h

theorem pushNal_configures {sps : Bytes} {codec : String} (htype : nalType sps = 7)
    (hcodec : codecStringFromSps sps = some codec) :
    Player.fresh.pushNal sps = playing codec (Batches.empty.push closes sps) := by
  rw [← feed_playing, Player.pushNal, if_neg (by simp [Player.fresh]), if_neg (by simp [htype]),
    hcodec]
  rfl

/-- What a session that received `received` has done with it. -/
inductive Plays (received : List Bytes) : Player → Prop where
  | waiting (hnone : ∀ buf ∈ received, ¬ Configures buf) : Plays received .fresh
  | playing {skipped heard : List Bytes} {sps : Bytes} {codec : String} {cut : Batches Bytes}
    (hreceived : received = skipped ++ sps :: heard)
    (hskipped : ∀ buf ∈ skipped, ¬ Configures buf)
    (htype : nalType sps = 7) (hcodec : codecStringFromSps sps = some codec)
    (hcut : cut.WellCut closes) (hheard : cut.elements = sps :: heard) :
    Plays received (playing codec cut)

theorem plays_pushAll (received : List Bytes) : Plays received (Player.fresh.pushAll received) := by
  induction received using List.reverseRecOn with
  | nil => exact .waiting (by simp)
  | append_singleton received buf ih =>
    have hlast : Player.fresh.pushAll (received ++ [buf]) =
        (Player.fresh.pushAll received).pushNal buf := by
      simp [Player.pushAll]
    rw [hlast]
    generalize Player.fresh.pushAll received = p at ih
    cases ih with
    | waiting hnone =>
      by_cases hbuf : Configures buf
      · obtain ⟨codec, hcodec⟩ := Option.isSome_iff_exists.mp hbuf.2
        rw [pushNal_configures hbuf.1 hcodec]
        exact .playing rfl hnone hbuf.1 hcodec Batches.wellCut_empty.push
          (by rw [Batches.elements_push]; rfl)
      · rw [pushNal_waiting hbuf]
        refine .waiting fun b hb => ?_
        rcases List.mem_append.mp hb with hb | hb
        · exact hnone b hb
        · rwa [List.mem_singleton.mp hb]
    | @playing skipped heard sps codec cut hreceived hskipped htype hcodec hcut hheard =>
      rw [pushNal_configured rfl, feed_playing]
      refine .playing (?_ : received ++ [buf] = skipped ++ sps :: (heard ++ [buf])) hskipped
        htype hcodec hcut.push ?_
      · simp [hreceived]
      · simp [hheard]

/-- The bytes a call hands to the decoder. -/
def Call.data : Call → Bytes
  | .configure _ => []
  | .decode _ data => data

/-- Decoder and queue together hold everything from the first usable SPS on. -/
theorem Plays.bytes {received : List Bytes} {p : Player} (h : Plays received p) :
    p.calls.flatMap Call.data ++ p.nalQueue.flatten =
      (received.dropWhile fun buf => ¬ Configures buf).flatten := by
  cases h with
  | waiting hnone =>
    have hdrop : (received.dropWhile fun buf => ¬ Configures buf) = [] :=
      List.dropWhile_eq_nil_iff.mpr fun buf hbuf => by simpa using hnone buf hbuf
    rw [hdrop]
    rfl
  | @playing skipped heard sps codec cut hreceived hskipped htype hcodec hcut hheard =>
    have hdrop : (received.dropWhile fun buf => ¬ Configures buf) = sps :: heard := by
      rw [hreceived, List.dropWhile_append_of_pos fun buf hbuf => by simpa using hskipped buf hbuf,
        List.dropWhile_cons_of_neg]
      simp [Configures, htype, hcodec]
    have hdata : cut.closed.flatMap (fun batch => (chunk batch).data) =
        cut.closed.flatten.flatten := by
      induction cut.closed with
      | nil => rfl
      | cons batch batches ih =>
        rw [List.flatMap_cons, ih, List.flatten_cons, List.flatten_append]
        rfl
    rw [hdrop, ← hheard, Batches.elements, List.flatten_append, ← hdata]
    simp [Viewer.playing, Call.data, List.flatMap_map]

/-! ## Sessions -/

/-- The player is what the messages of the session make of a fresh one. -/
def Page.Inv (s : Page) : Prop := s.player = Player.fresh.pushAll s.received

theorem Page.inv_preserved : Page.machine.Preserves Page.Inv := by
  intro s a s' hs h
  cases a with
  | start peer webCodecs =>
    obtain rfl : Page.start peer webCodecs = s' := Option.some.inj h
    unfold Page.start
    split_ifs <;> rfl
  | stop =>
    obtain rfl : Page.stop = s' := Option.some.inj h
    rfl
  | message data =>
    simp only [Page.machine, Page.step, Option.ite_none_right_eq_some, Option.some.injEq] at h
    obtain ⟨-, rfl⟩ := h
    simp only [Page.Inv] at hs
    simp [Page.Inv, hs, Player.pushAll]
  | close =>
    simp only [Page.machine, Page.step, Option.ite_none_right_eq_some, Option.some.injEq] at h
    obtain ⟨-, rfl⟩ := h
    exact hs

/-- However the page is started, stopped and fed, its decoder has been given the stream
    of the running session: no call before the first usable SPS, one configuration, and
    then every NAL once and in order, in chunks that are closed by their last NAL. -/
theorem session_plays {as : List PageAction} {s : Page}
    (h : Page.machine.run Page.machine.init as = some s) :
    Plays s.received s.player ∧
      s.player.calls.flatMap Call.data ++ s.player.nalQueue.flatten =
        (s.received.dropWhile fun buf => ¬ Configures buf).flatten := by
  have hinit : Page.Inv Page.machine.init := rfl
  have hinv : s.player = Player.fresh.pushAll s.received :=
    Page.inv_preserved.run Page.machine hinit h
  have hplays := plays_pushAll s.received
  rw [← hinv] at hplays
  exact ⟨hplays, hplays.bytes⟩

/-- A session that is restarted: a stray PPS, an SPS, a PPS, an IDR and a delta. -/
def restarted : List PageAction :=
  [.start "a" true, .message [0, 0, 1, 0x67, 1, 2, 3], .start "b" true, .message [0, 0, 1, 0x68, 1],
    .message [0, 0, 0, 1, 0x67, 0x42, 0, 0x1f], .message [0, 0, 1, 0x68, 2],
    .message [0, 0, 1, 0x65, 3], .message [0, 0, 1, 0x41, 4], .close]

def restartedPage : Page := (Page.machine.run Page.machine.init restarted).getD .stop

theorem session_plays_restarted :
    restartedPage.player.calls =
        [.configure "avc1.42001F",
          .decode .key [0, 0, 0, 1, 0x67, 0x42, 0, 0x1f, 0, 0, 1, 0x68, 2, 0, 0, 1, 0x65, 3],
          .decode .delta [0, 0, 1, 0x41, 4]] ∧
      Plays restartedPage.received restartedPage.player ∧
      restartedPage.player.calls.flatMap Call.data ++ restartedPage.player.nalQueue.flatten =
        (restartedPage.received.dropWhile fun buf => ¬ Configures buf).flatten :=
  ⟨by decide, session_plays (by rfl :
    Page.machine.run Page.machine.init restarted = some restartedPage)⟩

/-! ## Late viewers -/

/-- A configured player between two chunks, once it has seen a key. -/
def steady : Player := ⟨true, true, [], []⟩

namespace Player

/-- The player with earlier calls in front. -/
def after (p : Player) (calls : List Call) : Player := { p with calls := calls ++ p.calls }

theorem feed_after (p : Player) (calls : List Call) (buf : Bytes) :
    (p.after calls).feed buf = (p.feed buf).after calls := by
  obtain ⟨configured, sawKey, queue, earlier⟩ := p
  cases sawKey with
  | false => by_cases hidr : nalType buf = 5 <;> simp [feed, after, hidr]
  | true => by_cases hparam : nalType buf = 7 ∨ nalType buf = 8 <;> simp [feed, after, hparam]

theorem feed_configured (p : Player) (buf : Bytes) : (p.feed buf).configured = p.configured := by
  simp only [feed]
  split_ifs <;> rfl

theorem pushNal_stays_configured {p : Player} (h : p.configured = true) (buf : Bytes) :
    (p.pushNal buf).configured = true := by
  rw [pushNal_configured h, feed_configured, h]

theorem pushAll_stays_configured {p : Player} (h : p.configured = true) (bufs : List Bytes) :
    (p.pushAll bufs).configured = true := by
  induction bufs generalizing p with
  | nil => exact h
  | cons buf bufs ih => exact ih (pushNal_stays_configured h buf)

/-- Earlier calls do not change what a configured player does. -/
theorem pushAll_after {p : Player} (h : p.configured = true) (calls : List Call)
    (bufs : List Bytes) : (p.after calls).pushAll bufs = (p.pushAll bufs).after calls := by
  induction bufs generalizing p with
  | nil => rfl
  | cons buf bufs ih =>
    have hstep : (p.after calls).pushNal buf = (p.pushNal buf).after calls := by
      rw [pushNal_configured (p := p.after calls) h, pushNal_configured h, feed_after]
    have hrest := ih (pushNal_stays_configured h buf)
    rw [← hstep] at hrest
    exact hrest

theorem configured_of_mem {bufs : List Bytes} {sps : Bytes} (hmem : sps ∈ bufs)
    (hsps : Configures sps) (p : Player) : (p.pushAll bufs).configured = true := by
  obtain ⟨before, later, rfl⟩ := List.append_of_mem hmem
  have hpush : ((p.pushAll before).pushNal sps).configured = true := by
    by_cases hp : (p.pushAll before).configured = true
    · exact pushNal_stays_configured hp sps
    · obtain ⟨codec, hcodec⟩ := Option.isSome_iff_exists.mp hsps.2
      rw [pushNal, if_neg hp, if_neg (by simp [hsps.1]), hcodec]
      simp only [feed_configured]
  have hsplit : p.pushAll (before ++ sps :: later) =
      ((p.pushAll before).pushNal sps).pushAll later := by
    simp [pushAll]
  rw [hsplit]
  exact pushAll_stays_configured hpush later

/-- An IDR empties the queue of a configured player, whatever it held. -/
theorem pushNal_idr {p : Player} (h : p.configured = true) {idr : Bytes} (hidr : nalType idr = 5) :
    p.pushNal idr = steady.after
      (p.calls ++ [.decode .key (concat (p.nalQueue ++ [idr]))]) := by
  rw [pushNal_configured h]
  obtain ⟨configured, sawKey, queue, calls⟩ := p
  obtain rfl : configured = true := h
  cases sawKey <;> simp [feed, hidr, steady, after]

end Player

/-- The calls end with a key chunk whose last NAL is `idr`. -/
def EndsWithKey (idr : Bytes) (calls : List Call) : Prop :=
  ∃ earlier data, calls = earlier ++ [.decode .key data] ∧ idr <:+ data

/-- Behind an SPS, an IDR leaves a player in one state, up to the calls made so far. -/
theorem resumes {bufs : List Bytes} {sps idr : Bytes} (hmem : sps ∈ bufs) (hsps : Configures sps)
    (hidr : nalType idr = 5) (later : List Bytes) :
    ∃ calls, EndsWithKey idr calls ∧
      Player.fresh.pushAll (bufs ++ idr :: later) = (steady.pushAll later).after calls := by
  have hconf := Player.configured_of_mem hmem hsps .fresh
  have hsplit : Player.fresh.pushAll (bufs ++ idr :: later) =
      ((Player.fresh.pushAll bufs).pushNal idr).pushAll later := by
    simp [Player.pushAll]
  rw [hsplit, Player.pushNal_idr hconf hidr, Player.pushAll_after rfl]
  exact ⟨_, ⟨_, _, rfl, by simp [concat_eq_flatten]⟩, rfl⟩

/-- A viewer that has missed the beginning of a stream and one that has not both feed
    their decoders a key chunk that ends with the first IDR behind an SPS, and from then
    on the same chunks. -/
theorem late_viewer_catches_up {as bs : List PageAction} {early late : Page}
    (hearly : Page.machine.run Page.machine.init as = some early)
    (hlate : Page.machine.run Page.machine.init bs = some late)
    {missed bufs later : List Bytes} {sps idr : Bytes}
    (hmissed : early.received = missed ++ late.received)
    (hreceived : late.received = bufs ++ idr :: later)
    (hmem : sps ∈ bufs) (hsps : Configures sps) (hidr : nalType idr = 5) :
    ∃ p earlyCalls lateCalls, early.player = p.after earlyCalls ∧ late.player = p.after lateCalls ∧
      EndsWithKey idr earlyCalls ∧ EndsWithKey idr lateCalls ∧ p = steady.pushAll later := by
  have hinit : Page.Inv Page.machine.init := rfl
  have hearlyInv : early.player = Player.fresh.pushAll early.received :=
    Page.inv_preserved.run Page.machine hinit hearly
  have hlateInv : late.player = Player.fresh.pushAll late.received :=
    Page.inv_preserved.run Page.machine hinit hlate
  obtain ⟨lateCalls, hlateEnds, hlatePlays⟩ := resumes hmem hsps hidr later
  obtain ⟨earlyCalls, hearlyEnds, hearlyPlays⟩ :=
    resumes (List.mem_append_right missed hmem) hsps hidr later
  rw [List.append_assoc, ← hreceived, ← hmissed, ← hearlyInv] at hearlyPlays
  rw [← hreceived, ← hlateInv] at hlatePlays
  exact ⟨_, earlyCalls, lateCalls, hearlyPlays, hlatePlays, hearlyEnds, hlateEnds, rfl⟩

/-- What `restarted` receives in its last session, with two pictures in front. -/
def wholeStream : List PageAction :=
  [.start "b" true, .message [0, 0, 0, 1, 0x67, 0x64, 0, 0x28], .message [0, 0, 1, 0x65, 9],
    .message [0, 0, 1, 0x41, 8], .message [0, 0, 1, 0x68, 1],
    .message [0, 0, 0, 1, 0x67, 0x42, 0, 0x1f], .message [0, 0, 1, 0x68, 2],
    .message [0, 0, 1, 0x65, 3], .message [0, 0, 1, 0x41, 4]]

def wholePage : Page := (Page.machine.run Page.machine.init wholeStream).getD .stop

def lateSps : Bytes := [0, 0, 0, 1, 0x67, 0x42, 0, 0x1f]

def lateParams : List Bytes := [[0, 0, 1, 0x68, 1], lateSps, [0, 0, 1, 0x68, 2]]

theorem restarted_catches_up :
    ∃ p earlyCalls lateCalls, wholePage.player = p.after earlyCalls ∧
      restartedPage.player = p.after lateCalls ∧ EndsWithKey [0, 0, 1, 0x65, 3] earlyCalls ∧
      EndsWithKey [0, 0, 1, 0x65, 3] lateCalls ∧ p = steady.pushAll [[0, 0, 1, 0x41, 4]] :=
  late_viewer_catches_up
    (by rfl : Page.machine.run Page.machine.init wholeStream = some wholePage)
    (by rfl : Page.machine.run Page.machine.init restarted = some restartedPage)
    (by decide : wholePage.received =
      [[0, 0, 0, 1, 0x67, 0x64, 0, 0x28], [0, 0, 1, 0x65, 9], [0, 0, 1, 0x41, 8]] ++
        restartedPage.received)
    (by decide : restartedPage.received =
      lateParams ++ [0, 0, 1, 0x65, 3] :: [[0, 0, 1, 0x41, 4]])
    (by decide : lateSps ∈ lateParams) (by decide) (by decide)

end XyzenRelay.Viewer
