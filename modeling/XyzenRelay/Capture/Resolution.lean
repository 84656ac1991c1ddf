-- SUMMARY: Whether the macOS capturer keeps its encoder over resolution changes: exactly if VideoToolbox never refuses a new session.
import XyzenRelay.Capture.MacCapturer

/-!
# Resolution changes

A resolution change gives up the old encoder before it asks for a new one. The other
calls keep the encoder. So a started capturer stays usable exactly as long as no change
gets as far as a new session and VideoToolbox refuses it.
-/

namespace XyzenRelay.Capture.Mac

variable {p : Process} {a : Call}

theorem Completion.wait_eq_ok {update : Completion Unit} {timeout : NSError} :
    update.wait timeout = .ok () ↔ update.Done := by
  rcases update with _ | ⟨-, _ | e⟩ <;> simp [wait, Done]

namespace VideoToolbox

variable {vt vt' : VideoToolbox}

/-- The sessions that were invalidated were created before. -/
def Numbered (vt : VideoToolbox) : Prop := ∀ id ∈ vt.invalidated, id < vt.created

/-- At most some sessions were created. -/
structure Grows (vt vt' : VideoToolbox) : Prop where
  created : vt.created ≤ vt'.created
  invalidated : vt'.invalidated = vt.invalidated

theorem Live.mono {id : SessionId} (h : vt.Live id) (hgrows : Grows vt vt') : vt'.Live id :=
  ⟨Nat.lt_of_lt_of_le h.1 hgrows.created, hgrows.invalidated ▸ h.2⟩

theorem Numbered.mono (h : vt.Numbered) (hgrows : Grows vt vt') : vt'.Numbered := fun id hid =>
  Nat.lt_of_lt_of_le (h id (hgrows.invalidated ▸ hid)) hgrows.created

end VideoToolbox

namespace MacCapturer

variable {α β : Type} {s : MacCapturer × VideoToolbox}

-- ---------------------------------------------------------------------------
-- Methods that keep the encoder
-- ---------------------------------------------------------------------------

/-- The capturer has the size and the session it had, and still a stream. -/
structure SameEncoder (c c' : MacCapturer) : Prop where
  width : c'.width = c.width
  height : c'.height = c.height
  origin : c'.encoder.map (·.origin) = c.encoder.map (·.origin)
  stream : c.stream.isSome → c'.stream.isSome

theorem SameEncoder.refl (c : MacCapturer) : SameEncoder c c := ⟨rfl, rfl, rfl, id⟩

theorem SameEncoder.trans {c₁ c₂ c₃ : MacCapturer} (h : SameEncoder c₁ c₂)
    (h' : SameEncoder c₂ c₃) : SameEncoder c₁ c₃ :=
  ⟨h'.width.trans h.width, h'.height.trans h.height, h'.origin.trans h.origin, h'.stream ∘ h.stream⟩

/-- Whatever it returns, the method keeps the encoder and leaves VideoToolbox alone. -/
def Keeps (m : Method α) : Prop := ∀ s, SameEncoder s.1 (m s).2.1 ∧ (m s).2.2 = s.2

theorem Keeps.pure (a : α) : Keeps (Pure.pure a) := fun s => ⟨.refl s.1, rfl⟩

theorem Keeps.throw (e : NSError) : Keeps (throw e : Method α) := fun s => ⟨.refl s.1, rfl⟩

theorem Keeps.get : Keeps get := fun s => ⟨.refl s.1, rfl⟩

theorem Keeps.wait (c : Completion α) (timeout : NSError) : Keeps (wait c timeout) :=
  fun s => ⟨.refl s.1, rfl⟩

theorem Keeps.modify {f : MacCapturer → MacCapturer} (h : ∀ c, SameEncoder c (f c)) :
    Keeps (modify f) :=
  fun s => ⟨h s.1, rfl⟩

theorem Keeps.bind {x : Method α} {f : α → Method β} (hx : Keeps x) (hf : ∀ a, Keeps (f a)) :
    Keeps (x >>= f) := by
  intro s
  have hxs := hx s
  rw [bind_apply]
  rcases hrun : x s with ⟨e | a, s'⟩
  · simpa only [hrun] using hxs
  · rw [hrun] at hxs
    obtain ⟨hsame, hvt⟩ := hf a s'
    exact ⟨hxs.1.trans hsame, hvt.trans hxs.2⟩

theorem fetchShareableContent_keeps (content : Completion (Option (List UInt32))) :
    Keeps (fetchShareableContent content) := by
  refine (Keeps.wait _ _).bind fun result => ?_
  cases result with
  | none => exact .throw _
  | some displays => exact .pure _

theorem startCapture_keeps (answers : StartAnswers) : Keeps (startCapture answers) := by
  refine (fetchShareableContent_keeps _).bind fun displays => Keeps.get.bind fun c => ?_
  split
  · refine Keeps.bind (.modify ?_) fun _ => Keeps.get.bind fun c => ?_
    · exact fun c => ⟨rfl, rfl, rfl, id⟩
    split
    · exact (Keeps.throw _).bind fun _ => .modify fun _ => ⟨rfl, rfl, rfl, fun _ => rfl⟩
    · exact (Keeps.wait _ _).bind fun _ => .modify fun _ => ⟨rfl, rfl, rfl, fun _ => rfl⟩
  · exact .throw _

theorem selectDisplay_keeps (id : UInt32) (content : Completion (Option (List UInt32)))
    (update : Completion Unit) :
    Keeps (selectDisplay id content update) := by
  refine Keeps.get.bind fun c => ?_
  split
  · split
    · exact .pure _
    · refine (fetchShareableContent_keeps _).bind fun displays => ?_
      split
      · exact (Keeps.wait _ _).bind fun _ => .modify fun _ => ⟨rfl, rfl, rfl, fun _ => rfl⟩
      · exact (Keeps.throw _).bind fun _ => (Keeps.wait _ _).bind fun _ => .modify fun _ =>
          ⟨rfl, rfl, rfl, fun _ => rfl⟩
  · exact .throw _

theorem setFps_keeps (newFps : Int) (update : Completion Unit) (statuses : FrameRateStatuses) :
    Keeps (setFps newFps update statuses) := by
  refine Keeps.get.bind fun c => ?_
  split
  · exact .pure _
  · split
    · refine (Keeps.wait _ _).bind fun _ => .modify fun c => ⟨rfl, rfl, ?_, fun _ => rfl⟩
      rw [Option.map_map]
      rfl
    · exact .throw _

/-- The method returns only where `Q` holds. -/
def Ends (Q : MacCapturer → Prop) (m : Method α) : Prop := ∀ s, (m s).1.isOk → Q (m s).2.1

theorem Ends.bind {Q : MacCapturer → Prop} {x : Method α} {f : α → Method β}
    (hf : ∀ a, Ends Q (f a)) :
    Ends Q (x >>= f) := by
  intro s
  rw [bind_apply]
  rcases x s with ⟨e | a, s'⟩
  · intro hok
    cases hok
  · exact hf a s'

theorem Ends.throw {Q : MacCapturer → Prop} (e : NSError) : Ends Q (throw e : Method α) :=
  fun _ hok => by cases hok

theorem startCapture_ends (answers : StartAnswers) : Ends (fun c => c.stream.isSome)
    (startCapture answers) := by
  refine .bind fun displays => .bind fun c => ?_
  split
  · refine .bind fun _ => .bind fun c => ?_
    split <;> exact .bind fun _ => fun _ _ => rfl
  · exact .throw _

-- ---------------------------------------------------------------------------
-- A new session, and the change of the size
-- ---------------------------------------------------------------------------

/-- The capturer has a live session of its size. -/
def Encodes (s : MacCapturer × VideoToolbox) : Prop :=
  ∃ e ∈ s.1.encoder, s.2.Live e.id ∧ e.width = s.1.width ∧ e.height = s.1.height

theorem Encodes.same {s' : MacCapturer × VideoToolbox} (h : Encodes s)
    (hsame : SameEncoder s.1 s'.1)
    (hlive : ∀ id, s.2.Live id → s'.2.Live id) : Encodes s' := by
  obtain ⟨e, he, helive, hwidth, hheight⟩ := h
  have horigin := hsame.origin
  rw [Option.mem_def.mp he, Option.map_some, Option.map_eq_some_iff] at horigin
  obtain ⟨e', he', heq⟩ := horigin
  simp only [VTCompressionSession.origin, Prod.mk.injEq] at heq
  obtain ⟨hid, hw, hh⟩ := heq
  refine ⟨e', he', hlive _ (hid ▸ helive), ?_, ?_⟩
  · rw [hw, hwidth, hsame.width]
  · rw [hh, hheight, hsame.height]

theorem makeEncoder_ok {create : Creation} (h : create.Succeeded) (hs : s.2.Numbered) :
    ∃ e,
      makeEncoder create s =
        (.ok (), { s.1 with encoder := some e }, { s.2 with created := s.2.created + 1 }) ∧
      Encodes (makeEncoder create s).2 := by
  rw [makeEncoder, if_pos h]
  refine ⟨_, rfl, _, rfl, ⟨Nat.lt_succ_self _, fun hmem => ?_⟩, rfl, rfl⟩
  exact Nat.lt_irrefl _ (hs _ hmem)

theorem makeEncoder_error {create : Creation} (h : ¬ create.Succeeded) :
    makeEncoder create s =
      (.error (macCapturerError create.status "VTCompressionSessionCreate(HEVC)"), s) :=
        if_neg h

theorem start_ok {create : Creation} (answers : StartAnswers) (h : create.Succeeded)
    (hs : s.2.Numbered)
    (hok : (start create answers s).1.isOk) :
    Encodes (start create answers s).2 ∧ (start create answers s).2.1.stream.isSome := by
  obtain ⟨e, hmake, hencodes⟩ := makeEncoder_ok h hs
  obtain ⟨hsame, hvt⟩ := startCapture_keeps answers (makeEncoder create s).2
  have hrun : start create answers s = startCapture answers (makeEncoder create s).2 := by
    rw [start, bind_apply, hmake]
  rw [hrun] at hok ⊢
  exact ⟨hencodes.same hsame (hvt ▸ fun _ => id), startCapture_ends answers _ hok⟩

theorem start_grows (create : Creation) (answers : StartAnswers) :
    s.2.Grows (start create answers s).2.2 := by
  rw [start, bind_apply]
  by_cases h : create.Succeeded
  · rw [makeEncoder, if_pos h]
    obtain ⟨-, hvt⟩ := startCapture_keeps answers (makeEncoder create s).2
    rw [makeEncoder, if_pos h] at hvt
    exact ⟨by simp [hvt], by simp [hvt]⟩
  · rw [makeEncoder_error h]
    exact ⟨Nat.le_refl _, rfl⟩

/-- The state in which a change of the size asks for its new session. -/
def givenUp (stream : SCStream) (newW newH : Int) (s : MacCapturer × VideoToolbox) :
    MacCapturer × VideoToolbox :=
  ({ s.1 with
      stream := some { stream with configuration := configuration newW newH s.1.fps }
      encoder := none
      width := newW
      height := newH },
    { s.2 with invalidated := (s.1.encoder.map (·.id)).toList ++ s.2.invalidated })

theorem givenUp_numbered (stream : SCStream) (newW newH : Int) (h : Encodes s) (hs : s.2.Numbered) :
    (givenUp stream newW newH s).2.Numbered := by
  obtain ⟨e, he, hlive, -, -⟩ := h
  intro id hid
  rw [givenUp, Option.mem_def.mp he] at hid
  rcases List.mem_append.mp hid with hid | hid
  · obtain rfl : id = e.id := by simpa using hid
    exact hlive.1
  · exact hs id hid

theorem setResolution_same {newW newH : Int} (update : Completion Unit) (create : Creation)
    (h : newW = s.1.width ∧ newH = s.1.height) :
    setResolution newW newH update create s = (.ok (), s) := by
  simp [setResolution, h]

theorem setResolution_refused {newW newH : Int} {update : Completion Unit} (create : Creation)
    (h : ¬ (newW = s.1.width ∧ newH = s.1.height))
    (hupdate : s.1.stream.isSome → ¬ update.Done) :
    ∃ e, setResolution newW newH update create s = (.error e, s) := by
  cases hstream : s.1.stream with
  | none => exact ⟨macCapturerError (-30) "stream not started", by simp [setResolution, h, hstream]⟩
  | some stream =>
    cases hwait : update.wait (macCapturerError (-31) "updateConfiguration timeout") with
    | error e => exact ⟨e, by simp [setResolution, h, hstream, hwait]⟩
    | ok => exact absurd (Completion.wait_eq_ok.mp hwait) (hupdate (by simp [hstream]))

theorem setResolution_done {newW newH : Int} {update : Completion Unit} {stream : SCStream}
    (create : Creation)
    (h : ¬ (newW = s.1.width ∧ newH = s.1.height)) (hupdate : update.Done)
    (hstream : s.1.stream = some stream) :
    setResolution newW newH update create s = makeEncoder create (givenUp stream newW newH s) := by
  have hwait : update.wait (macCapturerError (-31) "updateConfiguration timeout") = .ok () :=
    Completion.wait_eq_ok.mpr hupdate
  simp [setResolution, h, hstream, hwait, invalidateEncoder, givenUp]

end MacCapturer

-- ---------------------------------------------------------------------------
-- Calls
-- ---------------------------------------------------------------------------

open MacCapturer

namespace Process

/-- The running capturer has a live session of its size. -/
def Usable (p : Process) : Prop := ∀ c ∈ p.sharedCapturer, Encodes (c, p.videoToolbox)

/-- What `Usable` needs to survive a call. -/
structure Sound (p : Process) : Prop where
  usable : p.Usable
  stream : ∀ c ∈ p.sharedCapturer, c.stream.isSome
  numbered : p.videoToolbox.Numbered

/-- A resolution change that fails changes nothing, and one that succeeds leaves a live
    session of the size it was called with. -/
def Honoured (p : Process) : Call → Prop
  | .setResolution width height update create =>
    ((p.setResolution width height update create).1 ≠ 0 →
      ∀ c ∈ p.sharedCapturer, ∃ c' ∈ (p.setResolution width height update create).2.sharedCapturer,
        c'.width = c.width ∧ c'.height = c.height ∧ c'.encoder = c.encoder) ∧
    ((p.setResolution width height update create).1 = 0 →
      ∃ c' ∈ (p.setResolution width height update create).2.sharedCapturer, ∃ e ∈ c'.encoder,
        (p.setResolution width height update create).2.videoToolbox.Live e.id ∧
          e.width = clamp 160 7680 width ∧ e.height = clamp 120 4320 height)
  | _ => True

/-- A resolution change that gets as far as a new session is given one. -/
def SessionGiven (p : Process) : Call → Prop
  | .setResolution width height update create =>
    ∀ c ∈ p.sharedCapturer, ¬ (clamp 160 7680 width = c.width ∧ clamp 120 4320 height = c.height) →
      update.Done → create.Succeeded
  | _ => True

theorem retune_keeps {m : Method Unit} (h : Keeps m) (hp : p.Sound) : (p.retune m).2.Sound := by
  cases hc : p.sharedCapturer with
  | none => simpa only [retune, hc] using hp
  | some c =>
    obtain ⟨hsame, hvt⟩ := h (c, p.videoToolbox)
    have hrun : (p.retune m).2 = ⟨some (m (c, p.videoToolbox)).2.1,
        (m (c, p.videoToolbox)).2.2⟩ := by
      simp only [retune, hc]
      split <;> next heq => rw [heq]
    rw [hrun, hvt]
    refine ⟨fun c' hc' => ?_, fun c' hc' => ?_, hp.numbered⟩ <;> obtain rfl := Option.some.inj hc'
    · exact (hp.usable c hc).same hsame fun _ => id
    · exact hsame.stream (hp.stream c hc)

theorem start_sound (args : StartArgs) (create : Creation) (answers : StartAnswers) (hp : p.Sound) :
    (p.start args create answers).2.Sound := by
  simp only [start]
  generalize MacCapturer.init args.width.toInt args.height.toInt args.fps.toInt
    args.bitrateKbps.toInt
    (if args.displayId = 0 then none else some args.displayId) = s
  have hgrows : p.videoToolbox.Grows (MacCapturer.start create answers (s, p.videoToolbox)).2.2 :=
    start_grows (s := (s, p.videoToolbox)) create answers
  rcases hrun : MacCapturer.start create answers (s, p.videoToolbox) with ⟨e | _, s', vt⟩
  · rw [hrun] at hgrows
    exact ⟨fun c hc => (hp.usable c hc).same (.refl c) fun id hid => hid.mono hgrows, hp.stream,
      hp.numbered.mono hgrows⟩
  · have hcreate : create.Succeeded := by
      by_contra hnot
      rw [MacCapturer.start, bind_apply, makeEncoder_error hnot] at hrun
      cases hrun
    obtain ⟨hencodes, hstream⟩ :=
      start_ok (s := (s, p.videoToolbox)) answers hcreate hp.numbered (by rw [hrun]; rfl)
    rw [hrun] at hgrows hencodes hstream
    refine ⟨fun c hc => ?_, fun c hc => ?_, hp.numbered.mono hgrows⟩ <;> obtain rfl :=
      Option.some.inj hc
    · exact hencodes
    · exact hstream

theorem setBitrate_sound (kbps : Int32) (status : Int) (hp : p.Sound) :
    (p.setBitrate kbps status).2.Sound := by
  unfold setBitrate
  split
  · exact hp
  · next c hc =>
    split
    · exact hp
    · next e he =>
      dsimp only
      split
      · exact hp
      · refine ⟨fun c' hc' => ?_, fun c' hc' => ?_, hp.numbered⟩ <;> obtain rfl :=
          Option.some.inj hc'
        · refine (hp.usable c hc).same ⟨rfl, rfl, ?_, id⟩ fun _ => id
          simp only [he, Option.map_some]
          rfl
        · exact hp.stream c hc

/-- What a resolution change comes to. -/
inductive Resized (p : Process) (c : MacCapturer) (w h : Int) (update : Completion Unit)
    (create : Creation) :
    Int × Process → Prop where
  | same (hsize : w = c.width ∧ h = c.height) : Resized p c w h update create (0, p)
  | refused (hsize : ¬ (w = c.width ∧ h = c.height)) (hupdate : ¬ update.Done) :
    Resized p c w h update create (2, p)
  | rebuilt {c' : MacCapturer} {vt' : VideoToolbox} (hcreate : create.Succeeded)
    (hwidth : c'.width = w)
      (hheight : c'.height = h) (hencodes : Encodes (c', vt')) (hstream : c'.stream.isSome)
      (hnumbered : vt'.Numbered) :
      Resized p c w h update create (0, ⟨some c', vt'⟩)
  | lost {c' : MacCapturer} {vt' : VideoToolbox} (hsize : ¬ (w = c.width ∧ h = c.height))
    (hupdate : update.Done)
      (hcreate : ¬ create.Succeeded) (hencoder : c'.encoder = none) :
      Resized p c w h update create (2, ⟨some c', vt'⟩)

theorem resized {c : MacCapturer} (hp : p.Sound) (hc : p.sharedCapturer = some c)
    (width height : Int32)
    (update : Completion Unit) (create : Creation) :
    Resized p c (clamp 160 7680 width) (clamp 120 4320 height) update create
      (p.setResolution width height update create) := by
  have hself : (⟨some c, p.videoToolbox⟩ : Process) = p := by rw [← hc]
  simp only [setResolution, retune, hc]
  generalize clamp 160 7680 width = w, clamp 120 4320 height = h
  by_cases hsize : w = c.width ∧ h = c.height
  · rw [setResolution_same (s := (c, p.videoToolbox)) update create hsize]
    simp only [hself]
    exact .same hsize
  by_cases hupdate : update.Done
  · obtain ⟨stream, hstream⟩ := Option.isSome_iff_exists.mp (hp.stream c hc)
    rw [setResolution_done (s := (c, p.videoToolbox)) create hsize hupdate hstream]
    by_cases hcreate : create.Succeeded
    · have hnumbered := givenUp_numbered stream w h (hp.usable c hc) hp.numbered
      obtain ⟨e, hmake, hencodes⟩ := makeEncoder_ok hcreate hnumbered
      rw [hmake] at hencodes
      rw [hmake]
      exact .rebuilt hcreate rfl rfl hencodes rfl fun id hid => Nat.lt_succ_of_lt (hnumbered id hid)
    · rw [makeEncoder_error hcreate]
      exact .lost hsize hupdate hcreate rfl
  · obtain ⟨e, hrun⟩ := setResolution_refused (s := (c, p.videoToolbox)) create hsize fun _ => hupdate
    rw [hrun]
    simp only [hself]
    exact .refused hsize hupdate

variable {width height : Int32} {update : Completion Unit} {create : Creation}

theorem setResolution_sound (hp : p.Sound)
    (hgiven : p.SessionGiven (.setResolution width height update create)) :
    (p.setResolution width height update create).2.Sound := by
  cases hc : p.sharedCapturer with
  | none => simpa only [setResolution, retune, hc] using hp
  | some c =>
    have hsized := resized hp hc width height update create
    generalize p.setResolution width height update create = r at hsized
    cases hsized with
    | same => exact hp
    | refused => exact hp
    | rebuilt _ _ _ hencodes hstream hnumbered =>
      refine ⟨fun c' hc' => ?_, fun c' hc' => ?_, hnumbered⟩ <;> obtain rfl := Option.some.inj hc'
      · exact hencodes
      · exact hstream
    | lost hsize hupdate hcreate => exact absurd (hgiven c hc hsize hupdate) hcreate

theorem setResolution_honoured (hp : p.Sound)
    (hgiven : p.SessionGiven (.setResolution width height update create)) :
    p.Honoured (.setResolution width height update create) := by
  cases hc : p.sharedCapturer with
  | none => simp [Honoured, setResolution, retune, hc]
  | some c =>
    have hsized := resized hp hc width height update create
    simp only [Honoured]
    generalize p.setResolution width height update create = r at hsized
    cases hsized with
    | same hsize =>
      obtain ⟨e, he, hlive, hwidth, hheight⟩ := hp.usable c hc
      refine ⟨fun hne => absurd rfl hne, fun _ => ⟨c, hc, e, he, hlive, ?_, ?_⟩⟩
      · rw [hwidth, hsize.1]
      · rw [hheight, hsize.2]
    | refused => exact ⟨fun _ c hc => ⟨c, hc, rfl, rfl, rfl⟩, fun hzero => absurd hzero (by simp)⟩
    | @rebuilt c' _ _ hw hh hencodes =>
      obtain ⟨e, he, hlive, hwidth, hheight⟩ := hencodes
      exact ⟨fun hne => absurd rfl hne,
        fun _ => ⟨c', rfl, e, he, hlive, hwidth.trans hw, hheight.trans hh⟩⟩
    | lost hsize hupdate hcreate => exact absurd (hgiven c hc hsize hupdate) hcreate

/-- A change that is refused its session leaves no encoder. -/
theorem setResolution_lost (hp : p.Sound)
    (hgiven : ¬ p.SessionGiven (.setResolution width height update create)) :
    ¬ (p.setResolution width height update create).2.Usable := by
  simp only [SessionGiven, not_forall] at hgiven
  obtain ⟨c, hc, hsize, hupdate, hcreate⟩ := hgiven
  have hsized := resized hp hc width height update create
  generalize p.setResolution width height update create = r at hsized
  intro husable
  cases hsized with
  | same hsame => exact hsize hsame
  | refused _ hnot => exact hnot hupdate
  | rebuilt hok => exact hcreate hok
  | @lost c' _ _ _ _ hencoder =>
    obtain ⟨e, he, -⟩ := husable c' rfl
    rw [Option.mem_def, hencoder] at he
    cases he

theorem Sound.init : machine.init.Sound :=
  ⟨fun c hc => (by cases hc), fun c hc => (by cases hc), fun id hid => (by cases hid)⟩

theorem Sound.call (hp : p.Sound) (hgiven : p.SessionGiven a) : (p.call a).2.Sound := by
  cases a with
  | start args create answers => exact start_sound args create answers hp
  | selectDisplay displayId content update =>
    exact retune_keeps (selectDisplay_keeps displayId content update) hp
  | setBitrate kbps status => exact setBitrate_sound kbps status hp
  | setFps fps update statuses => exact retune_keeps (setFps_keeps _ update statuses) hp
  | setResolution width height update create => exact setResolution_sound hp hgiven

theorem Sound.honoured (hp : p.Sound) (hgiven : p.SessionGiven a) : p.Honoured a := by
  cases a with
  | setResolution width height update create => exact setResolution_honoured hp hgiven
  | _ => trivial

theorem Sound.lost (hp : p.Sound) (hgiven : ¬ p.SessionGiven a) : ¬ (p.call a).2.Usable := by
  cases a with
  | setResolution width height update create => exact setResolution_lost hp hgiven
  | _ => exact absurd trivial hgiven

end Process

open Process

/-- Over any calls, every resolution change is honoured and the capturer is usable
    between the calls, exactly when every change that gets as far as a new session is
    given one. -/
theorem usable_iff (calls : List Call) :
    (machine.Meets Honoured machine.init calls ∧
      ∀ u ∈ machine.visits machine.init calls, u.Usable) ↔
      machine.Meets SessionGiven machine.init calls := by
  have hkeep : ∀ p a p', Sound p → SessionGiven p a → machine.step p a = some p' → Sound p' :=
    fun p a p' hp hgiven hstep => Option.some.inj hstep ▸ hp.call hgiven
  obtain ⟨t, hrun⟩ := machine.run_of_total (fun _ _ => rfl) machine.init calls
  have hiff := machine.forall_visits_iff_meets (A := fun _ _ => True) (I := Usable) (J := Sound)
    (fun _ hp => hp.usable)
    (fun p a p' hp _ => hkeep p a p' hp)
    (fun p a p' hp _ hgiven hstep => Option.some.inj hstep ▸ hp.lost hgiven) .init hrun
      (machine.meets_true _ calls)
  constructor
  · rintro ⟨-, husable⟩
    exact hiff.mp husable
  · intro hgiven
    exact ⟨hgiven.imp machine hkeep (fun p a hp => hp.honoured) .init, hiff.mpr hgiven⟩

/-- A start that succeeds, at 1920 by 1080. -/
def startCall : Call :=
  .start ⟨1920, 1080, 30, 4000, 0⟩ ⟨0, true, 0, 0, ⟨0, 0⟩⟩
    ⟨.completed (some [1]) none, .ok (), .completed () none⟩

/-- A change that ScreenCaptureKit takes and VideoToolbox refuses. -/
def refusedChange : Call :=
  .setResolution 1280 720 (.completed () none) ⟨-12903, false, 0, 0, ⟨0, 0⟩⟩

/-- After a refused change the size is the new one and there is no encoder, and the same
    change made again returns 0 without making one. -/
theorem refused_change_loses_encoder :
    (machine.init.call startCall).1 = 0 ∧
    ((machine.init.call startCall).2.call refusedChange).1 = 2 ∧
    (((machine.init.call startCall).2.call refusedChange).2.call refusedChange).1 = 0 ∧
    ((((machine.init.call startCall).2.call refusedChange).2.call refusedChange).2.sharedCapturer.map
      fun c => (c.width, c.height, c.encoder)) = some (1280, 720, none) ∧
    ¬ (machine.Meets Honoured machine.init [startCall, refusedChange, refusedChange] ∧
      ∀ u ∈ machine.visits machine.init [startCall, refusedChange, refusedChange], u.Usable) := by
  refine ⟨by decide +kernel, by decide +kernel, by decide +kernel, by decide +kernel,
    fun hkept => ?_⟩
  have husable : Usable ((machine.init.call startCall).2.call refusedChange).2 :=
    hkept.2 _ (by simp [Machine.visits, machine])
  obtain ⟨e, he, -⟩ := husable _ rfl
  cases he

end XyzenRelay.Capture.Mac
