-- SUMMARY: The cap on the data rate of the macOS encoder, which a new bitrate leaves as it was.
import XyzenRelay.Capture.Controls

/-!
# The cap on the data rate

`makeEncoder` caps the data rate of a session at one and a half times its bitrate, if
VideoToolbox takes the limit. `xz_capturer_set_bitrate` sets a new bitrate and no new cap.
-/

namespace XyzenRelay.Capture.Mac

open MacCapturer

namespace MacCapturer

/-- The encoder is capped, at one and a half times the bitrate of the capturer. -/
def Capped (c : MacCapturer) : Prop :=
  ∀ e ∈ c.encoder, e.dataLimitBytes = some (dataLimit c.currentBitrateKbps)

/-- Two bitrates are so far apart that rounding does not bring their caps together. -/
theorem dataLimit_inj {k l : Int} (h : dataLimit k = dataLimit l) : k = l := by
  have hexact (n : Int) : (n * 1000).tdiv 8 = n * 125 := by
    rw [← Int.mul_tdiv_cancel (n * 125) (by decide : (8 : Int) ≠ 0), Int.mul_assoc]
    rfl
  simp only [dataLimit, hexact] at h
  have hround (a : Int) : a - 2 < 2 * a.tdiv 2 ∧ 2 * a.tdiv 2 < a + 2 := by
    have hdiv := Int.mul_tdiv_add_tmod a 2
    have hlt := Int.tmod_lt_of_pos a (by decide : (0 : Int) < 2)
    have hgt := Int.lt_tmod_of_pos a (by decide : (0 : Int) < 2)
    omega
  have hk := hround (k * 125 * 3)
  have hl := hround (l * 125 * 3)
  omega

/-- The cap of a new session is taken or missing. -/
theorem encoding_capped_iff (c : MacCapturer) (create : Creation) (id : SessionId) :
    (c.encoding create id).Capped ↔ create.dataRateLimits = 0 := by
  constructor
  · intro hcapped
    have hlimit := hcapped _ rfl
    simp only [session, setProperty, Option.ite_none_right_eq_some] at hlimit
    exact hlimit.1
  · intro htaken e he
    obtain rfl := Option.some.inj he
    exact if_pos htaken

/-- A new bitrate keeps the cap of the old one. -/
theorem withBitrate_capped_iff {c : MacCapturer} {e : VTCompressionSession} (hc : c.Capped)
    (he : c.encoder = some e) (kbps : Int) :
    (c.withBitrate e kbps).Capped ↔ kbps = c.currentBitrateKbps := by
  constructor
  · intro hcapped
    have hlimit := (hcapped _ rfl).symm.trans (hc e he)
    exact dataLimit_inj (Option.some.inj hlimit)
  · rintro rfl e' he'
    obtain rfl := Option.some.inj he'
    exact hc e he

theorem withFps_capped {c : MacCapturer} (hc : c.Capped) (fps : Int)
    (statuses : FrameRateStatuses) : (c.withFps fps statuses).Capped := by
  intro e' he'
  obtain ⟨e, he, rfl⟩ := Option.map_eq_some_iff.mp he'
  exact hc e he

end MacCapturer

namespace Process

variable {p : Process}

/-- The cap is one and a half times the bitrate the capturer was last set to. -/
def Capped (p : Process) : Prop := ∀ c ∈ p.sharedCapturer, c.Capped

/-- A session that is made takes its cap, and a bitrate that VideoToolbox takes is the old one. -/
def RateKept (p : Process) : Call → Prop
  | .start args create answers =>
    (p.start args create answers).1 = 0 → create.dataRateLimits = 0
  | .setResolution width height update create => ∀ c ∈ p.sharedCapturer,
    ¬ (clamp 160 7680 width = c.width ∧ clamp 120 4320 height = c.height) → update.Done →
      create.Succeeded → create.dataRateLimits = 0
  | .setBitrate kbps status => status = 0 →
    ∀ c ∈ p.sharedCapturer, c.encoder.isSome → clamp 100 100000 kbps = c.currentBitrateKbps
  | .selectDisplay _ _ _ | .setFps _ _ _ => True

theorem Capped.call (hp : p.Capped) {a : Call} (hkept : p.RateKept a) : (p.call a).2.Capped := by
  have hcalled := p.called a
  unfold Capped
  generalize hcode : (p.call a).1 = code, (p.call a).2.sharedCapturer = shared at hcalled
  intro c' hc'
  cases hcalled with
  | failed => exact hp c' hc'
  | started =>
    obtain rfl := Option.some.inj hc'
    exact (encoding_capped_iff _ _ _).mpr (hkept hcode)
  | sameDisplay hc | sameFps hc | sameSize hc =>
    obtain rfl := Option.some.inj hc'
    exact hp _ hc
  | @display c _ _ _ hc =>
    obtain rfl := Option.some.inj hc'
    exact hp c hc
  | @bitrate c e kbps hc he =>
    obtain rfl := Option.some.inj hc'
    exact (withBitrate_capped_iff (hp c hc) he _).mpr (hkept rfl c hc (by simp [he]))
  | fps hc =>
    obtain rfl := Option.some.inj hc'
    exact withFps_capped (hp _ hc) _ _
  | @size c _ _ _ _ _ hc hsize hupdate hcreate =>
    obtain rfl := Option.some.inj hc'
    exact (encoding_capped_iff _ _ _).mpr (hkept c hc hsize hupdate hcreate)
  | lost hc =>
    obtain rfl := Option.some.inj hc'
    exact fun e he => by cases he

theorem Capped.broken (hagrees : p.Agrees) (hp : p.Capped) {a : Call} (hnot : ¬ p.RateKept a) :
    ¬ (p.call a).2.Capped := by
  have hcalled := p.called a
  unfold Capped
  generalize hcode : (p.call a).1 = code, (p.call a).2.sharedCapturer = shared at hcalled
  intro hcapped
  refine hnot ?_
  cases hcalled with
  | @failed a code hne hrefused =>
    cases a with
    | start => exact fun hzero => absurd (hcode.symm.trans hzero) hne
    | setBitrate kbps status =>
      intro hstatus c hc hsome
      rw [hrefused hstatus c hc] at hsome
      cases hsome
    | setResolution =>
      intro c hc _ hupdate
      exact absurd hupdate (hrefused c hc (by simp [(hagrees c hc).stream]))
    | selectDisplay | setFps => trivial
  | @started args create _ _ _ id =>
    have hnew := hcapped _ rfl
    exact fun _ => (encoding_capped_iff args.capturer create id).mp hnew
  | sameDisplay | display | sameFps | fps => trivial
  | @bitrate c e kbps hc he =>
    intro _ c' hc' _
    obtain rfl := Option.some.inj (hc.symm.trans hc')
    exact (withBitrate_capped_iff (hp c hc) he _).mp (hcapped _ rfl)
  | sameSize hc hsame =>
    intro c' hc' hsize
    obtain rfl := Option.some.inj (hc.symm.trans hc')
    exact absurd hsame hsize
  | size => exact fun _ _ _ _ _ => (encoding_capped_iff _ _ _).mp (hcapped _ rfl)
  | lost _ _ _ hcreate => exact fun _ _ _ _ hok => absurd hok hcreate

/-- The encoder is capped at one and a half times the bitrate of the capturer between all
    calls of a run exactly if every session that is made takes its cap and no call that gets
    through sets another bitrate: until the next session is made, the old one is capped. -/
theorem capped_iff (calls : List Call) :
    (∀ u ∈ machine.visits machine.init calls, u.Capped) ↔
      machine.Meets RateKept machine.init calls := by
  obtain ⟨t, hrun⟩ := machine.run_of_total (fun _ _ => rfl) machine.init calls
  refine machine.forall_visits_iff_meets (A := fun _ _ => True) (I := Capped)
    (J := fun p => p.Agrees ∧ p.Capped) (fun _ hp => hp.2) ?_ ?_ ?_ hrun
    (machine.meets_true _ calls)
  · rintro p a p' ⟨hagrees, hcapped⟩ - hkept hstep
    obtain rfl := Option.some.inj hstep
    exact ⟨hagrees.call a, hcapped.call hkept⟩
  · rintro p a p' ⟨hagrees, hcapped⟩ - hnot hstep
    obtain rfl := Option.some.inj hstep
    exact hcapped.broken hagrees hnot
  · exact ⟨fun c hc => (by cases hc), fun c hc => (by cases hc)⟩

end Process

end XyzenRelay.Capture.Mac
