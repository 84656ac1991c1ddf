-- SUMMARY: Live setting changes of the Windows publisher: a running session knows of every change exactly when none is missed while its flag is cleared.
import XyzenRelay.Capture.Lifecycle

/-!
# Live setting changes

A capture thread takes its snapshot in one section and clears the rebuild flag in the
next. A change between the two is in neither, unless another one raises the flag again
before the session starts.
-/

namespace XyzenRelay.Capture

namespace Publisher

variable {s s' : Publisher} {a : Action}

/-- A running session has the current settings, or is to be rebuilt. -/
def Retuned (s : Publisher) : Prop :=
  ∀ k snapshot dims stage, s.threads k = some (.session snapshot dims stage) →
    s.state.toCaptureSnapshot ≠ snapshot → s.state.needsRebuild = true

/-- A session whose thread cleared the flag over changed settings starts only after the
    flag has been raised again. -/
def NotMissed (s : Publisher) : Action → Prop
  | .thread k (.openSession .running) =>
    ∀ snapshot, s.threads k = some (.opening snapshot true) → s.state.needsRebuild = true
  | _ => True

/-- The thread that opens a session knows whether it has missed a change. -/
structure Tracked (s : Publisher) : Prop where
  inv : Inv s
  opening : ∀ k snapshot missed, s.threads k = some (.opening snapshot missed) →
    s.state.needsRebuild = false →
    (missed = true ↔ s.state.toCaptureSnapshot ≠ snapshot)
  session : Retuned s

namespace Tracked

theorem init : Tracked Publisher.init where
  inv := .init
  opening := fun k snapshot missed hk => by simp [Publisher.init] at hk
  session := fun k snapshot dims stage hk => by simp [Publisher.init] at hk

/-- The settings and the flag are as before, and so are the threads, or new ones. -/
theorem congr (hs : Tracked s) (hinv : Inv s') (hstate : s'.state = s.state)
    (hthreads : ∀ k p, s'.threads k = some p → s.threads k = some p ∨ p = .starting) :
    Tracked s' where
  inv := hinv
  opening := by
    intro k snapshot missed hk
    rcases hthreads k _ hk with hk | heq
    · rw [hstate]
      exact hs.opening k snapshot missed hk
    · simp at heq
  session := by
    intro k snapshot dims stage hk
    rcases hthreads k _ hk with hk | heq
    · rw [hstate]
      exact hs.session k snapshot dims stage hk
    · simp at heq

theorem retunes (hs : Tracked s) {state : State} (hinv : Inv { s with state })
    (h : Retunes s.state state) :
    Tracked { s with state } := by
  rcases h.flagged with rfl | hflag
  · exact hs
  · refine ⟨hinv, fun k snapshot missed _ hclear => ?_, fun _ _ _ _ _ _ => hflag⟩
    rw [show state.needsRebuild = false from hclear] at hflag
    simp at hflag

/-- The thread of the session is the only one. -/
theorem loop (hs : Tracked s) (hinv : Inv s') {k : SessionId} {m : ThreadMove} {p p' : ThreadPhase}
    (hk : s.threads k = some p) (hloop : LoopStep s k p p' s') (h : SnapshotStep s m p p' s')
    (ha : NotMissed s (.thread k m)) : Tracked s' := by
  have hbusy : s.Busy k := .inr (by simp [hk])
  have honly : ∀ j q, s'.threads j = some q → q = p' := by
    intro j q hq
    rw [hloop.threads, Function.update_apply] at hq
    split at hq
    · exact (Option.some.inj hq).symm
    · next hne => exact absurd (hs.inv.busy_unique (.inr (by simp [hq])) hbusy) hne
  cases h with
  | takes =>
    exact ⟨hinv, fun j snapshot missed hj => by simpa using honly j _ hj,
      fun j snapshot dims stage hj => by simpa using honly j _ hj⟩
  | clears =>
    refine ⟨hinv, fun j snapshot missed hj _ => ?_,
      fun j snapshot dims stage hj => by simpa using honly j _ hj⟩
    obtain ⟨rfl, rfl⟩ := ThreadPhase.opening.inj (honly j _ hj)
    rw [hloop.settings, decide_eq_true_iff]
  | @opens snapshot missed _ hflag =>
    refine ⟨hinv, fun j snapshot missed hj => by simpa using honly j _ hj,
      fun j snapshot' dims stage hj hne => ?_⟩
    obtain ⟨rfl, rfl, rfl⟩ := ThreadPhase.session.inj (honly j _ hj)
    rw [hloop.settings] at hne
    rw [hflag]
    by_contra hclear
    rw [Bool.not_eq_true] at hclear
    obtain rfl := (hs.opening k _ missed hk hclear).mpr hne
    rw [ha _ hk] at hclear
    simp at hclear
  | handles hflag =>
    refine ⟨hinv, fun j snapshot missed hj => by simpa using honly j _ hj,
      fun j snapshot' dims stage hj hne => ?_⟩
    obtain ⟨rfl, -, -⟩ := ThreadPhase.session.inj (honly j _ hj)
    rw [hloop.settings] at hne
    rw [hflag]
    exact hs.session k _ _ _ hk hne
  | other hopening hsession =>
    exact ⟨hinv, fun j snapshot missed hj => absurd (honly j _ hj).symm (hopening _ _),
      fun j snapshot dims stage hj => absurd (honly j _ hj).symm (hsession _ _ _)⟩

/-- Past its loop a thread has no session. -/
theorem exits (hs : Tracked s) (hinv : Inv s') {k : SessionId} {p : ThreadPhase}
    {new : Option ThreadPhase}
    (hk : s.threads k = some p) (hthreads : s'.threads = Function.update s.threads k new)
    (hnew : ∀ q ∈ new, q.left = true) : Tracked s' := by
  have hbusy : s.Busy k := .inr (by simp [hk])
  have honly : ∀ j q, s'.threads j = some q → q.left = true := by
    intro j q hq
    rw [hthreads, Function.update_apply] at hq
    split at hq
    · exact hnew q hq
    · next hne => exact absurd (hs.inv.busy_unique (.inr (by simp [hq])) hbusy) hne
  exact ⟨hinv, fun j snapshot missed hj => by simpa [ThreadPhase.left] using honly j _ hj,
    fun j snapshot dims stage hj => by simpa [ThreadPhase.left] using honly j _ hj⟩

theorem effect (hs : Tracked s) (h : Effect s a s') (ha : NotMissed s a) : Tracked s' := by
  have hinv := hs.inv.effect h
  cases h with
  | enters hc hrunning =>
    have hnone : ∀ k p, s.threads k ≠ some p :=
      fun k p hk => hs.inv.idle hrunning k (.inr (by simp [hk]))
    exact ⟨hinv, fun k snapshot missed hk => absurd hk (hnone k _),
      fun k snapshot dims stage hk => absurd hk (hnone k _)⟩
  | fails => exact hs.congr hinv rfl fun _ _ hk => .inl hk
  | resets => exact hs.congr hinv rfl fun _ _ hk => .inl hk
  | installs => exact hs.congr hinv rfl fun _ _ hk => .inl hk
  | spawns =>
    refine hs.congr hinv rfl fun j p hj => ?_
    rw [threads_setThread] at hj
    split at hj
    · exact .inr (Option.some.inj hj).symm
    · exact .inl hj
  | stops => exact hs.congr hinv rfl fun _ _ hk => .inl hk
  | retunes hstate => exact hs.retunes hinv hstate
  | thread hk hthread =>
    cases hthread with
    | loop hloop hsnapshot => exact hs.loop hinv hk hloop hsnapshot ha
    | resetShutdown => exact hs.exits hinv hk rfl (by simp [ThreadPhase.left])
    | clearSender => exact hs.exits hinv hk rfl (by simp [ThreadPhase.left])
    | clearRunning => exact hs.exits hinv hk rfl (by simp)

end Tracked

/-- A session that starts over a missed change does not know of it. -/
theorem not_retuned_of_missed (hs : Tracked s) (ha : ¬ NotMissed s a)
    (h : machine.step s a = some s') : ¬ Retuned s' := by
  unfold NotMissed at ha
  split at ha
  · next k =>
    simp only [not_forall, Bool.not_eq_true] at ha
    obtain ⟨snapshot, hk, hclear⟩ := ha
    simp only [machine, step, hk, stepThread, Option.some.injEq] at h
    subst h
    intro hretuned
    have hne := (hs.opening k snapshot true hk hclear).mp rfl
    have hflag := hretuned k snapshot none .waiting (by simp [setThread]) hne
    rw [show s.state.needsRebuild = true from hflag] at hclear
    simp at hclear
  · exact absurd trivial ha

/-- Throughout a run, a running session has the current settings or is to be rebuilt,
    exactly when every session that starts over a missed change has the flag raised
    again. -/
theorem retuned_iff {as : List Action} {t : Publisher}
    (hrun : machine.run machine.init as = some t) :
    (∀ u ∈ machine.visits machine.init as, u.Retuned) ↔ machine.Meets NotMissed machine.init as :=
  machine.forall_visits_iff_meets (A := fun _ _ => True) (J := Tracked) (fun _ hs => hs.session)
    (fun _ _ _ hs _ hC h => hs.effect (effect_of_step h) hC)
      (fun _ _ _ hs _ hC h => not_retuned_of_missed hs hC h)
    .init hrun (machine.meets_true _ as)

/-- A session up to its start, with a change of the frame rate at some point. -/
def retunedAt (before after : List Action) : List Action :=
  [.start 0 ⟨1920, 1080, 30, 4000, 0⟩ false, .resetShutdown 0, .installSender 0 false,
    .spawn 0 true, .thread 0 (.startup true), .thread 0 .loadShutdown, .thread 0 .takeSnapshot] ++
    before ++ [.thread 0 .clearRebuild, .thread 0 (.openSession .running)] ++ after

theorem retuned_iff_after :
    (∀ u ∈ machine.visits machine.init (retunedAt [] [.setFps 60]), u.Retuned) ↔
      machine.Meets NotMissed machine.init (retunedAt [] [.setFps 60]) :=
  retuned_iff (machine.run_getD (retunedAt [] [.setFps 60]) (by decide +kernel))

/-- A change between the snapshot and the clearing of the flag is lost. -/
theorem change_lost : ¬ ∀ s, machine.Reachable s → s.Retuned := by
  intro h
  have hreachable := machine.reachable_getD (retunedAt [.setFps 60] [])
  have hretuned := h _ hreachable
  generalize hend : (machine.run machine.init (retunedAt [.setFps 60] [])).getD machine.init = s
    at hretuned
  have hthread : s.threads 0 = some (.session ⟨1920, 1080, 30, 4000, 0⟩ none .waiting) := by
    subst hend
    decide +kernel
  have hfps : s.state.fps = 60 := by
    subst hend
    decide +kernel
  have hflag : s.state.needsRebuild = false := by
    subst hend
    decide +kernel
  have hne := hretuned 0 _ none .waiting hthread fun heq => by
    rw [heq] at hfps
    simp at hfps
  rw [hflag] at hne
  simp at hne

end Publisher

end XyzenRelay.Capture
