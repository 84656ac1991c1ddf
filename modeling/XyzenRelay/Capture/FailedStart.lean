-- SUMMARY: What a failed start of the Windows publisher leaves behind: nothing if its section refuses it, a publisher that runs forever if it fails later.
import XyzenRelay.Capture.Lifecycle

/-!
# Failed starts

`start` sets `running` in its section and fills the sender slot before it spawns the
thread. A call that its section refuses leaves both alone. The two later errors
return with `?`, and only the exit closure of a thread ever clears `running`.
-/

namespace XyzenRelay.Capture

/-- `start` returns an error after its section: the sender mutex is poisoned, or
    `thread::spawn` fails. -/
def Action.failsLate : Action → Bool
  | .installSender _ true | .spawn _ false => true
  | _ => false

/-- How many accesses a capture thread is from the end of its loop, once `SHUTDOWN` is set. -/
def ThreadPhase.wayOut : ThreadPhase → Nat
  | .exiting | .clearingSender | .clearingRunning => 0
  | .starting | .looping | .opening _ _ | .ended => 1
  | .clearing _ => 2
  | .snapshotting => 3
  | .session _ _ .waiting | .session _ _ .admitted | .session _ _ .mismatched
  | .session _ _ .disconnected => 2
  | .session _ _ .checked | .session _ _ (.sending _ _) => 3
  | .session _ _ (.drained _) => 4

theorem State.start_refused_iff {s : State} {args : CaptureSnapshot} :
    s.start args = .error "publisher already running" ↔ s.running = true := by
  unfold State.start
  cases s.running <;> simp

namespace Publisher

variable {s s' t : Publisher} {a : Action} {c : Nat} {k : SessionId}

/-- The accesses of one call of `start`, up to its return, and what happens in between. -/
structure Call (s : Publisher) (c : Nat) (call : List Action) (result : Except String SessionId)
    (t : Publisher) : Prop where
  enters : ∃ args poisoned rest, call = .start c args poisoned :: rest ∧
    ∀ a ∈ rest, ∀ args poisoned, a ≠ .start c args poisoned
  run : machine.run s call = some t
  result : t.starts c = some (.returned result)
  returns : call.getLast?.bind Action.caller = some c

/-- A call that returns an error leaves `running` and the sender slot as they were. -/
def FailsClean (as : List Action) : Prop :=
  ∀ pre call post s c e t, as = pre ++ call ++ post → machine.run machine.init pre = some s →
    Call s c call (.error e) t → t.state.running = s.state.running ∧ t.sender = s.sender

/-- While `running` is set, a call of `start` is on its way or a capture thread exists. -/
def Owned (s : Publisher) : Prop := s.state.running = true → ∃ k, s.Busy k

/-- Some continuation leads to a state in which `start` is not refused as already running. -/
def Startable (s : Publisher) : Prop :=
  machine.CanReach s fun t => ∀ args, t.state.start args ≠ .error "publisher already running"

/-! ## Calls that others leave alone -/

theorem OtherStep.starts (h : OtherStep s a s') : s'.starts = s.starts := by
  cases h with
  | stops => rfl
  | retunes _ => rfl
  | thread _ h =>
    cases h with
    | loop hloop _ => exact hloop.starts
    | _ => rfl

/-- A call is only moved on by its caller. -/
theorem starts_of_step (hc : a.caller ≠ some c) (h : machine.step s a = some s') :
    s'.starts c = s.starts c := by
  cases hcaller : a.caller with
  | none => rw [(otherStep_of_step hcaller h).starts]
  | some c' =>
    have hne : c ≠ c' := fun heq => hc (heq ▸ hcaller)
    cases callStep_of_step hcaller h <;> simp [setStart, setThread, hne]

/-- A caller whose call has returned makes no access, and gets no other result. -/
theorem returned_of_step {result : Except String SessionId}
    (hc : s.starts c = some (.returned result))
    (hother : ∀ args poisoned, a ≠ .start c args poisoned)
    (h : machine.step s a = some s') :
    a.caller ≠ some c ∧ s'.starts c = some (.returned result) := by
  have hcaller : a.caller ≠ some c := by
    intro hcaller
    cases callStep_of_step hcaller h with
    | refused _ => exact hother _ _ rfl
    | enters _ _ => exact hother _ _ rfl
    | resets hphase => simp [hc] at hphase
    | locked hphase => simp [hc] at hphase
    | installs hphase => simp [hc] at hphase
    | unspawned hphase => simp [hc] at hphase
    | spawns hphase => simp [hc] at hphase
  exact ⟨hcaller, (starts_of_step hcaller h).trans hc⟩

/-- A call that is past its section only returns an error if it fails late. -/
theorem no_error_of_step (hc : ∀ e, s.starts c ≠ some (.returned (.error e)))
    (hother : ∀ args poisoned, a ≠ .start c args poisoned) (ha : a.failsLate = false)
    (h : machine.step s a = some s') : ∀ e, s'.starts c ≠ some (.returned (.error e)) := by
  by_cases hcaller : a.caller = some c
  · cases callStep_of_step hcaller h with
    | refused _ => exact absurd rfl (hother _ _)
    | enters _ _ => exact absurd rfl (hother _ _)
    | locked _ => simp [Action.failsLate] at ha
    | unspawned _ => simp [Action.failsLate] at ha
    | _ => simp [setStart, setThread]
  · rw [starts_of_step hcaller h]
    exact hc

/-- Without late failures a call that returns an error was refused by its section, which
    leaves everything as it was. -/
theorem Call.refused {call : List Action} {e : String} (hcall : Call s c call (.error e) t)
    (hlate : ∀ a ∈ call, a.failsLate = false) : t = s.setStart c (.returned (.error e)) := by
  obtain ⟨args, poisoned, rest, rfl, hrest⟩ := hcall.enters
  rw [List.forall_mem_cons] at hlate
  obtain ⟨s₁, hstep, hrun⟩ := machine.run_cons.mp hcall.run
  cases callStep_of_step rfl hstep with
  | @refused _ _ e' hc =>
    rcases List.eq_nil_or_concat rest with rfl | ⟨rest, a, rfl⟩
    · obtain rfl := Option.some.inj hrun
      have hresult := hcall.result
      simp only [setStart, Function.update_self, Option.some.injEq, StartPhase.returned.injEq,
        Except.error.injEq] at hresult
      rw [hresult]
    · -- the call has returned, and the last of the accesses is not its own
      obtain ⟨u, hinit, hlast⟩ := machine.run_concat.mp (List.concat_eq_append ▸ hrun)
      have hreturned := machine.keeps_run
        (I := fun s => s.starts c = some (.returned (.error e')))
        (fun _ _ _ hother hc hstep => (returned_of_step hc hother hstep).2)
        (fun a ha => hrest a (by simp [ha])) (by simp [setStart]) hinit
      have hcaller := (returned_of_step hreturned (hrest a (by simp)) hlast).1
      have hreturns := hcall.returns
      rw [List.concat_eq_append, ← List.cons_append, List.getLast?_concat] at hreturns
      exact absurd hreturns hcaller
  | enters hc hrunning =>
    have hnone := machine.keeps_run
      (P := fun a => (∀ args poisoned, a ≠ .start c args poisoned) ∧ a.failsLate = false)
      (I := fun s => ∀ e, s.starts c ≠ some (.returned (.error e)))
      (fun _ _ _ ha hc hstep => no_error_of_step hc ha.1 ha.2 hstep)
      (fun a ha => ⟨hrest a ha, hlate.2 a ha⟩) (by simp [setStart]) hrun
    exact absurd hcall.result (hnone e)

theorem failsClean_of {as : List Action} (hlate : ∀ a ∈ as, a.failsLate = false) :
    FailsClean as := by
  rintro pre call post s c e t rfl _ hcall
  rw [hcall.refused fun a ha => hlate a (by simp [ha])]
  exact ⟨rfl, rfl⟩

/-! ## The owner of `running` -/

/-- A call that is refused was not the owner. -/
theorem busy_returned {result : Except String SessionId} (hc : s.pendingOf c = none) :
    (s.setStart c (.returned result)).Busy k ↔ s.Busy k := by
  have hpending : ∀ c', (s.setStart c (.returned result)).pendingOf c' = some k ↔
      s.pendingOf c' = some k := by
    intro c'
    rw [pendingOf_returned, and_iff_right_iff_imp]
    rintro hk rfl
    simp [hc] at hk
  exact or_congr (exists_congr hpending) Iff.rfl

theorem Owned.callStep (hs : s.Owned) (ha : a.failsLate = false) (h : CallStep s c a s') :
    s'.Owned := by
  intro hrunning
  cases h with
  | refused hc => exact (hs hrunning).imp fun _ => (busy_returned hc).mpr
  | enters _ _ => exact ⟨s.sessions, .inl ⟨c, by simp [pendingOf, setStart, StartPhase.pending]⟩⟩
  | @resets k _ => exact ⟨k, .inl ⟨c, by simp [pendingOf, setStart, StartPhase.pending]⟩⟩
  | @installs k _ => exact ⟨k, .inl ⟨c, by simp [pendingOf, setStart, StartPhase.pending]⟩⟩
  | locked _ => simp [Action.failsLate] at ha
  | unspawned _ => simp [Action.failsLate] at ha
  | @spawns k _ => exact ⟨k, .inr (by simp [setThread])⟩

theorem Owned.otherStep (hs : s.Owned) (h : OtherStep s a s') : s'.Owned := by
  intro hrunning
  cases h with
  | stops => exact hs hrunning
  | retunes hstate => exact hs (hstate.running ▸ hrunning)
  | @thread k _ _ _ _ h =>
    cases h with
    | loop hloop _ => exact ⟨k, .inr (by simp [hloop.threads])⟩
    | resetShutdown => exact ⟨k, .inr (by simp [setThread])⟩
    | clearSender => exact ⟨k, .inr (by simp [setThread])⟩
    | clearRunning => simp at hrunning

theorem Owned.step (hs : s.Owned) (ha : a.failsLate = false) (h : machine.step s a = some s') :
    s'.Owned := by
  cases hcaller : a.caller with
  | some c => exact hs.callStep ha (callStep_of_step hcaller h)
  | none => exact hs.otherStep (otherStep_of_step hcaller h)

/-- A call that returns while it is the owner leaves `running` to nobody. -/
theorem not_owned_of_returned (hs : Inv s) {result : Except String SessionId}
    (hc : s.pendingOf c = some k) : ¬ (s.setStart c (.returned result)).Owned := by
  intro howned
  obtain ⟨j, ⟨c', hj⟩ | hj⟩ := howned (hs.current k (.inl ⟨c, hc⟩)).1
  · exact hs.no_pending hc c' j hj
  · obtain rfl := hs.busy_unique (.inr hj) (.inl ⟨c, hc⟩)
    exact hj (hs.exclusive c j hc)

theorem not_owned_of_failsLate (hs : Inv s) (ha : a.failsLate = true)
    (h : machine.step s a = some s') : ¬ s'.Owned := by
  cases a with
  | installSender c poisoned =>
    cases callStep_of_step rfl h with
    | locked hc => exact not_owned_of_returned hs (pendingOf_eq hc)
    | installs _ => simp [Action.failsLate] at ha
  | spawn c ok =>
    cases callStep_of_step rfl h with
    | unspawned hc => exact not_owned_of_returned hs (pendingOf_eq hc)
    | spawns _ => simp [Action.failsLate] at ha
  | _ => simp [Action.failsLate] at ha

theorem not_owned_iff : ¬ s.Owned ↔ s.state.running = true ∧ ∀ k, ¬ s.Busy k := by
  simp [Owned]

/-- Nothing ever ends a publisher that runs and that nobody owns. -/
theorem not_owned_of_step (hs : ¬ s.Owned) (h : machine.step s a = some s') : ¬ s'.Owned := by
  rw [not_owned_iff] at hs ⊢
  obtain ⟨hrunning, hidle⟩ := hs
  have hpending : ∀ c k, s.pendingOf c ≠ some k := fun c k hk => hidle k (.inl ⟨c, hk⟩)
  cases hcaller : a.caller with
  | some c =>
    cases callStep_of_step hcaller h with
    | refused hc => exact ⟨hrunning, fun k hk => hidle k ((busy_returned hc).mp hk)⟩
    | enters _ hstopped => simp [hrunning] at hstopped
    | @resets k hc => exact absurd (pendingOf_eq hc) (hpending c k)
    | @locked k hc => exact absurd (pendingOf_eq hc) (hpending c k)
    | @installs k hc => exact absurd (pendingOf_eq hc) (hpending c k)
    | @unspawned k hc => exact absurd (pendingOf_eq hc) (hpending c k)
    | @spawns k hc => exact absurd (pendingOf_eq hc) (hpending c k)
  | none =>
    cases otherStep_of_step hcaller h with
    | stops => exact ⟨hrunning, hidle⟩
    | retunes hstate => exact ⟨hstate.running ▸ hrunning, hidle⟩
    | @thread k _ _ _ hk _ => exact absurd (.inr (by simp [hk])) (hidle k)

/-- A call that fails late ends the run with a publisher that runs and that nobody owns. -/
theorem not_owned_of_run {as : List Action} (hs : Inv s) (hrun : machine.run s as = some t)
    (hlate : ∃ a ∈ as, a.failsLate = true) : ¬ t.Owned := by
  induction as generalizing s with
  | nil => simp at hlate
  | cons a as ih =>
    obtain ⟨s', hstep, hrest⟩ := machine.run_cons.mp hrun
    cases ha : a.failsLate with
    | true =>
      exact Machine.Preserves.run machine (I := fun s => ¬ s.Owned)
        (fun _ _ _ hs h => not_owned_of_step hs h) (not_owned_of_failsLate hs ha hstep) hrest
    | false =>
      refine ih (hs.effect (effect_of_step hstep)) hrest ?_
      simpa [ha] using hlate

theorem not_startable_of_not_owned (hs : ¬ s.Owned) : ¬ s.Startable := by
  rintro ⟨as, t, hrun, hstart⟩
  have ht : ¬ t.Owned := Machine.Preserves.run machine (I := fun s => ¬ s.Owned)
    (fun _ _ _ hs h => not_owned_of_step hs h) hs hrun
  exact hstart s.state.toCaptureSnapshot
    (State.start_refused_iff.mpr (not_owned_iff.mp ht).1)

/-! ## The way out of a session -/

/-- A thread in its loop can be brought closer to its end. -/
theorem step_wayOut {p : ThreadPhase} (hk : s.threads k = some p) (hp : p.left = false)
    (hstop : s.shutdown = true) :
    ∃ m s' p', machine.step s (.thread k m) = some s' ∧ s'.threads k = some p' ∧
      p'.wayOut < p.wayOut := by
  have hmoves : ∀ m s' p', s.stepThread k p m = some s' →
      s'.threads = Function.update s.threads k (some p') → p'.wayOut < p.wayOut →
      ∃ m s' p', machine.step s (.thread k m) = some s' ∧ s'.threads k = some p' ∧
        p'.wayOut < p.wayOut := fun m s' p' hstep hthreads hlt =>
    ⟨m, s', p', by simp [machine, step, hk, hstep], by simp [hthreads], hlt⟩
  have hquiet : ∀ m p', s.stepThread k p m = some (s.setThread k (some p')) →
      p'.wayOut < p.wayOut → _ := fun m p' hstep hlt => hmoves m _ p' hstep rfl hlt
  cases p with
  | starting => exact hquiet (.startup false) .exiting rfl Nat.one_pos
  | looping => exact hquiet .loadShutdown .exiting (by simp [stepThread, hstop]) Nat.one_pos
  | snapshotting => exact hquiet .takeSnapshot _ rfl (by simp [ThreadPhase.wayOut])
  | clearing snapshot => exact hmoves .clearRebuild _ _ rfl rfl (by simp [ThreadPhase.wayOut])
  | opening snapshot missed => exact hquiet (.openSession .noMonitor) .exiting rfl Nat.one_pos
  | session snapshot dims stage =>
    cases stage with
    | waiting => exact hquiet .sessionEnds .ended rfl Nat.one_lt_two
    | checked =>
      cases hflag : s.state.needsRebuild with
      | true =>
        exact hquiet .readRebuild .ended (by simp [stepThread, hflag])
          (by simp [ThreadPhase.wayOut])
      | false =>
        exact hquiet .readRebuild (.session snapshot dims .admitted) (by simp [stepThread, hflag])
          (by simp [ThreadPhase.wayOut])
    | admitted =>
      -- a frame of the configured size is submitted, one for a new encoder is not
      cases dims with
      | none => exact hquiet (.encode 0 0 false .unreadable) .ended rfl Nat.one_lt_two
      | some d =>
        exact hquiet (.encode d.1 d.2 false .unreadable) .ended (by simp [stepThread, encode])
          Nat.one_lt_two
    | mismatched => exact hmoves .flagRebuild _ .ended rfl rfl Nat.one_lt_two
    | drained nals =>
      cases hsender : s.sender with
      | none =>
        exact hquiet .cloneSender (.session snapshot dims .waiting) (by simp [stepThread, hsender])
          (by simp [ThreadPhase.wayOut])
      | some tx =>
        exact hquiet .cloneSender (.session snapshot dims (.sending tx nals))
          (by simp [stepThread, hsender]) (by simp [ThreadPhase.wayOut])
    | sending tx nals =>
      cases nals with
      | zero =>
        exact hquiet (.send true) (.session snapshot dims .waiting) rfl
          (by simp [ThreadPhase.wayOut])
      | succ nals =>
        exact hquiet (.send false) (.session snapshot dims .disconnected) rfl
          (by simp [ThreadPhase.wayOut])
    | disconnected => exact hmoves .storeShutdown _ .ended rfl rfl Nat.one_lt_two
  | ended => exact hquiet .loadShutdown .exiting (by simp [stepThread, hstop]) Nat.one_pos
  | _ => simp [ThreadPhase.left] at hp

/-- After a stop a thread can leave its loop. -/
theorem canReach_left {p : ThreadPhase} (hk : s.threads k = some p) :
    machine.CanReach s fun t => ∃ q, t.threads k = some q ∧ q.left = true := by
  have hstep : machine.step s .stop = some { s with shutdown := true } := rfl
  refine .step machine hstep ?_
  refine Machine.CanReach.of_measure machine (n := p.wayOut)
    (J := fun n s => s.shutdown = true ∧ ∃ p, s.threads k = some p ∧ p.wayOut = n) ?_
    ⟨rfl, p, hk, rfl⟩
  rintro n s ⟨hstop, p, hk, rfl⟩
  cases hp : p.left with
  | true => exact .inl ⟨p, hk, hp⟩
  | false =>
    obtain ⟨m, s', p', hstep, hk', hlt⟩ := step_wayOut hk hp hstop
    refine .inr ⟨.thread k m, s', p'.wayOut, hstep, hlt, ?_, p', hk', rfl⟩
    cases otherStep_of_step rfl hstep with
    | retunes _ => exact hstop
    | thread hphase heffect =>
      obtain rfl := Option.some.inj (hk.symm.trans hphase)
      cases heffect with
      | loop hloop _ => exact hloop.shutdown.elim (fun hsame => hsame ▸ hstop) id
      | _ => simp [ThreadPhase.left] at hp

/-- A state in which `running` is cleared refuses no start. -/
theorem startable_of_stopped (hrunning : s.state.running = false) : s.Startable :=
  .here machine fun _ hrefused => by
    have hrun := State.start_refused_iff.mp hrefused
    simp [hrunning] at hrun

/-- The exit closure clears `running`. -/
theorem startable_of_left {p : ThreadPhase} (hk : s.threads k = some p) (hp : p.left = true) :
    s.Startable := by
  have hlast : ∀ s : Publisher, s.threads k = some .clearingRunning → s.Startable :=
    fun s hk => .step machine (a := .thread k .exit) (by simp [machine, step, hk]; rfl)
      (startable_of_stopped rfl)
  have hsecond : ∀ s : Publisher, s.threads k = some .clearingSender → s.Startable :=
    fun s hk => .step machine (a := .thread k .exit) (by simp [machine, step, hk]; rfl)
      (hlast _ (by simp [setThread]))
  cases p with
  | exiting =>
    exact .step machine (a := .thread k .exit) (by simp [machine, step, hk]; rfl)
      (hsecond _ (by simp [setThread]))
  | clearingSender => exact hsecond s hk
  | clearingRunning => exact hlast s hk
  | _ => simp [ThreadPhase.left] at hp

theorem startable_of_thread {p : ThreadPhase} (hk : s.threads k = some p) : s.Startable :=
  .trans machine (canReach_left hk) fun _ ⟨_, hq, hleft⟩ => startable_of_left hq hleft

/-- A call of `start` past its section can go on to spawn its thread. -/
theorem startable_of_pending (hc : s.pendingOf c = some k) : s.Startable := by
  have hspawning : ∀ (s : Publisher) k, s.starts c = some (.spawning k) → s.Startable :=
    fun s k hc => .step machine (a := .spawn c true) (by simp [machine, step, hc]; rfl)
      (startable_of_thread (k := k) (p := .starting) (by simp [spawn, setThread]))
  have hinstalling : ∀ (s : Publisher) k, s.starts c = some (.installing k) → s.Startable :=
    fun s k hc => .step machine (a := .installSender c false)
      (by simp [machine, step, hc]; rfl) (hspawning _ k (by simp [install, setStart]))
  cases hphase : s.starts c with
  | none => simp [pendingOf, hphase] at hc
  | some phase =>
    cases phase with
    | resetting k =>
      exact .step machine (a := .resetShutdown c) (by simp [machine, step, hphase]; rfl)
        (hinstalling _ k (by simp [setStart]))
    | installing k => exact hinstalling s k hphase
    | spawning k => exact hspawning s k hphase
    | returned result => simp [pendingOf, hphase, StartPhase.pending] at hc

theorem Owned.startable (hs : s.Owned) : s.Startable := by
  cases hrunning : s.state.running with
  | false => exact startable_of_stopped hrunning
  | true =>
    obtain ⟨k, ⟨c, hc⟩ | hk⟩ := hs hrunning
    · exact startable_of_pending hc
    · obtain ⟨p, hp⟩ := Option.ne_none_iff_exists'.mp hk
      exact startable_of_thread hp

/-! ## Runs -/

/-- In every run the failed starts leave `running` and the sender as they were, `running`
    has an owner throughout, and `start` can come not to be refused any more, exactly when
    no call fails behind its section. -/
theorem failed_start_iff {as : List Action} {t : Publisher}
    (hrun : machine.run machine.init as = some t) :
    (FailsClean as ∧ ∀ u ∈ machine.visits machine.init as, u.Owned ∧ u.Startable) ↔
      ∀ a ∈ as, a.failsLate = false := by
  constructor
  · rintro ⟨-, hvisits⟩ a ha
    by_contra hlate
    exact not_owned_of_run Inv.init hrun ⟨a, ha, by simpa using hlate⟩
      (hvisits t (machine.mem_visits_of_run hrun)).1
  · intro hlate
    refine ⟨failsClean_of hlate, ?_⟩
    have howned : ∀ u ∈ machine.visits machine.init as, u.Owned :=
      Machine.Meets.visits machine (C := fun _ a => a.failsLate = false)
        (fun _ _ _ hs ha hstep => hs.step ha hstep)
        (by simp [Owned, machine, Publisher.init, State.default]) (machine.meets_of_forall hlate)
    exact fun u hu => ⟨howned u hu, (howned u hu).startable⟩

/-- A session, and a second `start` that is refused while it runs. -/
def refusedStart : List Action :=
  [.start 0 ⟨1920, 1080, 30, 4000, 0⟩ false, .resetShutdown 0, .installSender 0 false,
    .spawn 0 true, .start 1 ⟨1280, 720, 30, 2000, 0⟩ false]

theorem failed_start_refused :
    FailsClean refusedStart ∧
      ∀ u ∈ machine.visits machine.init refusedStart, u.Owned ∧ u.Startable :=
  (failed_start_iff (machine.run_getD refusedStart (by decide +kernel))).mpr (by decide)

/-- A first `start` whose thread cannot be spawned. -/
def unspawnedStart : List Action :=
  [.start 0 ⟨1920, 1080, 30, 4000, 0⟩ false, .resetShutdown 0, .installSender 0 false,
    .spawn 0 false]

/-- It leaves the publisher running for good, without a thread and with a sender. -/
theorem unspawned_start_latches :
    let t := (machine.run machine.init unspawnedStart).getD machine.init
    machine.run machine.init unspawnedStart = some t ∧
      t.starts 0 = some (.returned (.error "thread::spawn failed")) ∧
      t.state.running = true ∧ t.sender = some 0 ∧ ¬ FailsClean unspawnedStart ∧
      ¬ t.Owned ∧ ¬ t.Startable := by
  have hrun := machine.run_getD (s := machine.init) unspawnedStart (by decide +kernel)
  have hresult : ((machine.run machine.init unspawnedStart).getD machine.init).starts 0 =
      some (.returned (.error "thread::spawn failed")) := by decide +kernel
  have howned := not_owned_of_run Inv.init hrun (by decide)
  have hrunning := (not_owned_iff.mp howned).1
  refine ⟨hrun, hresult, hrunning, by decide +kernel, fun hclean => ?_, howned,
    not_startable_of_not_owned howned⟩
  have hcall := (hclean [] unspawnedStart [] machine.init 0 _ _ rfl rfl
    ⟨⟨_, _, _, rfl, by simp⟩, hrun, hresult, rfl⟩).1
  rw [hrunning] at hcall
  simp [machine, Publisher.init, State.default] at hcall

end Publisher

end XyzenRelay.Capture
