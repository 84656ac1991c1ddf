-- SUMMARY: A connection that ends its stream: when the pump passes the end on, and when it leaves the pair half open.
import XyzenRelay.Relay.Pump

/-!
# Passing on the end of a stream

None of the pumps shuts a connection down or sends a `Close`: the side of an
endpoint ends when its halves are dropped, and they are dropped when the pump
returns. A loop that is over has therefore ended nothing yet. The pump is left
alone here from a state in which an endpoint has ended its stream, and the
question is whether it returns, whatever the order in which the two loops run.
-/

namespace XyzenRelay.Relay.Pump

variable {tr : Endpoint → Transport}

namespace Action

/-- The actions of the pump itself. -/
def pumps : Action tr → Bool
  | .move _ m => m.pumps
  | .refuse _ => true
  | .fail => false

/-- The actions in which a read or a write fails. -/
def isError : Action tr → Bool
  | .move _ _ => false
  | .refuse _ | .fail => true

end Action

namespace State

/-- An endpoint has ended its stream. -/
def Ended (s : State tr) (e : Endpoint) : Prop := (s.leg e).Over (reading (tr e))

/-- An endpoint has ended its stream, and everything it sent has been forwarded. -/
def Drained (s : State tr) (e : Endpoint) : Prop := (s.leg e).Drained (reading (tr e))

/-- The pump has nothing to do. -/
def Stuck (s : State tr) : Prop := ∀ act : Action tr, act.pumps = true → s.step act = none

/-- Left alone, the pump returns, and drops the halves of both connections. -/
def Closes (s : State tr) : Prop :=
  ∃ n, ∀ (acts : List (Action tr)) (t : State tr), (∀ act ∈ acts, act.pumps = true) →
    (machine tr).run s acts = some t → acts.length ≤ n ∧ (t.Stuck → t.returned = true)

/-- The end of a stream is passed on, as soon as everything before it has been. -/
def Propagates (s : State tr) : Prop := ∀ e, s.Drained e → s.Closes

/-- There is something to send to a WS connection whose stream has been read to its
    end. -/
def RefusalAhead (s : State tr) (e : Endpoint) : Prop :=
  s.refuses e = true ∧ ((s.leg e.other).pending ≠ [] ∨ (s.leg e.other).unread ≠ [])

instance decidableEnded (s : State tr) (e : Endpoint) : Decidable (s.Ended e) :=
  inferInstanceAs (Decidable (Leg.Over _ _))

instance decidableDrained (s : State tr) (e : Endpoint) : Decidable (s.Drained e) :=
  inferInstanceAs (Decidable (Leg.Drained _ _))

instance decidableRefusalAhead (s : State tr) (e : Endpoint) : Decidable (s.RefusalAhead e) :=
  inferInstanceAs (Decidable (_ ∧ (_ ∨ _)))

/-! ## The pump comes to rest -/

def weight (s : State tr) : Nat :=
  (s.leg .a).weight (reading (tr .a)) + (s.leg .b).weight (reading (tr .b)) +
    (!s.failed).toNat

theorem weight_step {s s' : State tr} {act : Action tr} (hact : act.pumps = true)
    (h : s.step act = some s') : s'.weight < s.weight := by
  cases act with
  | move e m =>
    obtain ⟨-, u, hu, rfl⟩ := step_move h
    have hlt := Leg.weight_step (loop_faithful tr e) hact hu
    cases e with
    | a =>
      have hb : (s.setLeg .a u).leg .b = s.leg .b := s.setLeg_leg_other .a u
      simp only [weight, setLeg_leg, hb, setLeg_failed]
      omega
    | b =>
      have ha : (s.setLeg .b u).leg .a = s.leg .a := s.setLeg_leg_other .b u
      simp only [weight, setLeg_leg, ha, setLeg_failed]
      omega
  | refuse e =>
    simp only [step, Option.ite_none_right_eq_some, Option.some.injEq, Bool.and_eq_true,
      Bool.not_eq_true', returned, Bool.or_eq_false_iff] at h
    obtain ⟨⟨⟨⟨hfailed, -⟩, -⟩, -⟩, rfl⟩ := h
    simp [weight, hfailed]
  | fail => cases hact

theorem failed_step {s s' : State tr} {act : Action tr} (h : s.step act = some s')
    (hfailed : s.failed = true) : s'.failed = true := by
  cases act with
  | move e m =>
    obtain ⟨-, u, -, rfl⟩ := step_move h
    exact hfailed
  | refuse | fail =>
    simp [step, returned, hfailed] at h

/-- Along the actions of the pump, the endpoints end nothing. -/
theorem ended_step {s s' : State tr} {act : Action tr} (hact : act.pumps = true)
    (h : s.step act = some s') (f : Endpoint) : s'.Ended f ↔ s.Ended f := by
  rcases leg_step h f with hleg | ⟨m, rfl, hm⟩
  · rw [Ended, Ended, hleg]
  · exact Leg.over_step hact hm

/-- Where the pump rests without having returned, nothing is in hand, and a loop that
    is not over waits for its endpoint. -/
theorem Stuck.rests {s : State tr} (h : s.Stuck) (hret : s.returned = false) (f : Endpoint) :
    (s.leg f).pending = [] ∧
      ((s.leg f).done = false → (s.leg f).unread = [] ∧ (s.leg f).ended = false) := by
  have hquiet : (s.leg f).Quiet (loop tr f) (s.refuses f.other) := by
    intro m hm
    have hmove := h (.move f m) hm
    simpa [step, hret] using hmove
  have hpending : (s.leg f).pending = [] := by
    cases hr : s.refuses f.other with
    | false =>
      rw [hr] at hquiet
      exact hquiet.pending
    | true =>
      have hrefuse := h (.refuse f) rfl
      simpa [step, hret, hr] using hrefuse
  exact ⟨hpending, hquiet.waits (loop_faithful tr f) hpending⟩

/-- Two loops at rest with nothing to wait for. -/
theorem stuck_of_rests {s : State tr}
    (h : ∀ f, (s.leg f).pending = [] ∧
      ((s.leg f).done = true ∨ ((s.leg f).unread = [] ∧ (s.leg f).ended = false))) :
    s.Stuck := by
  intro act hact
  cases act with
  | move f m =>
    have hquiet : (s.leg f).Quiet (loop tr f) (s.refuses f.other) := by
      rcases (h f).2 with hdone | ⟨hunread, hended⟩
      · exact Leg.quiet_of_done hdone (h f).1
      · exact Leg.quiet_of_waits (loop_faithful tr f) (h f).1 hunread hended
    simp [step, hquiet m hact]
  | refuse f => simp [step, (h f).1]
  | fail => cases hact

/-- A run of the pump alone is no longer than its weight. -/
theorem length_le_weight {s t : State tr} {acts : List (Action tr)}
    (hacts : ∀ act ∈ acts, act.pumps = true) (h : (machine tr).run s acts = some t) :
    acts.length ≤ s.weight := by
  have hlength := (machine tr).length_add_le_of_run (P := fun act => act.pumps = true)
    (fun _ _ _ hact hstep => weight_step hact hstep) hacts h
  omega

/-! ## When it returns -/

/-- Once both endpoints have ended their streams, the pump returns. -/
theorem closes_of_ended {s : State tr} (hs : s.Inv) (hended : ∀ f, s.Ended f) : s.Closes := by
  refine ⟨s.weight, fun acts t hacts hrun => ⟨length_le_weight hacts hrun, fun hstuck => ?_⟩⟩
  have ht : t.Inv ∧ ∀ f, t.Ended f :=
    (machine tr).keeps_run (P := fun act => act.pumps = true)
      (I := fun t => t.Inv ∧ ∀ f, t.Ended f)
      (fun _ _ _ hact hI hstep =>
        ⟨inv_step hI.1 hstep, fun f => (ended_step hact hstep f).mpr (hI.2 f)⟩)
      hacts ⟨hs, hended⟩ hrun
  by_contra hret
  rw [Bool.not_eq_true] at hret
  have hdone : ∀ f, (t.leg f).done = true := by
    intro f
    by_contra hdone
    rw [Bool.not_eq_true] at hdone
    obtain ⟨hunread, hopen⟩ := (hstuck.rests hret f).2 hdone
    rw [(ht.1 f).ended_of_over (ht.2 f) hdone hunread] at hopen
    cases hopen
  simp [returned, hdone] at hret

/-- Whatever the loop reads, it has something to send. -/
def NeverSilent {ι ο : Type} (F : Forwarder ι ο) : Prop :=
  ∀ xs ys, F.takes xs = true → F.body xs = some ys → ys ≠ []

theorem tcpToWs_neverSilent : NeverSilent tcpToWs := by
  intro xs ys _ hbody
  simp only [tcpToWs, Option.some.injEq] at hbody
  simp [← hbody]

theorem wsToWs_neverSilent : NeverSilent wsToWs := by
  intro xs ys htakes hbody
  obtain ⟨m, rfl⟩ := eq_singleton_of_takes htakes
  simp only [wsToWs, onMessage, Option.ite_none_left_eq_some, Option.some.injEq] at hbody
  simp [← hbody.2]

/-- A loop that sends to a WS connection makes a message of whatever it reads. -/
theorem loop_neverSilent {f : Endpoint} (hws : tr f.other = .ws) : NeverSilent (loop tr f) := by
  have hpump : ∀ a b : Transport,
      (b = .ws → NeverSilent (pump a b).1) ∧ (a = .ws → NeverSilent (pump a b).2) := by
    intro a b
    cases a <;> cases b
    · exact ⟨by simp, by simp⟩
    · exact ⟨fun _ => tcpToWs_neverSilent, by simp⟩
    · exact ⟨by simp, fun _ => tcpToWs_neverSilent⟩
    · exact ⟨fun _ => wsToWs_neverSilent, fun _ => wsToWs_neverSilent⟩
  cases f
  · exact (hpump _ _).1 hws
  · exact (hpump _ _).2 hws

/-- The next send is refused, or has been. -/
def Doomed (e : Endpoint) (s : State tr) : Prop :=
  s.failed = true ∨ (s.Inv ∧ ¬ s.Ended e.other ∧ s.RefusalAhead e)

theorem doomed_step {s s' : State tr} {e : Endpoint} {act : Action tr} (hact : act.pumps = true)
    (hs : s.Doomed e) (h : s.step act = some s') : s'.Doomed e := by
  rcases hs with hfailed | ⟨hinv, hended, hrefuses, hahead⟩
  · exact .inl (failed_step h hfailed)
  · have hinv' := inv_step hinv h
    have hended' : ¬ s'.Ended e.other := fun hend => hended ((ended_step hact h _).mp hend)
    have hrefuses' := refuses_step h hrefuses
    rcases leg_step h e.other with hleg | ⟨m, rfl, hm⟩
    · exact .inr ⟨hinv', hended', hrefuses', by rwa [hleg]⟩
    · refine .inr ⟨hinv', hended', hrefuses', .inl ?_⟩
      have hsink : s.refuses e.other.other = true := by
        rw [Endpoint.other_other]
        exact hrefuses
      have hws : tr e.other.other = .ws := by
        simp only [refuses, Bool.and_eq_true, decide_eq_true_eq] at hsink
        exact hsink.1
      have hdone' := (hinv' e.other).running_of_not_over hended'
      rw [Leg.step_eq_some] at hm
      generalize s'.leg e.other = u' at hm hdone'
      cases hm with
      | forward n ys hdone hfree htakes hbody =>
        exact List.append_ne_nil_of_right_ne_nil _ (loop_neverSilent hws _ _ htakes hbody)
      | stop | eof => simp at hdone'
      | write n hno =>
        rw [hsink] at hno
        cases hno
      | send | finish | own => cases hact

/-- With something to send to a WS connection that takes no more, the pump returns. -/
theorem closes_of_refusalAhead {s : State tr} {e : Endpoint} (hs : s.Inv)
    (hended : ¬ s.Ended e.other) (hahead : s.RefusalAhead e) : s.Closes := by
  refine ⟨s.weight, fun acts t hacts hrun => ⟨length_le_weight hacts hrun, fun hstuck => ?_⟩⟩
  have ht : t.Doomed e :=
    (machine tr).keeps_run (P := fun act => act.pumps = true)
      (fun _ _ _ hact hI hstep => doomed_step hact hI hstep) hacts (.inr ⟨hs, hended, hahead⟩) hrun
  rcases ht with hfailed | ⟨hinv, hended', -, hahead'⟩
  · simp [returned, hfailed]
  · by_contra hret
    rw [Bool.not_eq_true] at hret
    obtain ⟨hpending, hwaits⟩ := hstuck.rests hret e.other
    have hdone := (hinv e.other).running_of_not_over hended'
    rcases hahead' with hne | hne
    · exact hne hpending
    · exact hne (hwaits hdone).1

/-! ## When it does not -/

/-- An endpoint is drained, and the other one has neither ended its stream nor left
    the pump anything to fail at. -/
structure HalfOpen (s : State tr) (e : Endpoint) : Prop where
  inv : s.Inv
  healthy : s.failed = false
  drained : s.Drained e
  waits : ¬ s.Ended e.other
  quiet : ¬ s.RefusalAhead e

theorem HalfOpen.done_other {s : State tr} {e : Endpoint} (h : s.HalfOpen e) :
    (s.leg e.other).done = false :=
  (h.inv e.other).running_of_not_over h.waits

theorem HalfOpen.returned {s : State tr} {e : Endpoint} (h : s.HalfOpen e) :
    s.returned = false := by
  have hdone := h.done_other
  have hhealthy := h.healthy
  cases e with
  | a =>
    have hb : (s.leg .b).done = false := hdone
    rw [State.returned, hhealthy, hb, Bool.and_false, Bool.or_false]
  | b =>
    have ha : (s.leg .a).done = false := hdone
    rw [State.returned, hhealthy, ha, Bool.false_and, Bool.or_false]

theorem step_of_leg {s : State tr} (hret : s.returned = false) {f : Endpoint}
    {m : Move (Item (tr f)) (Item (tr f.other))} {u : Leg (Item (tr f)) (Item (tr f.other))}
    (hu : (s.leg f).step (loop tr f) (s.refuses f.other) m = some u) :
    s.step (.move f m) = some (s.setLeg f u) := by
  simp [step, hret, hu]

/-- With nothing to forward for the other endpoint, the loop of the drained one comes
    upon the end of its stream, and then the pump rests. -/
theorem HalfOpen.idle {s : State tr} {e : Endpoint} (h : s.HalfOpen e)
    (hidle : (s.leg e.other).pending = [] ∧ (s.leg e.other).unread = []) :
    s.Stuck ∨ ∃ act s', act.pumps = true ∧ s.step act = some s' ∧ s'.HalfOpen e := by
  cases hdone : (s.leg e).done with
  | true =>
    refine .inl (stuck_of_rests fun f => ?_)
    rcases e.eq_or_eq_other f with rfl | rfl
    · exact ⟨h.drained.written, .inl hdone⟩
    · refine ⟨hidle.1, .inr ⟨hidle.2, ?_⟩⟩
      rw [← Bool.not_eq_true]
      exact fun hend => h.waits (.inl hend)
  | false =>
    obtain ⟨m, u, hm, hu, hdrained, -⟩ :=
      Leg.Drained.ends (loop_faithful tr e) (h.inv e) h.drained hdone
    have hmove := step_of_leg h.returned hu
    refine .inr ⟨.move e m, _, hm, hmove, inv_step h.inv hmove, h.healthy, ?_, ?_, ?_⟩
    · rw [Drained, setLeg_leg]
      exact hdrained
    · rw [Ended, setLeg_leg_other]
      exact h.waits
    · rintro ⟨-, hahead⟩
      rw [setLeg_leg_other] at hahead
      rcases hahead with hne | hne
      · exact hne hidle.1
      · exact hne hidle.2

/-- With something to forward for the other endpoint, its loop goes on, since the
    drained one does not refuse it. -/
theorem HalfOpen.busy {s : State tr} {e : Endpoint} (h : s.HalfOpen e)
    (hbusy : ¬ ((s.leg e.other).pending = [] ∧ (s.leg e.other).unread = [])) :
    ∃ act s', act.pumps = true ∧ s.step act = some s' ∧ s'.HalfOpen e := by
  have hopen : s.refuses e = false := by
    rw [← Bool.not_eq_true]
    exact fun hrefuses => h.quiet ⟨hrefuses, not_and_or.mp hbusy⟩
  have hsink : s.refuses e.other.other = false := by
    rw [Endpoint.other_other]
    exact hopen
  have hinv := h.inv e.other
  rw [hsink] at hinv
  obtain ⟨m, u, hm, hu⟩ := Leg.exists_step (loop_faithful tr e.other) hinv h.waits hbusy
  rw [← hsink] at hu
  have hmove := step_of_leg h.returned hu
  have hact : (Action.move e.other m).pumps = true := hm
  have hleg : (s.setLeg e.other u).leg e = s.leg e :=
    Function.update_of_ne e.other_ne.symm ..
  refine ⟨.move e.other m, _, hm, hmove, inv_step h.inv hmove, h.healthy, ?_, ?_, ?_⟩
  · rw [Drained, hleg]
    exact h.drained
  · rw [ended_step hact hmove]
    exact h.waits
  · rintro ⟨hrefuses, -⟩
    simp only [refuses, hleg] at hrefuses hopen
    rw [hopen] at hrefuses
    cases hrefuses

/-- A half open pair comes to rest as one. -/
theorem HalfOpen.next {s : State tr} {e : Endpoint} (h : s.HalfOpen e) :
    s.Stuck ∨ ∃ act s', act.pumps = true ∧ s.step act = some s' ∧ s'.HalfOpen e := by
  by_cases hidle : (s.leg e.other).pending = [] ∧ (s.leg e.other).unread = []
  · exact h.idle hidle
  · exact .inr (h.busy hidle)

theorem HalfOpen.exists_stuck {s : State tr} {e : Endpoint} (h : s.HalfOpen e) :
    ∃ acts t, (∀ act ∈ acts, act.pumps = true) ∧ (machine tr).run s acts = some t ∧ t.Stuck ∧
      t.returned = false := by
  induction hw : s.weight using Nat.strong_induction_on generalizing s with
  | _ w ih =>
    rcases h.next with hstuck | ⟨act, s', hact, hstep, hs'⟩
    · exact ⟨[], s, by simp, rfl, hstuck, h.returned⟩
    · have hlt : s'.weight < w := hw ▸ weight_step hact hstep
      obtain ⟨acts, t, hacts, hrun, hstuck, hret⟩ := ih _ hlt hs' rfl
      exact ⟨act :: acts, t, List.forall_mem_cons.mpr ⟨hact, hacts⟩,
        (machine tr).run_cons.mpr ⟨s', hstep, hrun⟩, hstuck, hret⟩

theorem HalfOpen.not_closes {s : State tr} {e : Endpoint} (h : s.HalfOpen e) : ¬ s.Closes := by
  rintro ⟨n, hcloses⟩
  obtain ⟨acts, t, hacts, hrun, hstuck, hret⟩ := h.exists_stuck
  rw [(hcloses acts t hacts hrun).2 hstuck] at hret
  cases hret

/-- The end of one stream is passed on just when the other one has ended as well, or the
    next send fails. -/
theorem closes_iff {s : State tr} {e : Endpoint} (hs : s.Inv) (hhealthy : s.failed = false)
    (hdrained : s.Drained e) : s.Closes ↔ s.Ended e.other ∨ s.RefusalAhead e := by
  constructor
  · intro hcloses
    by_contra hnot
    rw [not_or] at hnot
    exact HalfOpen.not_closes ⟨hs, hhealthy, hdrained, hnot.1, hnot.2⟩ hcloses
  · intro h
    by_cases hended : s.Ended e.other
    · apply closes_of_ended hs
      intro f
      rcases e.eq_or_eq_other f with rfl | rfl
      · exact hdrained.finished
      · exact hended
    · exact closes_of_refusalAhead hs hended (h.resolve_left hended)

/-! ## Runs without errors -/

/-- Without an error, the pump stays healthy. -/
theorem healthy_visits {acts : List (Action tr)} (hacts : ∀ act ∈ acts, act.isError = false) :
    ∀ u ∈ (machine tr).visits (machine tr).init acts, u.Inv ∧ u.failed = false := by
  refine ((machine tr).meets_of_forall (C := fun act => act.isError = false) hacts).visits _
    (J := fun u => u.Inv ∧ u.failed = false) ?_ ⟨inv_init, rfl⟩
  rintro s act s' ⟨hs, hhealthy⟩ hact hstep
  refine ⟨inv_step hs hstep, ?_⟩
  cases act with
  | move e m =>
    obtain ⟨-, u, -, rfl⟩ := step_move hstep
    exact hhealthy
  | refuse | fail => cases hact

/-- Throughout a run without errors the end of a stream is passed on, exactly if in every
    state in which one endpoint has ended its stream and what it sent is forwarded, the
    other one has ended its own, or something of its is bound for the WS connection that
    takes no more. -/
theorem propagates_iff {acts : List (Action tr)} (hacts : ∀ act ∈ acts, act.isError = false) :
    (∀ u ∈ (machine tr).visits (machine tr).init acts, u.Propagates) ↔
      ∀ u ∈ (machine tr).visits (machine tr).init acts,
        ∀ e, u.Drained e → u.Ended e.other ∨ u.RefusalAhead e := by
  constructor
  · intro h u hu e hdrained
    obtain ⟨hinv, hhealthy⟩ := healthy_visits hacts u hu
    exact (closes_iff hinv hhealthy hdrained).mp (h u hu e hdrained)
  · intro h u hu e hdrained
    obtain ⟨hinv, hhealthy⟩ := healthy_visits hacts u hu
    exact (closes_iff hinv hhealthy hdrained).mpr (h u hu e hdrained)

/-- Both endpoints end their streams while something of theirs is still on the way. -/
def bothEndRun : List (Action rewrap) :=
  [.move .a (.send [WsMessage.binary [1], WsMessage.close]), .move .b (.send [2]),
    .move .b .finish, .move .b (.read 1), .move .a (.read 1), .move .b (.write 1),
    .move .b .eof, .move .a (.write 1), .move .a (.read 1)]

theorem propagates_bothEndRun :
    (∀ act ∈ bothEndRun, act.isError = false) ∧
      ∀ u ∈ (machine rewrap).visits (machine rewrap).init bothEndRun, u.Propagates :=
  ⟨by decide, (propagates_iff (by decide)).mpr (by decide)⟩

/-- Two TCP connections. -/
@[reducible] def tcpPair : Endpoint → Transport := fun _ => .tcp

/-- One of them sends a byte and ends its stream. -/
def halfCloseRun : List (Action tcpPair) :=
  [.move .a (.send [(1 : UInt8)]), .move .a (.read 1), .move .a (.write 1), .move .a .finish,
    .move .a .eof]

/-- The other connection is never told, as long as it does not end its own stream. -/
theorem end_not_passed_on :
    ¬ ∀ (tr : Endpoint → Transport) (acts : List (Action tr)),
      (∀ act ∈ acts, act.isError = false) →
        ∀ u ∈ (machine tr).visits (machine tr).init acts, u.Propagates := by
  intro h
  have hrun := (machine tcpPair).run_getD (s := (machine tcpPair).init) halfCloseRun (by decide)
  have hvisit := (machine tcpPair).mem_visits_of_run hrun
  have hhalf : HalfOpen (((machine tcpPair).run (machine tcpPair).init halfCloseRun).getD
      (machine tcpPair).init) .a :=
    ⟨preserves_inv.run _ inv_init hrun, rfl, by decide, by decide, by decide⟩
  exact hhalf.not_closes (h tcpPair halfCloseRun (by decide) _ hvisit .a hhalf.drained)

end State

end XyzenRelay.Relay.Pump
