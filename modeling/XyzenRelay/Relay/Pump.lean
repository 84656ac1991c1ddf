-- SUMMARY: The three pumps of the relay over every pair of transports, and that each of them is a pair of byte pipes.
import XyzenRelay.Lib.Machine
import XyzenRelay.Lib.Forwarder
import XyzenRelay.Relay.Pairing

/-!
# Pumping bytes

Model of `pump` and its three variants in `crates/relay/src/main.rs`. Each of them
runs two loops under one `try_join!`, and holds on to both halves of both
connections until it returns. A loop is a `Forwarder`; the machine interleaves
the two of them with what the endpoints do, one read or write at a time.

An error of a read or a write ends the whole pump. A WS connection also refuses
what is sent on it once its stream has ended: the library fails such a send by
itself.
-/

namespace XyzenRelay.Relay.Pump

/-- `tungstenite::Message`. Nothing reads what a `Close` carries. -/
inductive WsMessage where
  | text (text : String)
  | binary (payload : List UInt8)
  | ping (payload : List UInt8)
  | pong (payload : List UInt8)
  | close
  deriving DecidableEq, Repr

namespace WsMessage

/-- `matches!(m, WsMessage::Close(_))` -/
def isClose : WsMessage → Bool
  | .close => true
  | _ => false

/-- The bytes that a message carries. -/
def payload : WsMessage → List UInt8
  | .binary b => b
  | _ => []

end WsMessage

/-- What travels over a connection: bytes, or messages. -/
@[reducible] def Item : Transport → Type
  | .tcp => UInt8
  | .ws => WsMessage

instance instDecidableEqItem : (tr : Transport) → DecidableEq (Item tr)
  | .tcp => inferInstanceAs (DecidableEq UInt8)
  | .ws => inferInstanceAs (DecidableEq WsMessage)

/-- The byte string that an endpoint sends, or is given. -/
def reading : (tr : Transport) → Reading (Item tr) UInt8
  | .tcp => { stop := fun _ => false, data := fun b => [b] }
  | .ws => { stop := WsMessage.isClose, data := WsMessage.payload }

/-! ## The loops -/

/-- What the library writes to a WS connection by itself: answers to pings, and the
    answer to a `Close`, behind which it takes no more messages. -/
def wsOwn (refusing : Bool) : WsMessage → Bool
  | .pong _ => true
  | .close => refusing
  | _ => false

/-- A loop over the messages of a WS connection. -/
def onMessage {ο : Type} (f : WsMessage → Option (List ο)) : List WsMessage → Option (List ο)
  | [m] => f m
  | _ => some []

/-- `tokio::io::copy`. It reads on while a write is under way. -/
def copy : Forwarder UInt8 UInt8 where
  takes chunk := !chunk.isEmpty
  body chunk := some chunk
  buffered := true
  own _ _ := false

/-- `f1` of `pump_ws_ws`, and `f2`. -/
def wsToWs : Forwarder WsMessage WsMessage where
  takes chunk := chunk.length == 1
  body := onMessage fun m => if m.isClose then none else some [m]
  buffered := false
  own := wsOwn

/-- `f1` of `pump_tcp_ws`. -/
def tcpToWs : Forwarder UInt8 WsMessage where
  takes chunk := 0 < chunk.length && chunk.length ≤ 32 * 1024
  body chunk := some [.binary chunk]
  buffered := false
  own := wsOwn

/-- `f2` of `pump_tcp_ws`. -/
def wsToTcp : Forwarder WsMessage UInt8 where
  takes chunk := chunk.length == 1
  body := onMessage fun
    | .binary b => some b
    | .close => none
    | _ => some []
  buffered := false
  own _ _ := false

/-- The two loops of a pump: from its first connection to its second, and back. -/
abbrev Loops (a b : Transport) : Type := Forwarder (Item a) (Item b) × Forwarder (Item b) (Item a)

def pumpTcpTcp : Loops .tcp .tcp := (copy, copy)

def pumpWsWs : Loops .ws .ws := (wsToWs, wsToWs)

def pumpTcpWs : Loops .tcp .ws := (tcpToWs, wsToTcp)

def pump : (a b : Transport) → Loops a b
  | .tcp, .tcp => pumpTcpTcp
  | .ws, .ws => pumpWsWs
  | .tcp, .ws => pumpTcpWs
  | .ws, .tcp => pumpTcpWs.swap

/-! ## The machine -/

/-- The two connections of a pair, in the order in which `pump` gets them. -/
inductive Endpoint where
  | a
  | b
  deriving DecidableEq, Repr

namespace Endpoint

def other : Endpoint → Endpoint
  | .a => .b
  | .b => .a

@[simp] theorem other_other (e : Endpoint) : e.other.other = e := by cases e <;> rfl

@[simp] theorem other_ne (e : Endpoint) : e.other ≠ e := by cases e <;> simp [other]

theorem eq_or_eq_other (e f : Endpoint) : f = e ∨ f = e.other := by
  cases e <;> cases f <;> simp [other]

instance decidableForall {p : Endpoint → Prop} [DecidablePred p] : Decidable (∀ e, p e) :=
  decidable_of_iff (p .a ∧ p .b) ⟨fun h e => by cases e <;> simp [h], fun h => ⟨h .a, h .b⟩⟩

end Endpoint

variable {tr : Endpoint → Transport}

/-- The loop that reads from an endpoint. -/
def loop (tr : Endpoint → Transport) : (e : Endpoint) → Forwarder (Item (tr e)) (Item (tr e.other))
  | .a => (pump (tr .a) (tr .b)).1
  | .b => (pump (tr .a) (tr .b)).2

structure State (tr : Endpoint → Transport) where
  /-- The direction away from an endpoint. -/
  leg : (e : Endpoint) → Leg (Item (tr e)) (Item (tr e.other))
  /-- A read or a write has failed. -/
  failed : Bool

inductive Action (tr : Endpoint → Transport) where
  /-- A move in the direction away from an endpoint. -/
  | move (e : Endpoint) (m : Move (Item (tr e)) (Item (tr e.other)))
  /-- A send on a WS connection whose stream has ended. -/
  | refuse (e : Endpoint)
  /-- Any other error of a read or a write. -/
  | fail

namespace State

def init : State tr where
  leg _ := .init
  failed := false

/-- `try_join!` is over. Only then are the halves dropped, and with them the
    connections. -/
def returned (s : State tr) : Bool :=
  s.failed || ((s.leg .a).done && (s.leg .b).done)

/-- Whether an endpoint takes no more messages. -/
def refuses (s : State tr) (e : Endpoint) : Bool :=
  decide (tr e = .ws) && (s.leg e).done

def setLeg (s : State tr) (e : Endpoint) (u : Leg (Item (tr e)) (Item (tr e.other))) :
    State tr :=
  { s with leg := Function.update s.leg e u }

def step (s : State tr) : Action tr → Option (State tr)
  | .move e m =>
    -- what the endpoints send reaches nobody once the connections are dropped
    if s.returned && !m.ofSource then none
    else ((s.leg e).step (loop tr e) (s.refuses e.other) m).map (s.setLeg e)
  | .refuse e =>
    if !s.returned && s.refuses e.other && !(s.leg e).pending.isEmpty then
      some { s with failed := true }
    else none
  | .fail => if s.returned then none else some { s with failed := true }

end State

/-- A pump between connections of the transports `tr`. -/
def machine (tr : Endpoint → Transport) : Machine (State tr) (Action tr) where
  init := State.init
  step := State.step

/-! ## The loops keep the bytes -/

theorem wsOwn_silent {refusing : Bool} {m : WsMessage} (h : wsOwn refusing m = true) :
    m.payload = [] := by
  cases m <;> simp_all [wsOwn, WsMessage.payload]

theorem wsOwn_open {m : WsMessage} (h : wsOwn false m = true) : m.isClose = false := by
  cases m <;> simp_all [wsOwn, WsMessage.isClose]

/-- A read of one message. -/
theorem eq_singleton_of_takes {chunk : List WsMessage} (h : (chunk.length == 1) = true) :
    ∃ m, chunk = [m] :=
  List.length_eq_one_iff.mp (beq_iff_eq.mp h)

theorem copy_faithful : copy.Faithful (reading .tcp) (reading .tcp) where
  takes_one _ := rfl
  takes_nil := rfl
  forward := by
    intro xs ys _ hbody
    simp only [copy, Option.some.injEq] at hbody
    subst hbody
    exact ⟨fun _ _ => rfl, fun _ _ => rfl, rfl⟩
  shrink := by
    intro xs ys htakes hbody
    simp only [copy, Option.some.injEq] at hbody
    subst hbody
    have hpos : 0 < xs.length := by
      rw [List.length_pos_iff]
      simpa [copy] using htakes
    simp only [Reading.size]
    omega
  breaks := by simp [copy]
  own_silent := by simp [copy]
  own_open := by simp [copy]

theorem tcpToWs_faithful : tcpToWs.Faithful (reading .tcp) (reading .ws) where
  takes_one _ := rfl
  takes_nil := rfl
  forward := by
    intro xs ys _ hbody
    simp only [tcpToWs, Option.some.injEq] at hbody
    subst hbody
    refine ⟨fun _ _ => rfl, by simp [Reading.Open, reading, WsMessage.isClose], ?_⟩
    simp [reading, WsMessage.payload]
  shrink := by
    intro xs ys htakes hbody
    simp only [tcpToWs, Option.some.injEq] at hbody
    subst hbody
    have hpos : 0 < xs.length := by
      simp only [tcpToWs, Bool.and_eq_true, decide_eq_true_eq] at htakes
      exact htakes.1
    simp only [Reading.size, List.length_singleton]
    omega
  breaks := by simp [tcpToWs]
  own_silent := wsOwn_silent
  own_open := wsOwn_open

theorem wsToWs_faithful : wsToWs.Faithful (reading .ws) (reading .ws) where
  takes_one _ := rfl
  takes_nil := rfl
  forward := by
    intro xs ys htakes hbody
    obtain ⟨m, rfl⟩ := eq_singleton_of_takes htakes
    simp only [wsToWs, onMessage, Option.ite_none_left_eq_some, Option.some.injEq,
      Bool.not_eq_true] at hbody
    obtain ⟨hopen, rfl⟩ := hbody
    have hone : (reading .ws).Open [m] := by simpa [Reading.Open, reading] using hopen
    exact ⟨hone, hone, rfl⟩
  shrink := by
    intro xs ys htakes hbody
    obtain ⟨m, rfl⟩ := eq_singleton_of_takes htakes
    simp only [wsToWs, onMessage, Option.ite_none_left_eq_some, Option.some.injEq] at hbody
    obtain ⟨-, rfl⟩ := hbody
    simp only [Reading.size, List.length_singleton]
    omega
  breaks := by
    intro xs htakes hbody
    obtain ⟨m, rfl⟩ := eq_singleton_of_takes htakes
    simp only [wsToWs, onMessage, ite_eq_left_iff, reduceCtorEq, imp_false, Bool.not_eq_true,
      Bool.not_eq_false] at hbody
    exact ⟨rfl, m, [], rfl, hbody⟩
  own_silent := wsOwn_silent
  own_open := wsOwn_open

theorem wsToTcp_faithful : wsToTcp.Faithful (reading .ws) (reading .tcp) where
  takes_one _ := rfl
  takes_nil := rfl
  forward := by
    intro xs ys htakes hbody
    obtain ⟨m, rfl⟩ := eq_singleton_of_takes htakes
    cases m <;> simp_all [wsToTcp, onMessage, Reading.Open, reading, WsMessage.isClose,
      WsMessage.payload]
  shrink := by
    intro xs ys htakes hbody
    obtain ⟨m, rfl⟩ := eq_singleton_of_takes htakes
    cases m <;> simp_all [wsToTcp, onMessage, Reading.size, reading, WsMessage.payload]
  breaks := by
    intro xs htakes hbody
    obtain ⟨m, rfl⟩ := eq_singleton_of_takes htakes
    cases m <;> simp_all [wsToTcp, onMessage, reading, WsMessage.isClose]
  own_silent := by simp [wsToTcp]
  own_open := by simp [wsToTcp]

/-- Both loops of every pump keep the bytes. -/
theorem pump_faithful (a b : Transport) :
    (pump a b).1.Faithful (reading a) (reading b) ∧
      (pump a b).2.Faithful (reading b) (reading a) := by
  cases a <;> cases b
  · exact ⟨copy_faithful, copy_faithful⟩
  · exact ⟨tcpToWs_faithful, wsToTcp_faithful⟩
  · exact ⟨wsToTcp_faithful, tcpToWs_faithful⟩
  · exact ⟨wsToWs_faithful, wsToWs_faithful⟩

theorem loop_faithful (tr : Endpoint → Transport) (e : Endpoint) :
    (loop tr e).Faithful (reading (tr e)) (reading (tr e.other)) := by
  cases e
  · exact (pump_faithful (tr .a) (tr .b)).1
  · exact (pump_faithful (tr .a) (tr .b)).2

/-! ## A pump is a pair of pipes -/

namespace State

variable {tr : Endpoint → Transport}

/-- Both directions keep the bytes. -/
def Inv (s : State tr) : Prop :=
  ∀ e, (s.leg e).Inv (reading (tr e)) (reading (tr e.other)) (s.refuses e.other)

theorem inv_init : Inv (init : State tr) := fun _ => .init

theorem step_move {s s' : State tr} {e : Endpoint} {m : Move (Item (tr e)) (Item (tr e.other))}
    (h : s.step (.move e m) = some s') :
    (s.returned = true → m.ofSource = true) ∧
      ∃ u, (s.leg e).step (loop tr e) (s.refuses e.other) m = some u ∧ s' = s.setLeg e u := by
  simp only [step, Option.ite_none_left_eq_some, Option.map_eq_some_iff, Bool.not_eq_true,
    Bool.and_eq_false_iff, Bool.not_eq_false'] at h
  obtain ⟨hguard, u, hu, rfl⟩ := h
  refine ⟨fun hret => ?_, u, hu, rfl⟩
  rcases hguard with hno | hsource
  · rw [hret] at hno
    cases hno
  · exact hsource

@[simp] theorem setLeg_leg (s : State tr) (e : Endpoint)
    (u : Leg (Item (tr e)) (Item (tr e.other))) : (s.setLeg e u).leg e = u :=
  Function.update_self ..

@[simp] theorem setLeg_leg_other (s : State tr) (e : Endpoint)
    (u : Leg (Item (tr e)) (Item (tr e.other))) :
    (s.setLeg e u).leg e.other = s.leg e.other :=
  Function.update_of_ne e.other_ne ..

@[simp] theorem setLeg_failed (s : State tr) (e : Endpoint)
    (u : Leg (Item (tr e)) (Item (tr e.other))) : (s.setLeg e u).failed = s.failed := rfl

/-- A step moves one direction at most. -/
theorem leg_step {s s' : State tr} {act : Action tr} (h : s.step act = some s') (f : Endpoint) :
    s'.leg f = s.leg f ∨ ∃ m, act = .move f m ∧
      (s.leg f).step (loop tr f) (s.refuses f.other) m = some (s'.leg f) := by
  cases act with
  | move e m =>
    obtain ⟨-, u, hu, rfl⟩ := step_move h
    rcases e.eq_or_eq_other f with rfl | rfl
    · exact .inr ⟨m, rfl, by rw [setLeg_leg, hu]⟩
    · exact .inl (setLeg_leg_other s e u)
  | refuse e =>
    simp only [step, Option.ite_none_right_eq_some, Option.some.injEq] at h
    obtain ⟨-, rfl⟩ := h
    exact .inl rfl
  | fail =>
    simp only [step, Option.ite_none_left_eq_some, Option.some.injEq] at h
    obtain ⟨-, rfl⟩ := h
    exact .inl rfl

theorem refuses_step {s s' : State tr} {act : Action tr} (h : s.step act = some s')
    {f : Endpoint} (hrefuses : s.refuses f = true) : s'.refuses f = true := by
  simp only [refuses, Bool.and_eq_true] at hrefuses ⊢
  refine ⟨hrefuses.1, ?_⟩
  rcases leg_step h f with hleg | ⟨m, -, hm⟩
  · rw [hleg]
    exact hrefuses.2
  · exact Leg.done_step hm hrefuses.2

theorem inv_step {s s' : State tr} {act : Action tr} (hs : s.Inv) (h : s.step act = some s') :
    s'.Inv := by
  intro f
  apply Leg.Inv.refuse _ (refuses_step h)
  rcases leg_step h f with hleg | ⟨m, -, hm⟩
  · rw [hleg]
    exact hs f
  · exact (hs f).step (loop_faithful tr f) hm

theorem preserves_inv : (machine tr).Preserves Inv := fun _ _ _ hs h => inv_step hs h

/-- The bytes that an endpoint has sent. -/
def sent (s : State tr) (e : Endpoint) : List UInt8 := (reading (tr e)).view (s.leg e).sent

/-- The bytes of an endpoint that the other one has been given. -/
def arrived (s : State tr) (e : Endpoint) : List UInt8 :=
  (reading (tr e.other)).view (s.leg e).delivered

/-- The two directions are the pipes `p`. -/
def Shows (s : State tr) (p : Endpoint → Pipe UInt8) : Prop :=
  ∀ e, (p e).sent = s.sent e ∧ (p e).got = s.arrived e ∧ (p e).closed = (s.leg e).done

theorem Inv.shows {s : State tr} (hs : s.Inv) : s.Shows fun e => (hs e).pipe :=
  fun _ => ⟨rfl, rfl, rfl⟩

/-- A step of the pump is one of each pipe, or none. -/
theorem Inv.advances {s s' : State tr} {act : Action tr} (hs : s.Inv) (hs' : s'.Inv)
    (h : s.step act = some s') (e : Endpoint) : (hs e).pipe.Advances (hs' e).pipe := by
  rcases leg_step h e with hleg | ⟨m, -, hm⟩
  · simp only [Leg.Inv.pipe, hleg]
    exact .refl _
  · exact (hs e).advances (hs' e) hm

theorem Inv.advances_run {s t : State tr} {acts : List (Action tr)} (hs : s.Inv) (ht : t.Inv)
    (h : (machine tr).run s acts = some t) (e : Endpoint) : (hs e).pipe.Advances (ht e).pipe := by
  induction acts generalizing s with
  | nil =>
    simp only [Machine.run_nil, Option.some.injEq] at h
    subst h
    exact .refl _
  | cons act acts ih =>
    obtain ⟨s', hstep, hrest⟩ := (machine tr).run_cons.mp h
    exact (hs.advances (inv_step hs hstep) hstep e).trans (ih (inv_step hs hstep) hrest)

/-- Whatever the pump, both directions are byte pipes: what has arrived is a prefix
    of what was sent, and all of it once the direction is over, so that two pumps
    whose senders sent the same bytes deliver the same bytes. -/
theorem relay_transparent {before acts : List (Action tr)} {s t : State tr}
    (hs : (machine tr).run (machine tr).init before = some s)
    (ht : (machine tr).run s acts = some t) :
    (∃ p q : Endpoint → Pipe UInt8, s.Shows p ∧ t.Shows q ∧ ∀ e, (p e).Advances (q e)) ∧
      (∀ e, t.arrived e <+: t.sent e ∧ ((t.leg e).done = true → t.arrived e = t.sent e)) ∧
      ∀ (tr' : Endpoint → Transport) (acts' : List (Action tr')) (t' : State tr'),
        (machine tr').run (machine tr').init acts' = some t' →
        ∀ e e', (t.leg e).done = true → (t'.leg e').done = true → t'.sent e' = t.sent e →
          t'.arrived e' = t.arrived e := by
  have his : s.Inv := preserves_inv.run _ inv_init hs
  have hit : t.Inv := preserves_inv.run _ his ht
  refine ⟨⟨_, _, his.shows, hit.shows, his.advances_run hit ht⟩, fun e => ?_, ?_⟩
  · exact ⟨(hit e).view_delivered, (hit e).view_eq⟩
  · intro tr' acts' t' ht' e e' hdone hdone' hsent
    have hit' : t'.Inv := preserves_inv.run _ inv_init ht'
    calc t'.arrived e' = t'.sent e' := (hit' e').view_eq hdone'
      _ = t.sent e := hsent
      _ = t.arrived e := ((hit e).view_eq hdone).symm

/-- A WS connection waits, and a TCP connection is paired with it. -/
@[reducible] def rewrap : Endpoint → Transport
  | .a => .ws
  | .b => .tcp

def rewrapRun : List (Action rewrap) :=
  [.move .a (.send [WsMessage.text "hi", WsMessage.binary [1], WsMessage.binary [],
      WsMessage.binary [2, 3]]),
    .move .b (.send [7, 8]), .move .a (.read 1), .move .a (.read 1), .move .a (.write 1),
    .move .b (.read 2), .move .a (.read 1), .move .b (.write 1), .move .a (.read 1),
    .move .a (.send [WsMessage.close]), .move .a (.write 1), .move .a (.write 1),
    .move .a (.read 1)]

theorem relay_transparent_rewrapped :
    (((machine rewrap).run (machine rewrap).init rewrapRun).getD (machine rewrap).init).arrived .a =
      [1, 2, 3] := by
  have h := (@relay_transparent rewrap [] rewrapRun _ _ rfl
    ((machine rewrap).run_getD rewrapRun (by decide))).2.1 .a
  exact (h.2 (by decide)).trans (by decide)

end State

end XyzenRelay.Relay.Pump
