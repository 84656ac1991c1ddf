-- SUMMARY: Loops that forward one stream into another, with what is in flight between them, and the pipe each of them is.
import Mathlib.Data.List.TakeWhile

/-!
# Forwarding loops

A forwarding loop takes items off a stream, and writes what its body makes of
them to a sink whose items may be of another kind. What the two sides have in
common is the data that their items carry, and `Reading` says how it is read
off. A loop with the laws of `Faithful` is a pipe for that data: whatever it
takes at a time, and wherever its writes are cut.
-/

/-! ## Reading data off a stream -/

/-- How data is read off a stream of items. A `stop` item ends the stream. -/
structure Reading (ι β : Type) where
  stop : ι → Bool
  data : ι → List β

namespace Reading

variable {ι β : Type} (R : Reading ι β)

/-- The data up to the first item that ends the stream. -/
def view (xs : List ι) : List β :=
  (xs.takeWhile fun x => !R.stop x).flatMap R.data

/-- No item ends the stream. -/
def Open (xs : List ι) : Prop := ∀ x ∈ xs, R.stop x = false

/-- A bound on what a list of items can be forwarded as. -/
def size (xs : List ι) : Nat := (xs.flatMap R.data).length + 2 * xs.length

variable {R}

@[simp] theorem view_nil : R.view [] = [] := rfl

@[simp] theorem open_append {xs ys : List ι} : R.Open (xs ++ ys) ↔ R.Open xs ∧ R.Open ys := by
  simp only [Open, List.mem_append, or_imp, forall_and]

theorem view_append {xs : List ι} (h : R.Open xs) (ys : List ι) :
    R.view (xs ++ ys) = xs.flatMap R.data ++ R.view ys := by
  have htake : ∀ x ∈ xs, (!R.stop x) = true := fun x hx => by rw [h x hx]; rfl
  rw [view, List.takeWhile_append_of_pos htake, List.flatMap_append]
  rfl

theorem view_of_open {xs : List ι} (h : R.Open xs) : R.view xs = xs.flatMap R.data := by
  simpa using view_append h []

theorem view_cons_stop {x : ι} (h : R.stop x = true) (xs : List ι) : R.view (x :: xs) = [] := by
  simp [view, h]

/-- Nothing is read behind an item that ends the stream. -/
theorem view_append_of_stop {x : ι} {xs : List ι} (hx : x ∈ xs) (hstop : R.stop x = true)
    (ys : List ι) :
    R.view (xs ++ ys) = R.view xs := by
  induction xs with
  | nil => simp at hx
  | cons z zs ih =>
    cases hz : R.stop z with
    | true => rw [List.cons_append, view_cons_stop hz, view_cons_stop hz]
    | false =>
      have htail : x ∈ zs := by
        rcases List.mem_cons.mp hx with rfl | htail
        · rw [hstop] at hz
          cases hz
        · exact htail
      have hone : R.Open [z] := by simpa [Open] using hz
      have h := ih htail
      rw [List.cons_append, ← List.singleton_append, view_append hone, h, ← view_append hone]
      rfl

/-- A stream is open, or some item ends it. -/
theorem open_or_stop (R : Reading ι β) (xs : List ι) :
    R.Open xs ∨ ∃ x ∈ xs, R.stop x = true := by
  by_cases h : R.Open xs
  · exact .inl h
  · refine .inr ?_
    simpa [Open] using h

theorem view_prefix_append (xs ys : List ι) : R.view xs <+: R.view (xs ++ ys) := by
  rcases R.open_or_stop xs with h | ⟨x, hx, hstop⟩
  · rw [view_append h, view_of_open h]
    exact List.prefix_append _ _
  · exact ⟨[], by rw [List.append_nil, view_append_of_stop hx hstop]⟩

theorem view_mono {xs ys : List ι} (h : xs <+: ys) : R.view xs <+: R.view ys := by
  obtain ⟨tl, rfl⟩ := h
  exact view_prefix_append _ _

/-- An item without data does not show. -/
theorem view_concat_of_silent {x : ι} (h : R.data x = []) (xs : List ι) :
    R.view (xs ++ [x]) = R.view xs := by
  rcases R.open_or_stop xs with hopen | ⟨z, hz, hstop⟩
  · rw [view_append hopen, view_of_open hopen]
    cases hx : R.stop x <;> simp [view, hx, h]
  · exact view_append_of_stop hz hstop _

@[simp] theorem size_append (xs ys : List ι) : R.size (xs ++ ys) = R.size xs + R.size ys := by
  simp only [size, List.flatMap_append, List.length_append]
  omega

theorem size_take_add_drop (n : Nat) (xs : List ι) :
    R.size (xs.take n) + R.size (xs.drop n) = R.size xs := by
  rw [← size_append, List.take_append_drop]

end Reading

/-! ## Pipes -/

/-- A pipe as its two ends see it: what went in, and what came out. A pipe that
    is closed has nothing left in it. -/
structure Pipe (β : Type) where
  sent : List β
  got : List β
  closed : Bool
  inOrder : got <+: sent
  whole : closed = true → got = sent

namespace Pipe

variable {β : Type}

/-- A pipe goes on: more goes in and more comes out, unless it is closed. -/
structure Advances (p q : Pipe β) : Prop where
  sent : p.sent <+: q.sent
  got : p.got <+: q.got
  closed : p.closed = true → q.closed = true ∧ q.sent = p.sent

theorem Advances.refl (p : Pipe β) : p.Advances p :=
  ⟨List.prefix_rfl, List.prefix_rfl, fun h => ⟨h, rfl⟩⟩

theorem Advances.trans {p q r : Pipe β} (hpq : p.Advances q) (hqr : q.Advances r) :
    p.Advances r where
  sent := hpq.sent.trans hqr.sent
  got := hpq.got.trans hqr.got
  closed := by
    intro h
    obtain ⟨hq, hsent⟩ := hpq.closed h
    obtain ⟨hr, hsent'⟩ := hqr.closed hq
    exact ⟨hr, hsent'.trans hsent⟩

end Pipe

/-! ## Forwarding loops -/

/-- A loop between a stream of `ι` and a sink for `ο`. -/
structure Forwarder (ι ο : Type) where
  /-- What one read may take off the front of the stream. -/
  takes : List ι → Bool
  /-- What is written for what was read, or `none` where the loop breaks. -/
  body : List ι → Option (List ο)
  /-- Whether the loop reads on while a write is under way. -/
  buffered : Bool
  /-- What the sink may write by itself, once it refuses writes and before. -/
  own : Bool → ο → Bool

/-- One direction: the stream, what the loop has in hand, and the sink. -/
structure Leg (ι ο : Type) where
  /-- What the loop has read. -/
  seen : List ι
  /-- What the source has sent and the loop has not read. -/
  unread : List ι
  /-- The source has ended its stream. -/
  ended : Bool
  /-- What has been read and not yet been written. -/
  pending : List ο
  /-- What the other side has been given. -/
  delivered : List ο
  /-- The loop is over. -/
  done : Bool
  deriving DecidableEq

inductive Move (ι ο : Type) where
  /-- The source sends. -/
  | send (xs : List ι)
  /-- The source ends its stream. -/
  | finish
  /-- A read returns `n` items, and the body runs on them. -/
  | read (n : Nat)
  /-- A read returns the end of the stream. -/
  | eof
  /-- The next `n` items in hand are written. -/
  | write (n : Nat)
  /-- The sink writes an item by itself. -/
  | own (y : ο)
  deriving DecidableEq

namespace Move

variable {ι ο : Type}

/-- The moves of the loop. -/
def pumps : Move ι ο → Bool
  | .read _ | .eof | .write _ => true
  | .send _ | .finish | .own _ => false

/-- What the source sends. -/
def sends : Move ι ο → List ι
  | .send xs => xs
  | .finish | .read _ | .eof | .write _ | .own _ => []

/-- The moves of the source. -/
def ofSource : Move ι ο → Bool
  | .send _ | .finish => true
  | .read _ | .eof | .write _ | .own _ => false

end Move

namespace Leg

variable {ι ο : Type}

def init : Leg ι ο where
  seen := []
  unread := []
  ended := false
  pending := []
  delivered := []
  done := false

/-- Everything the source has sent. -/
def sent (u : Leg ι ο) : List ι := u.seen ++ u.unread

/-- What the body made of a read. -/
def afterRead (F : Forwarder ι ο) (u : Leg ι ο) (n : Nat) : Leg ι ο :=
  let u' := { u with seen := u.seen ++ u.unread.take n, unread := u.unread.drop n }
  match F.body (u.unread.take n) with
  | some ys => { u' with pending := u.pending ++ ys }
  | none => { u' with done := true }

/-- One move. A sink that is `refusing` takes no more writes. -/
def step (F : Forwarder ι ο) (refusing : Bool) (u : Leg ι ο) : Move ι ο → Option (Leg ι ο)
  | .send xs => if u.ended then none else some { u with unread := u.unread ++ xs }
  | .finish => if u.ended then none else some { u with ended := true }
  | .read n =>
    if u.done = false ∧ (F.buffered = true ∨ u.pending = []) ∧ F.takes (u.unread.take n) = true then
      some (u.afterRead F n)
    else none
  | .eof =>
    if u.done = false ∧ u.pending = [] ∧ u.unread = [] ∧ u.ended = true then
      some { u with done := true }
    else none
  | .write n =>
    if refusing = false ∧ 0 < n ∧ n ≤ u.pending.length then
      some { u with
        delivered := u.delivered ++ u.pending.take n, pending := u.pending.drop n }
    else none
  | .own y => if F.own refusing y then some { u with delivered := u.delivered ++ [y] } else none

/-- What a move does, case by case. -/
inductive Steps (F : Forwarder ι ο) (refusing : Bool) (u : Leg ι ο) : Move ι ο → Leg ι ο → Prop
  | send (xs : List ι) (hended : u.ended = false) :
    Steps F refusing u (.send xs) { u with unread := u.unread ++ xs }
  | finish (hended : u.ended = false) : Steps F refusing u .finish { u with ended := true }
  | forward (n : Nat) (ys : List ο) (hdone : u.done = false)
    (hfree : F.buffered = true ∨ u.pending = []) (htakes : F.takes (u.unread.take n) = true)
    (hbody : F.body (u.unread.take n) = some ys) :
    Steps F refusing u (.read n) { u with
      seen := u.seen ++ u.unread.take n, unread := u.unread.drop n, pending := u.pending ++ ys }
  | stop (n : Nat) (hdone : u.done = false)
    (hfree : F.buffered = true ∨ u.pending = []) (htakes : F.takes (u.unread.take n) = true)
    (hbody : F.body (u.unread.take n) = none) :
    Steps F refusing u (.read n) { u with
      seen := u.seen ++ u.unread.take n, unread := u.unread.drop n, done := true }
  | eof (hdone : u.done = false) (hpending : u.pending = []) (hunread : u.unread = [])
    (hended : u.ended = true) : Steps F refusing u .eof { u with done := true }
  | write (n : Nat) (hrefusing : refusing = false) (hpos : 0 < n) (hle : n ≤ u.pending.length) :
    Steps F refusing u (.write n) { u with
      delivered := u.delivered ++ u.pending.take n, pending := u.pending.drop n }
  | own (y : ο) (hown : F.own refusing y = true) :
    Steps F refusing u (.own y) { u with delivered := u.delivered ++ [y] }

theorem step_eq_some {F : Forwarder ι ο} {refusing : Bool} {u u' : Leg ι ο} {m : Move ι ο} :
    u.step F refusing m = some u' ↔ Steps F refusing u m u' := by
  constructor
  · intro h
    cases m with
    | read n =>
      simp only [step, Option.ite_none_right_eq_some, Option.some.injEq] at h
      obtain ⟨⟨hdone, hfree, htakes⟩, rfl⟩ := h
      simp only [afterRead]
      split
      · next ys hbody => exact .forward n ys hdone hfree htakes hbody
      · next hbody => exact .stop n hdone hfree htakes hbody
    | send xs =>
      simp only [step, Option.ite_none_left_eq_some, Option.some.injEq, Bool.not_eq_true] at h
      obtain ⟨hended, rfl⟩ := h
      exact .send xs hended
    | finish =>
      simp only [step, Option.ite_none_left_eq_some, Option.some.injEq, Bool.not_eq_true] at h
      obtain ⟨hended, rfl⟩ := h
      exact .finish hended
    | eof =>
      simp only [step, Option.ite_none_right_eq_some, Option.some.injEq] at h
      obtain ⟨⟨hdone, hpending, hunread, hended⟩, rfl⟩ := h
      exact .eof hdone hpending hunread hended
    | write n =>
      simp only [step, Option.ite_none_right_eq_some, Option.some.injEq] at h
      obtain ⟨⟨hrefusing, hpos, hle⟩, rfl⟩ := h
      exact .write n hrefusing hpos hle
    | own y =>
      simp only [step, Option.ite_none_right_eq_some, Option.some.injEq] at h
      obtain ⟨hown, rfl⟩ := h
      exact .own y hown
  · intro h
    cases h <;> simp_all [step, afterRead]

end Leg

/-! ## What a forwarding loop keeps -/

/-- A loop that keeps the data: a read that it goes on with holds no stop, and is
    written as items with the same data. -/
structure Forwarder.Faithful {ι ο β : Type} (F : Forwarder ι ο) (R : Reading ι β)
    (S : Reading ο β) : Prop where
  takes_one : ∀ x, F.takes [x] = true
  takes_nil : F.takes [] = false
  forward : ∀ {xs ys}, F.takes xs = true → F.body xs = some ys →
    R.Open xs ∧ S.Open ys ∧ ys.flatMap S.data = xs.flatMap R.data
  /-- What a read is written as is bounded by its size. -/
  shrink : ∀ {xs ys}, F.takes xs = true → F.body xs = some ys → ys.length < R.size xs
  /-- The loop breaks at a stop, with nothing in hand. -/
  breaks : ∀ {xs}, F.takes xs = true → F.body xs = none →
    F.buffered = false ∧ ∃ x tl, xs = x :: tl ∧ R.stop x = true
  own_silent : ∀ {refusing y}, F.own refusing y = true → S.data y = []
  own_open : ∀ {y}, F.own false y = true → S.stop y = false

namespace Leg

variable {ι ο β : Type} {F : Forwarder ι ο} {R : Reading ι β} {S : Reading ο β}

/-- The data that the loop has read is with the sink or in hand. -/
structure Inv (R : Reading ι β) (S : Reading ο β) (refusing : Bool) (u : Leg ι ο) : Prop where
  balance : S.view u.delivered ++ u.pending.flatMap S.data = R.view u.seen
  plain : S.Open u.pending
  running : u.done = false → R.Open u.seen
  finished : u.done = true →
    u.pending = [] ∧ ((∃ x ∈ u.seen, R.stop x = true) ∨ (u.unread = [] ∧ u.ended = true))
  /-- The sink's own farewell comes when it takes no more writes. -/
  farewell : refusing = false → S.Open u.delivered

theorem Inv.init {refusing : Bool} : Inv R S refusing (Leg.init : Leg ι ο) where
  balance := rfl
  plain := by simp [Reading.Open, Leg.init]
  running := by simp [Reading.Open, Leg.init]
  finished := by simp [Leg.init]
  farewell := by simp [Reading.Open, Leg.init]

/-- A sink that starts refusing. -/
theorem Inv.refuse {refusing refusing' : Bool} {u : Leg ι ο} (hu : Inv R S refusing u)
    (h : refusing = true → refusing' = true) : Inv R S refusing' u :=
  { hu with
    farewell := by
      intro hno
      cases hr : refusing with
      | false => exact hu.farewell hr
      | true =>
        rw [h hr] at hno
        cases hno }

/-- A loop that is over while its source goes on has come upon a stop. -/
theorem Inv.stopped {refusing : Bool} {u : Leg ι ο} (hu : Inv R S refusing u)
    (hended : u.ended = false) (hdone : u.done = true) :
    u.pending = [] ∧ ∃ x ∈ u.seen, R.stop x = true := by
  obtain ⟨hpending, hstop | ⟨-, hend⟩⟩ := hu.finished hdone
  · exact ⟨hpending, hstop⟩
  · rw [hend] at hended
    cases hended

/-- What is read and goes on is in hand, with its data. -/
theorem Inv.forward (hF : F.Faithful R S) {refusing : Bool} {u : Leg ι ο} {n : Nat} {ys : List ο}
    (hu : Inv R S refusing u) (hdone : u.done = false) (htakes : F.takes (u.unread.take n) = true)
    (hbody : F.body (u.unread.take n) = some ys) :
    Inv R S refusing { u with
      seen := u.seen ++ u.unread.take n
      unread := u.unread.drop n
      pending := u.pending ++ ys } := by
  obtain ⟨hopen, hys, hdata⟩ := hF.forward htakes hbody
  have hseen := hu.running hdone
  have hboth := Reading.open_append.mpr ⟨hseen, hopen⟩
  refine ⟨?_, Reading.open_append.mpr ⟨hu.plain, hys⟩, fun _ => hboth, ?_, hu.farewell⟩
  · have hbalance := hu.balance
    rw [Reading.view_of_open hseen] at hbalance
    rw [Reading.view_of_open hboth, List.flatMap_append, List.flatMap_append,
      ← List.append_assoc, hbalance, hdata]
  · intro hd
    rw [hdone] at hd
    cases hd

/-- A stop ends the loop with everything in front of it delivered. -/
theorem Inv.stop (hF : F.Faithful R S) {refusing : Bool} {u : Leg ι ο} {n : Nat}
    (hu : Inv R S refusing u) (hdone : u.done = false)
    (hfree : F.buffered = true ∨ u.pending = []) (htakes : F.takes (u.unread.take n) = true)
    (hbody : F.body (u.unread.take n) = none) :
    Inv R S refusing { u with
      seen := u.seen ++ u.unread.take n, unread := u.unread.drop n, done := true } := by
  obtain ⟨hunbuffered, x, tl, hx, hstop⟩ := hF.breaks htakes hbody
  have hpending : u.pending = [] := by
    rcases hfree with hbuf | hpending
    · rw [hunbuffered] at hbuf
      cases hbuf
    · exact hpending
  have hx' : x ∈ u.seen ++ u.unread.take n := by simp [hx]
  refine ⟨?_, hu.plain, by simp, fun _ => ⟨hpending, .inl ⟨x, hx', hstop⟩⟩, hu.farewell⟩
  have hseen := hu.running hdone
  rw [hx, Reading.view_append hseen, Reading.view_cons_stop hstop, List.append_nil,
    ← Reading.view_of_open hseen]
  exact hu.balance

/-- A write moves data from the hand to the sink. -/
theorem Inv.write {refusing : Bool} {u : Leg ι ο} {n : Nat} (hu : Inv R S refusing u)
    (hrefusing : refusing = false) (hpos : 0 < n) (hle : n ≤ u.pending.length) :
    Inv R S refusing { u with
      delivered := u.delivered ++ u.pending.take n, pending := u.pending.drop n } := by
  have hplain := hu.plain
  rw [← List.take_append_drop n u.pending, Reading.open_append] at hplain
  have hdelivered := hu.farewell hrefusing
  have hboth := Reading.open_append.mpr ⟨hdelivered, hplain.1⟩
  refine ⟨?_, hplain.2, hu.running, ?_, fun _ => hboth⟩
  · have hbalance := hu.balance
    rw [Reading.view_of_open hdelivered, ← List.take_append_drop n u.pending,
      List.flatMap_append, ← List.append_assoc] at hbalance
    rw [Reading.view_of_open hboth, List.flatMap_append]
    exact hbalance
  · intro hdone
    rw [(hu.finished hdone).1] at hle
    simp only [List.length_nil] at hle
    omega

theorem Inv.step (hF : F.Faithful R S) {refusing : Bool} {u u' : Leg ι ο} {m : Move ι ο}
    (hu : Inv R S refusing u) (h : u.step F refusing m = some u') : Inv R S refusing u' := by
  rw [step_eq_some] at h
  cases h with
  | send xs hended | finish hended =>
    refine { hu with finished := fun hdone => ?_ }
    obtain ⟨hpending, hstop⟩ := hu.stopped hended hdone
    exact ⟨hpending, .inl hstop⟩
  | forward n ys hdone _ htakes hbody => exact hu.forward hF hdone htakes hbody
  | stop n hdone hfree htakes hbody => exact hu.stop hF hdone hfree htakes hbody
  | eof hdone hpending hunread hended =>
    exact ⟨hu.balance, hu.plain, by simp, fun _ => ⟨hpending, .inr ⟨hunread, hended⟩⟩,
      hu.farewell⟩
  | write n hrefusing hpos hle => exact hu.write hrefusing hpos hle
  | own y hown =>
    refine ⟨?_, hu.plain, hu.running, hu.finished, fun hrefusing => ?_⟩
    · rw [Reading.view_concat_of_silent (hF.own_silent hown)]
      exact hu.balance
    · rw [hrefusing] at hown
      exact Reading.open_append.mpr
        ⟨hu.farewell hrefusing, by simpa [Reading.Open] using hF.own_open hown⟩

/-! ## A loop is a pipe -/

/-- What has arrived is a part of what was read. -/
theorem Inv.view_delivered {refusing : Bool} {u : Leg ι ο} (hu : Inv R S refusing u) :
    S.view u.delivered <+: R.view u.sent := by
  have hseen : S.view u.delivered <+: R.view u.seen := by
    rw [← hu.balance]
    exact List.prefix_append _ _
  exact hseen.trans (Reading.view_prefix_append _ _)

/-- What the source sends behind the point where the loop ended does not show. -/
theorem Inv.view_sent {refusing : Bool} {u : Leg ι ο} (hu : Inv R S refusing u)
    (hdone : u.done = true) : R.view u.sent = R.view u.seen := by
  rcases (hu.finished hdone).2 with ⟨x, hx, hstop⟩ | ⟨hunread, _⟩
  · exact Reading.view_append_of_stop hx hstop _
  · rw [sent, hunread, List.append_nil]

theorem Inv.view_eq {refusing : Bool} {u : Leg ι ο} (hu : Inv R S refusing u)
    (hdone : u.done = true) : S.view u.delivered = R.view u.sent := by
  have hbalance := hu.balance
  rw [(hu.finished hdone).1, List.flatMap_nil, List.append_nil] at hbalance
  rw [hbalance, hu.view_sent hdone]

/-- The pipe that a direction is. -/
def Inv.pipe {refusing : Bool} {u : Leg ι ο} (hu : Inv R S refusing u) : Pipe β where
  sent := R.view u.sent
  got := S.view u.delivered
  closed := u.done
  inOrder := hu.view_delivered
  whole := hu.view_eq

theorem sent_prefix_step {refusing : Bool} {u u' : Leg ι ο} {m : Move ι ο}
    (h : u.step F refusing m = some u') : u.sent <+: u'.sent := by
  rw [step_eq_some] at h
  cases h with
  | send xs hended =>
    rw [sent, sent, ← List.append_assoc]
    exact List.prefix_append _ _
  | forward n ys | stop n =>
    exact ⟨[], by rw [sent, sent, List.append_nil, List.append_assoc, List.take_append_drop]⟩
  | finish | eof | write | own => exact List.prefix_rfl

theorem sent_step {refusing : Bool} {u u' : Leg ι ο} {m : Move ι ο}
    (h : u.step F refusing m = some u') : u'.sent = u.sent ++ m.sends := by
  rw [step_eq_some] at h
  cases h with
  | send xs hended => rw [sent, sent, List.append_assoc, Move.sends]
  | forward n ys | stop n =>
    rw [sent, sent, List.append_assoc, List.take_append_drop, Move.sends, List.append_nil]
  | finish | eof | write | own => exact (List.append_nil _).symm

theorem delivered_prefix_step {refusing : Bool} {u u' : Leg ι ο} {m : Move ι ο}
    (h : u.step F refusing m = some u') : u.delivered <+: u'.delivered := by
  rw [step_eq_some] at h
  cases h with
  | write | own => exact List.prefix_append _ _
  | send | finish | forward | stop | eof => exact List.prefix_rfl

theorem done_step {refusing : Bool} {u u' : Leg ι ο} {m : Move ι ο}
    (h : u.step F refusing m = some u') (hdone : u.done = true) : u'.done = true := by
  rw [step_eq_some] at h
  cases h with
  | send | finish | forward | write | own => exact hdone
  | stop | eof => rfl

theorem seen_step {refusing : Bool} {u u' : Leg ι ο} {m : Move ι ο}
    (h : u.step F refusing m = some u') (hdone : u.done = true) : u'.seen = u.seen := by
  rw [step_eq_some] at h
  cases h with
  | send | finish | write | own | eof => rfl
  | forward n ys hrunning | stop n hrunning =>
    rw [hrunning] at hdone
    cases hdone

/-- Every move of a direction is one of the pipe it is. -/
theorem Inv.advances {refusing refusing' : Bool} {u u' : Leg ι ο} {m : Move ι ο}
    (hu : Inv R S refusing u) (hu' : Inv R S refusing' u')
    (h : u.step F refusing m = some u') : hu.pipe.Advances hu'.pipe where
  sent := Reading.view_mono (sent_prefix_step h)
  got := Reading.view_mono (delivered_prefix_step h)
  closed := by
    intro hdone
    have hdone' := done_step h hdone
    refine ⟨hdone', ?_⟩
    have hview := hu'.view_sent hdone'
    rw [seen_step h hdone] at hview
    exact hview.trans (hu.view_sent hdone).symm

/-! ## Coming to rest

Left alone, a direction moves only so often, and where it comes to rest shows what
its source has done. -/

/-- How much there is left for the loop to do. -/
def weight (R : Reading ι β) (u : Leg ι ο) : Nat :=
  R.size u.unread + u.pending.length + if u.done then 0 else 1

theorem weight_step (hF : F.Faithful R S) {refusing : Bool} {u u' : Leg ι ο} {m : Move ι ο}
    (hm : m.pumps = true) (h : u.step F refusing m = some u') : u'.weight R < u.weight R := by
  rw [step_eq_some] at h
  cases h with
  | forward n ys hdone hfree htakes hbody =>
    have hshrink := hF.shrink htakes hbody
    have hsize := R.size_take_add_drop n u.unread
    simp only [weight, List.length_append]
    omega
  | stop n hdone hfree htakes hbody =>
    have hsize := R.size_take_add_drop n u.unread
    simp only [weight, hdone, if_true, Bool.false_eq_true, if_false]
    omega
  | eof hdone hpending hunread hended => simp [weight, hdone]
  | write n hrefusing hpos hle =>
    simp only [weight, List.length_drop]
    omega
  | send | finish | own => cases hm

/-- The source has ended its stream. -/
def Over (R : Reading ι β) (u : Leg ι ο) : Prop :=
  u.ended = true ∨ ∃ x ∈ u.sent, R.stop x = true

/-- The source has ended its stream, and everything up to there is forwarded. -/
structure Drained (R : Reading ι β) (u : Leg ι ο) : Prop where
  finished : u.Over R
  written : u.pending = []
  read : u.done = true ∨ u.unread.takeWhile (fun x => !R.stop x) = []

instance decidableOver (R : Reading ι β) (u : Leg ι ο) : Decidable (u.Over R) :=
  inferInstanceAs (Decidable (_ ∨ _))

instance decidableDrained (R : Reading ι β) (u : Leg ι ο) : Decidable (u.Drained R) :=
  decidable_of_iff (u.Over R ∧ u.pending = [] ∧
      (u.done = true ∨ u.unread.takeWhile (fun x => !R.stop x) = []))
    ⟨fun ⟨hover, hwritten, hread⟩ => ⟨hover, hwritten, hread⟩,
      fun h => ⟨h.finished, h.written, h.read⟩⟩

theorem Inv.over {refusing : Bool} {u : Leg ι ο} (hu : Inv R S refusing u)
    (hdone : u.done = true) : u.Over R := by
  rcases (hu.finished hdone).2 with ⟨x, hx, hstop⟩ | ⟨-, hended⟩
  · exact .inr ⟨x, List.mem_append_left _ hx, hstop⟩
  · exact .inl hended

theorem Inv.running_of_not_over {refusing : Bool} {u : Leg ι ο} (hu : Inv R S refusing u)
    (hover : ¬ u.Over R) : u.done = false := by
  rw [← Bool.not_eq_true]
  exact fun hdone => hover (hu.over hdone)

/-- With everything read and no stop among it, the stream has been ended. -/
theorem Inv.ended_of_over {refusing : Bool} {u : Leg ι ο} (hu : Inv R S refusing u)
    (hover : u.Over R) (hdone : u.done = false) (hunread : u.unread = []) : u.ended = true := by
  rcases hover with hended | ⟨x, hx, hstop⟩
  · exact hended
  · rw [sent, hunread, List.append_nil] at hx
    rw [hu.running hdone x hx] at hstop
    cases hstop

/-- The loop leaves the source alone. -/
theorem over_step {refusing : Bool} {u u' : Leg ι ο} {m : Move ι ο} (hm : m.pumps = true)
    (h : u.step F refusing m = some u') : u'.Over R ↔ u.Over R := by
  rw [step_eq_some] at h
  cases h with
  | forward n ys | stop n =>
    simp only [Over, sent, List.append_assoc, List.take_append_drop]
  | eof | write => exact Iff.rfl
  | send | finish | own => cases hm

/-- The loop has no move. -/
def Quiet (F : Forwarder ι ο) (refusing : Bool) (u : Leg ι ο) : Prop :=
  ∀ m, m.pumps = true → u.step F refusing m = none

theorem Quiet.pending {u : Leg ι ο} (h : u.Quiet F false) : u.pending = [] := by
  by_contra hne
  have hpos : 1 ≤ u.pending.length := List.length_pos_iff.mpr hne
  have hstep := step_eq_some.mpr (Steps.write (F := F) 1 rfl Nat.one_pos hpos)
  rw [h (.write 1) rfl] at hstep
  cases hstep

/-- A loop that rests with nothing in hand is over, or waits for its source. -/
theorem Quiet.waits (hF : F.Faithful R S) {refusing : Bool} {u : Leg ι ο}
    (h : u.Quiet F refusing) (hpending : u.pending = []) (hdone : u.done = false) :
    u.unread = [] ∧ u.ended = false := by
  have hunread : u.unread = [] := by
    cases hun : u.unread with
    | nil => rfl
    | cons x tl =>
      have hread := h (.read 1) rfl
      simp [step, hdone, hpending, hun, hF.takes_one] at hread
  have heof := h .eof rfl
  simp [step, hdone, hpending, hunread] at heof
  exact ⟨hunread, heof⟩

theorem quiet_of_done {refusing : Bool} {u : Leg ι ο} (hdone : u.done = true)
    (hpending : u.pending = []) : u.Quiet F refusing := by
  intro m hm
  cases m with
  | read | eof => simp [step, hdone]
  | write n =>
    simp only [step, hpending, List.length_nil, ite_eq_right_iff, reduceCtorEq]
    omega
  | send | finish | own => cases hm

theorem quiet_of_waits (hF : F.Faithful R S) {refusing : Bool} {u : Leg ι ο}
    (hpending : u.pending = []) (hunread : u.unread = []) (hended : u.ended = false) :
    u.Quiet F refusing := by
  intro m hm
  cases m with
  | read n => simp [step, hunread, hF.takes_nil]
  | eof => simp [step, hended]
  | write n =>
    simp only [step, hpending, List.length_nil, ite_eq_right_iff, reduceCtorEq]
    omega
  | send | finish | own => cases hm

/-- Everything but the end itself is forwarded, and the loop comes upon the end. -/
theorem Drained.ends (hF : F.Faithful R S) {refusing : Bool} {u : Leg ι ο}
    (hu : Inv R S refusing u) (h : u.Drained R) (hdone : u.done = false) :
    ∃ m u', m.pumps = true ∧ u.step F refusing m = some u' ∧ u'.Drained R ∧ u'.done = true := by
  have hread : u.unread.takeWhile (fun x => !R.stop x) = [] := by
    rcases h.read with hd | hread
    · rw [hdone] at hd
      cases hd
    · exact hread
  cases hun : u.unread with
  | nil =>
    have hended : u.ended = true := hu.ended_of_over h.finished hdone hun
    exact ⟨.eof, _, rfl, step_eq_some.mpr (.eof hdone h.written hun hended),
      ⟨.inl hended, h.written, .inl rfl⟩, rfl⟩
  | cons x tl =>
    have hstop : R.stop x = true := by
      by_contra hopen
      rw [hun, List.takeWhile_cons_of_pos (by simpa using hopen)] at hread
      cases hread
    have htake : u.unread.take 1 = [x] := by rw [hun]; rfl
    have htakes : F.takes (u.unread.take 1) = true := by rw [htake]; exact hF.takes_one x
    have hbody : F.body (u.unread.take 1) = none := by
      cases hb : F.body (u.unread.take 1) with
      | none => rfl
      | some ys =>
        have hopen := (hF.forward htakes hb).1 x (by simp [htake])
        rw [hopen] at hstop
        cases hstop
    have hstep : u.step F refusing (.read 1) = some _ :=
      step_eq_some.mpr (.stop 1 hdone (.inr h.written) htakes hbody)
    exact ⟨.read 1, _, rfl, hstep, ⟨(over_step rfl hstep).mpr h.finished, h.written, .inl rfl⟩, rfl⟩

/-- A loop with something to forward can go on, unless the sink refuses. -/
theorem exists_step (hF : F.Faithful R S) {u : Leg ι ο} (hu : Inv R S false u)
    (hover : ¬ u.Over R) (hbusy : ¬ (u.pending = [] ∧ u.unread = [])) :
    ∃ m u', m.pumps = true ∧ u.step F false m = some u' := by
  by_cases hpending : u.pending = []
  · have hdone := hu.running_of_not_over hover
    cases hun : u.unread with
    | nil => exact absurd ⟨hpending, hun⟩ hbusy
    | cons x tl =>
      have htakes : F.takes (u.unread.take 1) = true := by rw [hun]; exact hF.takes_one x
      refine ⟨.read 1, u.afterRead F 1, rfl, ?_⟩
      rw [step, if_pos ⟨hdone, .inr hpending, htakes⟩]
  · have hpos : 1 ≤ u.pending.length := List.length_pos_iff.mpr hpending
    exact ⟨.write 1, _, rfl, step_eq_some.mpr (.write 1 rfl Nat.one_pos hpos)⟩

end Leg
