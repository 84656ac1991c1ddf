-- SUMMARY: The per-peer room: its broadcast sink and warm-up window, and the four operations its handlers perform on it.
import XyzenRelay.Lib.Broadcast
import XyzenRelay.Stream.History

/-!
# Rooms

Model of `RoomState` in `crates/stream/src/main.rs`. Every access a handler makes
to a room is one of the operations below, and each is atomic: the window is
behind a mutex, and the broadcast sink synchronises by itself.
-/

namespace XyzenRelay.Stream

/-- The name of a viewer handler. It is also the name of its receiver. -/
abbrev ViewerId := Nat

/-- How far `handle_viewer` has come. -/
inductive ViewerPhase (φ : Type) where
  /-- `room_for` has returned. -/
  | joined
  | subscribed
  /-- The snapshot is taken and `rest` is still to be written to the sink. -/
  | replaying (rest : List φ)
  | live
  deriving DecidableEq, Repr

structure RoomState (φ : Type) where
  tx : Broadcast ViewerId φ
  warmup : WarmupWindow φ

namespace RoomState

variable {φ : Type}

/-- The room `room_for` inserts. -/
def new : RoomState φ := { tx := .channel 256, warmup := .default }

/-- `room.warmup.lock().record(frame)`. -/
def record [Frame φ] (r : RoomState φ) (f : φ) : RoomState φ :=
  { r with warmup := (r.warmup.record f).2 }

/-- `room.tx.send(frame)`. -/
def send (r : RoomState φ) (f : φ) : RoomState φ := { r with tx := r.tx.send f }

/-- `room.tx.subscribe()`. -/
def subscribe (r : RoomState φ) (v : ViewerId) : RoomState φ := { r with tx := r.tx.subscribe v }

/-- `rx.recv()` of one viewer. -/
def recv (r : RoomState φ) (v : ViewerId) : Broadcast.Recv φ × RoomState φ :=
  ((r.tx.recv v).1, { r with tx := (r.tx.recv v).2 })

/-- The receiver of a viewer is dropped when its handler returns. -/
def leave (r : RoomState φ) (v : ViewerId) : RoomState φ := { r with tx := r.tx.drop v }

end RoomState

end XyzenRelay.Stream
