-- SUMMARY: The peer registry: how a registered peer is reached, and the three operations under its lock.
import Mathlib.Data.List.AList

/-!
# The peer registry

Model of `crates/rendezvous/src/registry.rs`. A peer is reached over UDP or
through the outbox of its WS connection. Every operation is one section under
the lock of the map.
-/

namespace XyzenRelay.Rendezvous

/-- A connection. It is also the name of its outbox, the mpsc channel its writer
    task drains. -/
abbrev ConnId := Nat

structure SocketAddr where
  host : String
  port : Nat
  deriving DecidableEq, Repr

/-- How a registered peer is pushed a server-initiated message. -/
inductive Reachable where
  | udp (addr : SocketAddr)
  | wsPush (tx : ConnId)
  deriving DecidableEq, Repr

abbrev PeerRegistry := AList fun _ : String => Reachable

namespace PeerRegistry

def upsert (m : PeerRegistry) (id : String) (reach : Reachable) : PeerRegistry := m.insert id reach

def get (m : PeerRegistry) (id : String) : Option Reachable := m.lookup id

/-- Drop a peer if its entry is the WS channel we hold. -/
def removeIfWs (m : PeerRegistry) (id : String) (sender : ConnId) : PeerRegistry :=
  if m.get id = some (.wsPush sender) then m.erase id else m

@[simp] theorem get_upsert (m : PeerRegistry) (id : String) (reach : Reachable) :
    (m.upsert id reach).get id = some reach := AList.lookup_insert _

theorem get_upsert_ne {m : PeerRegistry} {id id' : String} {reach : Reachable} (h : id' ≠ id) :
    (m.upsert id reach).get id' = m.get id' := AList.lookup_insert_ne h

theorem get_removeIfWs_ne {m : PeerRegistry} {id id' : String} {sender : ConnId} (h : id' ≠ id) :
    (m.removeIfWs id sender).get id' = m.get id' := by
  unfold removeIfWs
  split
  · exact AList.lookup_erase_ne h
  · rfl

/-- The entry of a peer is dropped exactly when it is the channel of the caller. -/
theorem get_removeIfWs (m : PeerRegistry) (id : String) (sender : ConnId) :
    (m.removeIfWs id sender).get id =
      if m.get id = some (.wsPush sender) then none else m.get id := by
  unfold removeIfWs
  split
  · exact AList.lookup_erase id m
  · rfl

end PeerRegistry

end XyzenRelay.Rendezvous
