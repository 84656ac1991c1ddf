-- SUMMARY: The database of the control plane: its two tables, the accesses the handlers make to it, and what each of them does.
import XyzenRelay.Lib.Endian
import XyzenRelay.Lib.UniqueTable
import Mathlib.Data.Int.Order.Basic

/-!
# The database

Model of `crates/control/migrations/0001_init.sql` and of the queries that
`crates/control/src` makes. Every query is atomic. The random generator and the clock
are accesses as well, answered by the environment, which may also fail any query.
-/

namespace XyzenRelay.Control

/-- A row of `peers`. -/
structure PeerRow where
  userId : String
  peerId : String
  createdAt : Int
  deriving DecidableEq, Repr

/-- What `audit::record` stores. -/
structure AuditEvent where
  ts : Int
  kind : String
  peerId : Option String
  controllerPeerId : Option String
  addr : Option String
  metaJson : Option String
  deriving DecidableEq, Repr

/-- A row of `audit`. -/
structure AuditRow extends AuditEvent where
  id : Nat
  deriving DecidableEq, Repr

/-- `user_id` is the primary key, and `peer_id` is unique. -/
abbrev Peers := UniqueTable PeerRow.userId PeerRow.peerId

structure Db where
  peers : Peers
  audit : List AuditRow

def Db.empty : Db := { peers := .empty, audit := [] }

/-- `sqlx::Error`. -/
inductive DbError where
  | constraint
  | fault
  deriving DecidableEq, Repr

inductive Access where
  /-- `SELECT peer_id FROM peers WHERE user_id = ?` -/
  | selectPeer (userId : String)
  /-- `SELECT peer_id FROM peers WHERE peer_id = ?` -/
  | selectId (peerId : String)
  | insertPeer (row : PeerRow)
  | insertAudit (ev : AuditEvent)
  | selectAudit (since : Int) (peer : Option String) (limit : Int)
  /-- `OsRng.fill_bytes` -/
  | fillBytes
  /-- `chrono::Utc::now().timestamp()` -/
  | now
  deriving DecidableEq, Repr

abbrev Answer : Access → Type
  | .selectPeer _ | .selectId _ => Except DbError (Option String)
  | .insertPeer _ | .insertAudit _ => Except DbError Unit
  | .selectAudit _ _ _ => Except DbError (List AuditRow)
  | .fillBytes => Vector UInt8 8
  | .now => Int

/-- What the environment contributes to an access. -/
structure Input where
  fault : Bool
  bytes : Vector UInt8 8
  now : Int

/-- `AUTOINCREMENT`: rows are never deleted. -/
def Db.insertAudit (db : Db) (ev : AuditEvent) : Db :=
  { db with audit := db.audit ++ [{ ev with id := db.audit.length + 1 }] }

/-- `ORDER BY id DESC LIMIT ?`. -/
def Db.selectAudit (db : Db) (since : Int) (peer : Option String) (limit : Int) : List AuditRow :=
  let found := db.audit.filter fun row =>
    since ≤ row.ts ∧ ∀ pid ∈ peer, row.peerId = some pid ∨ row.controllerPeerId = some pid
  found.reverse.take limit.toNat

/-- A query that can fail. -/
def query {α : Type} (e : Input) (db : Db) (result : Except DbError α × Db) :
    Except DbError α × Db :=
  if e.fault then (.error .fault, db) else result

def exec (e : Input) (db : Db) : (op : Access) → Answer op × Db
  | .selectPeer userId => query e db (.ok ((db.peers.find userId).map PeerRow.peerId), db)
  | .selectId peerId => query e db (.ok ((db.peers.findUnique peerId).map PeerRow.peerId), db)
  | .insertPeer row =>
    query e db <|
      match db.peers.insert row with
      | some peers => (.ok (), { db with peers })
      | none => (.error .constraint, db)
  | .insertAudit ev => query e db (.ok (), db.insertAudit ev)
  | .selectAudit since peer limit => query e db (.ok (db.selectAudit since peer limit), db)
  | .fillBytes => (e.bytes, db)
  | .now => (e.now, db)

/-! ## What an access does to the bindings -/

section Peers

variable {e : Input} {db : Db} {op : Access}

theorem query_snd {α : Type} {r : Except DbError α} : (query e db (r, db)).2 = db := by
  unfold query
  split <;> rfl

/-- Only an insert changes the bindings. -/
theorem peers_exec (h : ∀ row, op ≠ .insertPeer row) : (exec e db op).2.peers = db.peers := by
  cases op with
  | insertPeer row => exact absurd rfl (h row)
  | insertAudit ev =>
    unfold exec query
    split <;> rfl
  | selectPeer | selectId | selectAudit => exact congrArg Db.peers query_snd
  | fillBytes | now => rfl

/-- The three outcomes of an insert. -/
inductive Inserts (e : Input) (db : Db) (row : PeerRow) : Except DbError Unit × Db → Prop where
  | inserted {peers : Peers} (hfault : e.fault = false)
    (hrows : peers.rows = db.peers.rows ++ [row]) :
    Inserts e db row (.ok (), { db with peers })
  | conflict (hfault : e.fault = false) (hconflict : db.peers.Conflicts row.userId row.peerId) :
    Inserts e db row (.error .constraint, db)
  | fault (hfault : e.fault = true) : Inserts e db row (.error .fault, db)

theorem inserts_exec (e : Input) (db : Db) (row : PeerRow) :
    Inserts e db row (exec e db (.insertPeer row)) := by
  unfold exec query
  split
  · next hfault => exact .fault hfault
  · next hfault =>
    rw [Bool.not_eq_true] at hfault
    dsimp only
    split
    · next peers hpeers => exact .inserted hfault (UniqueTable.rows_of_insert hpeers)
    · next hnone => exact .conflict hfault (UniqueTable.insert_eq_none.mp hnone)

end Peers

end XyzenRelay.Control
