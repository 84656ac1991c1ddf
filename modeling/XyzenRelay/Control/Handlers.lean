-- SUMMARY: The four authenticated handlers of the control plane as programs of database accesses, and the server that interleaves any number of requests.
import XyzenRelay.Control.Auth
import XyzenRelay.Control.Database
import XyzenRelay.Control.Ids
import XyzenRelay.Lib.Program

/-!
# Handlers

Model of the handlers in `crates/control/src/http.rs`, of `ids::fresh` and of
`audit::record`. A request is one whose extraction has succeeded.
-/

namespace XyzenRelay.Control

open Program (access)

structure PeerResp where
  userId : String
  peerId : String
  deriving DecidableEq, Repr

/-- The body of a successful response, or its bare status. -/
inductive Reply where
  | peer (resp : PeerResp)
  | audit (rows : List AuditRow)
  | status (code : StatusCode)
  deriving DecidableEq, Repr

abbrev Handler := Program Answer (Except AppError Reply)

structure AuditQuery where
  since : Option Int
  userId : Option String
  peerId : Option String
  limit : Option Int
  deriving DecidableEq, Repr

/-- The `meta` value is given by its JSON text. -/
structure IngestAudit where
  kind : String
  peerId : Option String
  controllerPeerId : Option String
  addr : Option String
  metaJson : Option String
  deriving DecidableEq, Repr

/-- `White_Space` of Unicode. -/
def isWhitespace (c : Char) : Bool :=
  let n := c.toNat
  (9 ≤ n && n ≤ 13) || n == 0x20 || n == 0x85 || n == 0xA0 || n == 0x1680 ||
    (0x2000 ≤ n && n ≤ 0x200A) || n == 0x2028 || n == 0x2029 || n == 0x202F ||
    n == 0x205F || n == 0x3000

/-- `str::trim`. -/
def trim (s : String) : List Char :=
  ((s.toList.dropWhile isWhitespace).reverse.dropWhile isWhitespace).reverse

/-- A character inside a JSON string, as `serde_json` writes it. -/
def escapeChar (c : Char) : String :=
  match c.toNat with
  | 0x22 => "\\\""
  | 0x5C => "\\\\"
  | 0x08 => "\\b"
  | 0x09 => "\\t"
  | 0x0A => "\\n"
  | 0x0C => "\\f"
  | 0x0D => "\\r"
  | n =>
    if n < 0x20 then String.ofList
      (['\\', 'u', '0', '0'] ++ [(n / 16).digitChar, (n % 16).digitChar])
    else String.singleton c

/-- `json!` of the one field `user_id`, as text. -/
def userIdJson (userId : String) : String :=
  "\x7b\"user_id\":\"" ++ String.join (userId.toList.map escapeChar) ++ "\"\x7d"

section Accesses

abbrev selectPeer (userId : String) : Program Answer (Except DbError (Option String)) :=
  access (Access.selectPeer userId)

abbrev selectId (peerId : String) : Program Answer (Except DbError (Option String)) :=
  access (Access.selectId peerId)

abbrev insertPeer (row : PeerRow) : Program Answer (Except DbError Unit) :=
  access (Access.insertPeer row)

abbrev insertAudit (ev : AuditEvent) : Program Answer (Except DbError Unit) :=
  access (Access.insertAudit ev)

abbrev selectAudit (since : Int) (peer : Option String) (limit : Int) :
    Program Answer (Except DbError (List AuditRow)) := access (Access.selectAudit since peer limit)

abbrev fillBytes : Program Answer (Vector UInt8 8) := access Access.fillBytes

abbrev now : Program Answer Int := access Access.now

end Accesses

/-- `audit::record`: the outcome of the insert is ignored. -/
def record (kind : String) (peerId controllerPeerId addr metaJson : Option String) :
    Program Answer Unit := do
  let ts ← now
  let _ ← insertAudit { ts, kind, peerId, controllerPeerId, addr, metaJson }
  pure ()

/-- `ids::fresh`, with `tries` tries left. -/
def fresh : Nat → Program Answer (Option String)
  | 0 => .done none
  | tries + 1 => do
    let buf ← fillBytes
    let s := randomId buf
    match ← selectId s with
    | .error _ => pure none
    | .ok none => pure (some s)
    | .ok (some _) => fresh tries

/-- `bind_peer` behind the token check. -/
def bind (userId : String) : Handler :=
  if (trim userId).isEmpty then .done (.error (.bad "user_id required"))
  else do
    match ← selectPeer userId with
    | .error _ => pure (.error .db)
    | .ok (some peerId) => pure (.ok (.peer { userId, peerId }))
    | .ok none =>
      match ← fresh 16 with
      | none => pure (.error .internal)
      | some peerId =>
        let createdAt ← now
        match ← insertPeer { userId, peerId, createdAt } with
        | .error _ => pure (.error .db)
        | .ok () =>
          record "peer_bound" (some peerId) none none (some (userIdJson userId))
          pure (.ok (.peer { userId, peerId }))

/-- `get_peer` behind the token check. -/
def get (userId : String) : Handler := do
  match ← selectPeer userId with
  | .error _ => pure (.error .db)
  | .ok none => pure (.error (.notFound "user_id not bound"))
  | .ok (some peerId) => pure (.ok (.peer { userId, peerId }))

/-- The rows of `list_audit` for a resolved filter. -/
def listRows (q : AuditQuery) (peer : Option String) : Handler := do
  let limit := max 1 (min (q.limit.getD 100) 1000)
  match ← selectAudit (q.since.getD 0) peer limit with
  | .error _ => pure (.error .db)
  | .ok rows => pure (.ok (.audit rows))

/-- `list_audit` behind the token check. -/
def list (q : AuditQuery) : Handler :=
  match q.peerId, q.userId with
  | some pid, _ => listRows q (some pid)
  | none, none => listRows q none
  | none, some uid => do
    match ← selectPeer uid with
    | .error _ => pure (.error .db)
    | .ok (some pid) => listRows q (some pid)
    | .ok none => pure (.ok (.audit []))

/-- `ingest_audit` behind the token check. -/
def ingest (ev : IngestAudit) : Handler := do
  record ev.kind ev.peerId ev.controllerPeerId ev.addr ev.metaJson
  pure (.ok (.status .accepted))

/-- `require_token(&headers, &s.token)?` and the rest of the handler. -/
def guarded (token : String) (headers : HeaderMap) (rest : Handler) : Handler :=
  match requireToken headers token with
  | .error e => .done (.error e)
  | .ok () => rest

def bindPeer (token : String) (headers : HeaderMap) (userId : String) : Handler :=
  guarded token headers (bind userId)

def getPeer (token : String) (headers : HeaderMap) (userId : String) : Handler :=
  guarded token headers (get userId)

def listAudit (token : String) (headers : HeaderMap) (q : AuditQuery) : Handler :=
  guarded token headers (list q)

def ingestAudit (token : String) (headers : HeaderMap) (ev : IngestAudit) : Handler :=
  guarded token headers (ingest ev)

/-! ## The server -/

/-- What a request asks for. -/
inductive Route where
  | bindPeer (userId : String)
  | getPeer (userId : String)
  | listAudit (q : AuditQuery)
  | ingestAudit (ev : IngestAudit)
  deriving DecidableEq, Repr

structure Request where
  headers : HeaderMap
  route : Route
  deriving DecidableEq, Repr

/-- The user whose binding the request is about. -/
def Route.user? : Route → Option String
  | .bindPeer userId | .getPeer userId => some userId
  | .listAudit _ | .ingestAudit _ => none

/-- A handler behind the token check. -/
def Route.rest : Route → Handler
  | .bindPeer userId => bind userId
  | .getPeer userId => get userId
  | .listAudit q => list q
  | .ingestAudit ev => ingest ev

def handle (token : String) (r : Request) : Handler :=
  match r.route with
  | .bindPeer userId => bindPeer token r.headers userId
  | .getPeer userId => getPeer token r.headers userId
  | .listAudit q => listAudit token r.headers q
  | .ingestAudit ev => ingestAudit token r.headers ev

theorem handle_eq (token : String) (r : Request) :
    handle token r = guarded token r.headers r.route.rest := by
  unfold handle
  cases r.route <;> rfl

theorem handle_authorized {token : String} {r : Request} (h : Authorized r.headers token) :
    handle token r = r.route.rest := by
  rw [handle_eq, guarded, requireToken_iff.mpr h]

theorem handle_unauthorized {token : String} {r : Request} (h : ¬ Authorized r.headers token) :
    ∃ msg, handle token r = .done (.error (.unauthorized msg)) := by
  obtain ⟨msg, hmsg⟩ := requireToken_error h
  exact ⟨msg, by rw [handle_eq, guarded, hmsg]⟩

abbrev Server := Program.Pool Db Request Answer (Except AppError Reply)

/-- Any number of requests, interleaved access by access, from an empty database. -/
def machine (token : String) : Machine Server (Program.PoolAction Request Input) :=
  Program.pool exec (handle token) Db.empty

end XyzenRelay.Control
