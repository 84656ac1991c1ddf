-- SUMMARY: What the handlers do to the bindings and what they return: bindings are stable and injective whatever the interleaving.
import XyzenRelay.Control.Handlers

/-!
# Bindings

The check for an existing binding, the search for a fresh id and the insert are
separate accesses. What holds under any interleaving is what the constraints of the
table enforce, and that a successful response names a row of it.
-/

namespace XyzenRelay.Control

open Program (Ensures ensures_done)

/-- The table maps the user to the peer id. -/
def Db.Bound (db : Db) (userId peerId : String) : Prop :=
  ∃ row ∈ db.peers.rows, row.userId = userId ∧ row.peerId = peerId

/-- Rows are only added, and with well-formed peer ids. -/
structure Grows (db db' : Db) : Prop where
  rows : db.peers.rows <+: db'.peers.rows
  added : ∀ row ∈ db'.peers.rows, row ∈ db.peers.rows ∨ IsPeerId row.peerId

section Grows

variable {db db' : Db}

theorem grows_of_eq (h : db'.peers = db.peers) : Grows db db' :=
  ⟨h ▸ List.prefix_refl _, fun _ hrow => .inl (h ▸ hrow)⟩

theorem Grows.refl (db : Db) : Grows db db := grows_of_eq rfl

theorem Grows.trans (db db' db'' : Db) (h : Grows db db') (h' : Grows db' db'') : Grows db db'' :=
  ⟨h.rows.trans h'.rows, fun row hrow => (h'.added row hrow).elim (h.added row) .inr⟩

theorem Grows.bound {userId peerId : String} (h : Grows db db') (hb : db.Bound userId peerId) :
    db'.Bound userId peerId := by
  obtain ⟨row, hrow, heq⟩ := hb
  exact ⟨row, h.rows.subset hrow, heq⟩

theorem Db.Bound.of_find {userId peerId : String}
    (h : (db.peers.find userId).map PeerRow.peerId = some peerId) : db.Bound userId peerId := by
  obtain ⟨row, hfind, hpeer⟩ := Option.map_eq_some_iff.mp h
  obtain ⟨hrow, huser⟩ := UniqueTable.mem_of_find hfind
  exact ⟨row, hrow, huser, hpeer⟩

end Grows

/-! ## Rules for the accesses -/

section Rules

variable {α : Type} {A : Input → Db → Access → Prop} {Q : α → Db → Prop} {db : Db}

/-- An access that leaves the bindings alone. -/
theorem ensures_of_peers {op : Access} {next : Answer op → Program Answer α}
    (hop : ∀ row, op ≠ .insertPeer row)
    (h : ∀ db', Grows db db' → ∀ e, A e db' op →
      (next (exec e db' op).1).Ensures exec Grows A Q (exec e db' op).2) :
    (Program.call op next).Ensures exec Grows A Q db :=
  fun db' hdb' e he => ⟨grows_of_eq (peers_exec hop), h db' hdb' e he⟩

theorem ensures_selectPeer {userId : String}
    {next : Except DbError (Option String) → Program Answer α}
    (hfault : ∀ db', Grows db db' → ∀ e, A e db' (.selectPeer userId) → e.fault = true →
      (next (.error .fault)).Ensures exec Grows A Q db')
    (hfound : ∀ db', Grows db db' →
      (next (.ok ((db'.peers.find userId).map PeerRow.peerId))).Ensures exec Grows A Q db') :
    (Program.call (.selectPeer userId) next).Ensures exec Grows A Q db := by
  refine ensures_of_peers (by simp) fun db' hdb' e he => ?_
  unfold exec query
  split
  · next hf => exact hfault db' hdb' e he hf
  · exact hfound db' hdb'

theorem ensures_insertPeer {row : PeerRow} {next : Except DbError Unit → Program Answer α}
    (hid : IsPeerId row.peerId)
    (hconflict : ∀ db', Grows db db' → ∀ e, A e db' (.insertPeer row) →
      e.fault = true ∨ db'.peers.Conflicts row.userId row.peerId →
      ∀ err, (next (.error err)).Ensures exec Grows A Q db')
    (hinserted : ∀ db', Grows db db' → db'.Bound row.userId row.peerId →
      (next (.ok ())).Ensures exec Grows A Q db') :
    (Program.call (.insertPeer row) next).Ensures exec Grows A Q db := by
  intro db' hdb' e he
  have hinserts := inserts_exec e db' row
  generalize exec e db' (.insertPeer row) = result at hinserts
  cases hinserts with
  | @inserted peers hfault hrows =>
    have hgrows : Grows db' { db' with peers } := by
      refine ⟨⟨[row], hrows.symm⟩, fun r hr => ?_⟩
      rw [hrows] at hr
      rcases List.mem_append.mp hr with hr | hr
      · exact .inl hr
      · exact .inr (List.mem_singleton.mp hr ▸ hid)
    refine ⟨hgrows, hinserted _ (hdb'.trans _ _ _ hgrows) ⟨row, ?_, rfl, rfl⟩⟩
    show row ∈ peers.rows
    simp [hrows]
  | conflict hfault hconf => exact ⟨.refl _, hconflict db' hdb' e he (.inr hconf) .constraint⟩
  | fault hf => exact ⟨.refl _, hconflict db' hdb' e he (.inl hf) .fault⟩

end Rules

/-! ## The handlers -/

section Handlers

variable {A : Input → Db → Access → Prop} {db : Db}

/-- Nothing is returned by a recording, so nothing can go wrong with it. -/
theorem ensures_record {Q : Except AppError Reply → Db → Prop} {kind : String}
    {peerId controllerPeerId addr metaJson : Option String} {rest : Handler}
    (h : ∀ db', Grows db db' → rest.Ensures exec Grows A Q db') :
    (record kind peerId controllerPeerId addr metaJson >>= fun _ => rest).Ensures exec
    Grows A Q db := by
  refine ensures_of_peers (by simp) fun db₁ hdb₁ e₁ _ => ?_
  refine ensures_of_peers (by simp) fun db₂ hdb₂ e₂ _ => ?_
  refine h _ ((hdb₁.trans _ _ _ hdb₂).trans _ _ _ (grows_of_eq ?_))
  exact peers_exec (by simp)

/-- Only well-formed ids are tried. -/
theorem fresh_ensures (tries : Nat) :
    (fresh tries).Ensures exec Grows A (fun r _ => ∀ peerId ∈ r, IsPeerId peerId) db := by
  induction tries generalizing db with
  | zero => simp [fresh]
  | succ tries ih =>
    refine ensures_of_peers (by simp) fun db₁ _ e₁ _ => ?_
    refine ensures_of_peers (by simp) fun db₂ _ e₂ _ => ?_
    -- whatever the lookup answers
    generalize (exec e₂ db₂ _).2 = db₃
    generalize (exec e₂ db₂ _).1 = answer
    cases answer with
    | error _ => exact fun peerId hpeer => by simp at hpeer
    | ok found =>
      cases found with
      | none =>
        rintro peerId ⟨⟩
        exact isPeerId_randomId _
      | some _ => exact ih

/-- The outcome of a handler that works on the binding of a user: a success names the
    row, and nothing fails with 401. -/
structure Outcome (userId : String) (F : AppError → Prop) (resp : Except AppError Reply)
    (db : Db) : Prop where
  ok : ∀ reply, resp = .ok reply → ∃ peerId, reply = .peer { userId, peerId } ∧
    db.Bound userId peerId
  error : ∀ e, resp = .error e → F e

theorem Outcome.stable {userId : String} {F : AppError → Prop}
    {resp : Except AppError Reply} {db' : Db}
    (h : Outcome userId F resp db) (hdb : Grows db db') : Outcome userId F resp db' where
  ok := by
    intro reply hreply
    obtain ⟨peerId, hpeer, hbound⟩ := h.ok reply hreply
    exact ⟨peerId, hpeer, hdb.bound hbound⟩
  error := h.error

theorem outcome_ok {userId peerId : String} {F : AppError → Prop} (h : db.Bound userId peerId) :
    Outcome userId F (.ok (.peer { userId, peerId })) db where
  ok := by
    rintro reply ⟨⟩
    exact ⟨peerId, rfl, h⟩
  error := by simp

theorem outcome_error {userId : String} {F : AppError → Prop} {e : AppError} (h : F e) :
    Outcome userId F (.error e) db where
  ok := by simp
  error := by
    rintro e' ⟨⟩
    exact h

/-- The ways `bind_peer` fails: a database error comes of a fault or of a conflict. -/
theorem bind_ensures {userId : String} {F : AppError → Prop}
    (hblank : trim userId = [] → F (.bad "user_id required")) (hinternal : F .internal)
    (hfault : ∀ e db op, A e db op → e.fault = true → F .db)
    (hconflict : ∀ e db row, A e db (.insertPeer row) → row.userId = userId →
      db.peers.Conflicts row.userId row.peerId → F .db) :
    (bind userId).Ensures exec Grows A (Outcome userId F) db := by
  unfold bind
  split
  · next hempty => exact outcome_error (hblank (List.isEmpty_iff.mp hempty))
  · refine ensures_selectPeer (fun db' _ e he hf => ?_) fun db' _ => ?_
    · exact outcome_error (hfault e db' _ he hf)
    · cases hfind : (db'.peers.find userId).map PeerRow.peerId with
      | some peerId => exact outcome_ok (.of_find hfind)
      | none =>
        refine (fresh_ensures 16).bind fun found db₁ hfound => ?_
        cases found with
        | none => exact outcome_error hinternal
        | some peerId =>
          refine ensures_of_peers (by simp) fun db₂ _ e₂ _ => ?_
          refine ensures_insertPeer (hfound peerId rfl) (fun db₃ _ e₃ he₃ hbad err => ?_)
            fun db₃ _ hbound => ?_
          · refine outcome_error ?_
            rcases hbad with hf | hconf
            · exact hfault e₃ db₃ _ he₃ hf
            · exact hconflict e₃ db₃ _ he₃ rfl hconf
          · exact ensures_record fun db₄ hdb₄ => outcome_ok (hdb₄.bound hbound)

theorem get_ensures {userId : String} {F : AppError → Prop}
    (hmissing : F (.notFound "user_id not bound"))
    (hdb : F .db) : (get userId).Ensures exec Grows A (Outcome userId F) db := by
  refine ensures_selectPeer (fun db' _ _ _ _ => outcome_error hdb) fun db' _ => ?_
  cases hfind : (db'.peers.find userId).map PeerRow.peerId with
  | none => exact outcome_error hmissing
  | some peerId => exact outcome_ok (.of_find hfind)

/-- What holds of every response past the token check. -/
structure Served (route : Route) (resp : Except AppError Reply) (db : Db) : Prop where
  peer : ∀ p, resp = .ok (.peer p) → route.user? = some p.userId ∧ db.Bound p.userId p.peerId
  authorized : ∀ msg, resp ≠ .error (.unauthorized msg)

theorem Outcome.served {route : Route} {userId : String} {resp : Except AppError Reply}
    (h : Outcome userId (fun e => e.status ≠ .unauthorized) resp db)
    (hroute : route.user? = some userId) :
    Served route resp db where
  peer := by
    rintro p rfl
    obtain ⟨peerId, hpeer, hbound⟩ := h.ok _ rfl
    obtain rfl := Reply.peer.inj hpeer
    exact ⟨hroute, hbound⟩
  authorized := by
    rintro msg rfl
    exact h.error _ rfl rfl

/-- A response that is no binding. -/
theorem served_other {route : Route} {resp : Except AppError Reply}
    (hpeer : ∀ p, resp ≠ .ok (.peer p))
    (hauth : ∀ msg, resp ≠ .error (.unauthorized msg)) : Served route resp db :=
  ⟨fun p hp => absurd hp (hpeer p), hauth⟩

theorem listRows_ensures {route : Route} (q : AuditQuery) (peer : Option String) :
    (listRows q peer).Ensures exec Grows A (Served route) db := by
  refine ensures_of_peers (by simp) fun db₁ _ e₁ _ => ?_
  generalize (exec e₁ db₁ _).2 = db₂
  generalize (exec e₁ db₁ _).1 = answer
  cases answer with
  | error _ => exact served_other (by simp) (by simp [AppError.db, AppError.unauthorized])
  | ok rows => exact served_other (by simp) (by simp)

theorem list_ensures {route : Route} (q : AuditQuery) :
    (list q).Ensures exec Grows A (Served route) db := by
  unfold list
  split
  · exact listRows_ensures q _
  · exact listRows_ensures q none
  · refine ensures_selectPeer (fun db' _ _ _ _ => ?_) fun db' _ => ?_
    · exact served_other (by simp) (by simp [AppError.db, AppError.unauthorized])
    · cases (db'.peers.find _).map PeerRow.peerId with
      | none => exact served_other (by simp) (by simp)
      | some pid => exact listRows_ensures q _

theorem rest_ensures (route : Route) : route.rest.Ensures exec Grows A (Served route) db := by
  cases route with
  | bindPeer userId =>
    refine Ensures.mono (fun resp db h => h.served rfl) (bind_ensures ?_ ?_ ?_ ?_)
    · simp [AppError.bad]
    · simp [AppError.internal]
    · simp [AppError.db]
    · simp [AppError.db]
  | getPeer userId =>
    refine Ensures.mono (fun resp db h => h.served rfl) (get_ensures ?_ ?_)
    · simp [AppError.notFound]
    · simp [AppError.db]
  | listAudit q => exact list_ensures q
  | ingestAudit ev => exact ensures_record fun db' _ => served_other (by simp) (by simp)

end Handlers

/-! ## Every interleaving -/

/-- A request about the binding of `userId` has been answered with success. -/
def Returned (s : Server) (i : Nat) (userId : String) (resp : PeerResp) : Prop :=
  ∃ t, s.tasks i = some t ∧ t.request.route.user? = some userId ∧
    t.program = .done (.ok (.peer resp))

/-- What every request is answered with, if it is a binding. -/
def Names (r : Request) (resp : Except AppError Reply) (db : Db) : Prop :=
  ∀ p, resp = .ok (.peer p) → r.route.user? = some p.userId ∧ db.Bound p.userId p.peerId

theorem handle_ensures {A : Input → Db → Access → Prop} {db : Db} (token : String) (r : Request) :
    (handle token r).Ensures exec Grows A (Names r) db := by
  by_cases h : Authorized r.headers token
  · rw [handle_authorized h]
    exact (rest_ensures r.route).mono fun resp db h => h.peer
  · obtain ⟨msg, hmsg⟩ := handle_unauthorized h
    rw [hmsg]
    exact fun p hp => by simp at hp

/-- The ids in the table are well formed, and every task will answer with a row of it. -/
structure Consistent (s : Server) : Prop where
  ids : ∀ row ∈ s.shared.peers.rows, IsPeerId row.peerId
  tasks : s.Ensures exec Grows (fun _ _ _ _ => True) Names

theorem consistent_preserved (token : String) : (machine token).Preserves Consistent := by
  intro s a s' hs h
  obtain ⟨htasks, hgrows⟩ := Program.ensures_step Grows.refl Grows.trans
    (fun r resp db db' hdb hQ p hp => ⟨(hQ p hp).1, hdb.bound (hQ p hp).2⟩)
      (fun r db => handle_ensures token r) hs.tasks
    (by cases a <;> simp [Program.Pool.Allows]) (Program.effect_of_stepPool h)
  exact ⟨fun row hrow => (hgrows.added row hrow).elim (hs.ids row) id, htasks⟩

theorem consistent_reachable {token : String} {s : Server} (h : (machine token).Reachable s) :
    Consistent s := by
  refine (consistent_preserved token).reachable _ ⟨fun row hrow => ?_, fun i t ht => ?_⟩ h
  · simp [machine, Program.pool, Db.empty, UniqueTable.empty] at hrow
  · simp [machine, Program.pool] at ht

theorem Consistent.bound {s : Server} (hs : Consistent s) {i : Nat} {userId : String}
    {resp : PeerResp}
    (h : Returned s i userId resp) : resp.userId = userId ∧ s.shared.Bound userId resp.peerId := by
  obtain ⟨t, ht, huser, hdone⟩ := h
  have htask := hs.tasks i t ht
  rw [hdone] at htask
  obtain ⟨hroute, hbound⟩ := htask resp rfl
  obtain rfl := Option.some.inj (huser.symm.trans hroute)
  exact ⟨rfl, hbound⟩

/-- A user has one peer id, and a peer id one user. -/
theorem Db.bound_iff (db : Db) {u v p q : String} (hu : db.Bound u p) (hv : db.Bound v q) :
    u = v ↔ p = q := by
  obtain ⟨row, hrow, rfl, rfl⟩ := hu
  obtain ⟨row', hrow', rfl, rfl⟩ := hv
  constructor
  · intro h
    rw [db.peers.eq_of_key hrow hrow' h]
  · intro h
    rw [db.peers.eq_of_unique hrow hrow' h]

/-- In every reachable state the table is an injective partial function to well-formed
    ids, and all successful responses so far agree with it. -/
theorem bindings_stable {token : String} {s : Server} (h : (machine token).Reachable s) :
    (∀ u p, s.shared.Bound u p → IsPeerId p) ∧
    (∀ u v p q, s.shared.Bound u p → s.shared.Bound v q → (u = v ↔ p = q)) ∧
    ∀ i j u v a b, Returned s i u a → Returned s j v b →
      a.userId = u ∧ b.userId = v ∧ (u = v ↔ a.peerId = b.peerId) := by
  have hs := consistent_reachable h
  refine ⟨?_, fun u v p q hu hv => s.shared.bound_iff hu hv, fun i j u v a b ha hb => ?_⟩
  · rintro u p ⟨row, hrow, -, rfl⟩
    exact hs.ids row hrow
  · obtain ⟨hauser, habound⟩ := hs.bound ha
    obtain ⟨hbuser, hbbound⟩ := hs.bound hb
    exact ⟨hauser, hbuser, s.shared.bound_iff habound hbbound⟩

/-- An input without a fault. -/
def quiet (b : UInt8) : Input :=
  { fault := false, bytes := Vector.replicate 8 b, now := 1700000000 }

def bearerSecret : HeaderMap := [(AUTHORIZATION, asBytes "Bearer secret")]

/-- Two users are bound, access by access in turn. -/
def twoUsers : List (Program.PoolAction Request Input) :=
  [.accept 0 { headers := bearerSecret, route := .bindPeer "alice" },
    .accept 1 { headers := bearerSecret, route := .bindPeer "bob" }] ++
    (List.replicate 7 [.run 0 (quiet 1), .run 1 (quiet 2)]).flatten

theorem bindings_stable_twoUsers :
    let s := ((machine "secret").run (machine "secret").init twoUsers).getD (machine "secret").init
    (∀ u p, s.shared.Bound u p → IsPeerId p) ∧
    (∀ u v p q, s.shared.Bound u p → s.shared.Bound v q → (u = v ↔ p = q)) ∧
    ∀ i j u v a b, Returned s i u a → Returned s j v b →
      a.userId = u ∧ b.userId = v ∧ (u = v ↔ a.peerId = b.peerId) :=
  bindings_stable
    ((machine "secret").reachable_of_run ((machine "secret").run_getD twoUsers (by decide +kernel)))

end XyzenRelay.Control
