-- SUMMARY: Concurrent requests to bind one user: they all return its peer id exactly when no insert finds the user or the id taken.
import XyzenRelay.Control.Bindings

/-!
# Concurrent binds

The shortcut for a bound user is a read before a separate insert. A request whose insert
comes second violates the primary key, and fails.
-/

namespace XyzenRelay.Control

variable {token userId : String}

/-- An authenticated request to bind the user. -/
def Binds (token userId : String) (r : Request) : Prop :=
  r.route = .bindPeer userId ∧ Authorized r.headers token

/-- Every request to bind the user that has returned has returned the bound peer id. -/
def Idempotent (token userId : String) (s : Server) : Prop :=
  ∀ i t resp, s.tasks i = some t → Binds token userId t.request → t.program = .done resp →
    ∃ peerId, resp = .ok (.peer { userId, peerId }) ∧ s.shared.Bound userId peerId

/-- No request to bind the user has failed for want of an id. -/
def Allocates (token userId : String) (s : Server) : Prop :=
  ∀ i t, s.tasks i = some t → Binds token userId t.request → t.program ≠ .done (.error .internal)

/-- An insert for the user finds neither the user nor the id in the table. -/
def NoConflict (userId : String) (s : Server) : Program.PoolAction Request Input → Prop
  | .accept _ _ => True
  | .run i _ => ∀ r row next, s.tasks i = some ⟨r, .call (.insertPeer row) next⟩ →
    row.userId = userId →
      ¬ s.shared.peers.Conflicts row.userId row.peerId

/-- No query fails but for the constraints. -/
def NoFault : Program.PoolAction Request Input → Prop
  | .accept _ _ => True
  | .run _ e => e.fault = false

/-! ## Accesses of a handler -/

/-- Only a request to bind a user inserts a binding, for that user, and it fails if the
    insert does. -/
def InsertFails (token : String) (r : Request) : (op : Access) → (Answer op → Handler) → Prop
  | .insertPeer row, next => Binds token row.userId r ∧ ∀ err,
    next (.error err) = .done (.error .db)
  | _, _ => True

theorem fresh_calls {P : (op : Access) → (Answer op → Program Answer (Option String)) → Prop}
    (hP : ∀ op next, (∀ row, op ≠ .insertPeer row) → P op next) (tries : Nat) :
    (fresh tries).Calls P := by
  induction tries with
  | zero => trivial
  | succ tries ih =>
    refine ⟨hP _ _ (by simp), fun buf => ⟨hP _ _ (by simp), fun answer => ?_⟩⟩
    cases answer with
    | error _ => trivial
    | ok found =>
      cases found with
      | none => trivial
      | some _ => exact ih

theorem bind_calls {r : Request} (h : Binds token userId r) :
    (bind userId).Calls (InsertFails token r) := by
  unfold bind
  split
  · trivial
  · refine ⟨trivial, fun answer => ?_⟩
    cases answer with
    | error _ => trivial
    | ok found =>
      cases found with
      | some _ => trivial
      | none =>
        refine Program.Calls.bind (p := fresh 16) (fresh_calls (fun op next hop => ?_) 16)
          fun found => ?_
        · cases op with
          | insertPeer row => exact absurd rfl (hop row)
          | _ => trivial
        · cases found with
          | none => trivial
          | some peerId =>
            refine ⟨trivial, fun createdAt => ⟨⟨h, fun _ => rfl⟩, fun answer => ?_⟩⟩
            cases answer with
            | error _ => trivial
            | ok _ => exact ⟨trivial, fun _ => ⟨trivial, fun _ => trivial⟩⟩

theorem list_calls {r : Request} (q : AuditQuery) : (list q).Calls (InsertFails token r) := by
  have hrows : ∀ peer, (listRows q peer).Calls (InsertFails token r) := by
    refine fun peer => ⟨trivial, fun answer => ?_⟩
    cases answer <;> trivial
  unfold list
  split
  · exact hrows _
  · exact hrows _
  · refine ⟨trivial, fun answer => ?_⟩
    cases answer with
    | error _ => trivial
    | ok found =>
      cases found with
      | none => trivial
      | some _ => exact hrows _

theorem handle_calls (token : String) (r : Request) :
    (handle token r).Calls (InsertFails token r) := by
  by_cases h : Authorized r.headers token
  · rw [handle_authorized h]
    cases hroute : r.route with
    | bindPeer userId => exact bind_calls ⟨hroute, h⟩
    | getPeer userId =>
      refine ⟨trivial, fun answer => ?_⟩
      cases answer with
      | error _ => trivial
      | ok found => cases found <;> trivial
    | listAudit q => exact list_calls q
    | ingestAudit ev => exact ⟨trivial, fun _ => ⟨trivial, fun _ => trivial⟩⟩
  · obtain ⟨msg, hmsg⟩ := handle_unauthorized h
    rw [hmsg]
    trivial

/-! ## Every request returns -/

theorem fresh_within (tries : Nat) : (fresh tries).Within (2 * tries) := by
  induction tries with
  | zero => trivial
  | succ tries ih =>
    refine fun buf answer => ?_
    cases answer with
    | error _ => exact Program.within_done _ _
    | ok found =>
      cases found with
      | none => exact Program.within_done _ _
      | some _ => exact ih

/-- A request to bind a user makes at most 37 accesses. -/
theorem bind_within (userId : String) : (bind userId).Within 37 := by
  unfold bind
  split
  · trivial
  · refine fun answer => ?_
    cases answer with
    | error _ => trivial
    | ok found =>
      cases found with
      | some _ => trivial
      | none =>
        refine (fresh_within 16).bind (n := 4) fun found => ?_
        cases found with
        | none => trivial
        | some peerId =>
          refine fun createdAt answer => ?_
          cases answer with
          | error _ => trivial
          | ok _ => exact fun _ _ => trivial

/-- However far a request has come, the rest of it is as short as it was at most. -/
def ReturnsWithin (token userId : String) (r : Request) (p : Handler) : Prop :=
  Binds token userId r → p.Within 37

theorem returnsWithin_handle (r : Request) : ReturnsWithin token userId r (handle token r) := by
  intro h
  rw [handle_authorized h.2, h.1]
  exact bind_within userId

theorem ReturnsWithin.next {r : Request} {op : Access} {next : Answer op → Handler}
    (h : ReturnsWithin token userId r (.call op next)) (answer : Answer op) :
    ReturnsWithin token userId r (next answer) := fun hr =>
  Program.Within.mono (m := 36) (h hr answer) (by decide)

/-! ## Undisturbed requests -/

/-- What the environment has to keep to for a request to bind the user to succeed. -/
def Undisturbed (token userId : String) (r : Request) (e : Input) (db : Db) (op : Access) : Prop :=
  Binds token userId r → e.fault = false ∧
    ∀ row, op = .insertPeer row → row.userId = userId → ¬ db.peers.Conflicts row.userId row.peerId

def Succeeds (token userId : String) (r : Request) (resp : Except AppError Reply)
    (db : Db) : Prop :=
  Binds token userId r → Outcome userId (· = .internal) resp db

theorem handle_succeeds (huser : trim userId ≠ []) (r : Request) (db : Db) :
    (handle token r).Ensures exec Grows (Undisturbed token userId r)
    (Succeeds token userId r) db := by
  by_cases h : Binds token userId r
  · rw [handle_authorized h.2, h.1]
    refine (bind_ensures (F := (· = .internal)) ?_ rfl ?_ ?_).mono fun resp db h _ => h
    · exact fun hblank => absurd hblank huser
    · intro e db op he hfault
      rw [(he h).1] at hfault
      simp at hfault
    · exact fun e db row he hrow hconflict => absurd hconflict ((he h).2 row rfl hrow)
  · exact (handle_ensures token r).mono fun resp db _ hr => absurd hr h

/-- The requests so far are on their way to success. -/
structure OnTheWay (token userId : String) (s : Server) : Prop where
  tasks : s.Ensures exec Grows (Undisturbed token userId) (Succeeds token userId)
  calls : s.Each fun r p => p.Calls (InsertFails token r)

variable {s s' : Server} {a : Program.PoolAction Request Input}

theorem OnTheWay.idempotent (hs : OnTheWay token userId s) (hids : Allocates token userId s) :
    Idempotent token userId s := by
  intro i t resp ht hbinds hdone
  have htask := hs.tasks i t ht
  rw [hdone] at htask
  have houtcome := htask hbinds
  cases resp with
  | ok reply =>
    obtain ⟨peerId, rfl, hbound⟩ := houtcome.ok reply rfl
    exact ⟨peerId, rfl, hbound⟩
  | error e =>
    obtain rfl := houtcome.error e rfl
    exact absurd hdone (hids i t ht hbinds)

theorem calls_step (hs : s.Each fun r p => p.Calls (InsertFails token r))
    (h : (machine token).step s a = some s') :
    s'.Each fun r p => p.Calls (InsertFails token r) :=
  Program.each_step (handle_calls token) (fun _ _ _ hcall answer => hcall.2 answer) hs
    (Program.effect_of_stepPool h)

theorem OnTheWay.step (hs : OnTheWay token userId s) (huser : trim userId ≠ []) (hfault : NoFault a)
    (ha : NoConflict userId s a) (h : (machine token).step s a = some s') :
    OnTheWay token userId s' := by
  refine ⟨(Program.ensures_step Grows.refl Grows.trans
    (fun _ _ _ _ hdb hresp hbinds => (hresp hbinds).stable hdb) (handle_succeeds huser) hs.tasks ?_
    (Program.effect_of_stepPool h)).1, calls_step hs.calls h⟩
  cases a with
  | accept i r => trivial
  | run i e =>
    intro r op next ht _
    refine ⟨hfault, ?_⟩
    rintro row rfl hrow
    exact ha r row next ht hrow

/-- An insert that finds the user or the id taken fails the request. -/
theorem not_idempotent_of_conflict (hs : s.Each fun r p => p.Calls (InsertFails token r))
    (hfault : NoFault a)
    (ha : ¬ NoConflict userId s a) (h : (machine token).step s a = some s') :
    ¬ Idempotent token userId s' := by
  cases a with
  | accept i r => exact absurd trivial ha
  | run i e =>
    simp only [NoConflict, not_forall, not_not] at ha
    obtain ⟨r, row, next, ht, rfl, hconflict⟩ := ha
    obtain ⟨⟨hbinds, hnext⟩, -⟩ : InsertFails token r (.insertPeer row) next ∧ _ := hs i _ ht
    intro hidem
    simp only [machine, Program.pool, Program.stepPool, ht, Option.some.injEq] at h
    have hinserts := inserts_exec e s.shared row
    have hfault' : e.fault = false := hfault
    generalize exec e s.shared (.insertPeer row) = result at hinserts h
    subst h
    have htask : Function.update s.tasks i (some ⟨r, next result.1⟩) i = some ⟨r, next result.1⟩ :=
      Function.update_self ..
    cases hinserts with
    | @inserted peers _ hrows =>
      -- the constraints reject the row
      have hnodup := peers.key_nodup
      have hunique := peers.unique_nodup
      obtain ⟨row', hrow', hsame⟩ := hconflict
      rw [hrows, List.map_append, List.map_singleton, List.nodup_append] at hnodup hunique
      rcases hsame with hsame | hsame
      · exact hnodup.2.2 _ (List.mem_map_of_mem hrow') _ (by simp) hsame
      · exact hunique.2.2 _ (List.mem_map_of_mem hrow') _ (by simp) hsame
    | conflict _ _ =>
      obtain ⟨peerId, hresp, -⟩ := hidem i _ _ htask hbinds (hnext _)
      simp at hresp
    | fault hf =>
      rw [hfault'] at hf
      simp at hf

/-- Without database faults, and with id allocation succeeding, the requests to bind a
    user return within a fixed number of accesses each, and all that return do so with
    its peer id exactly when no insert for the user conflicts with a row. -/
theorem idempotent_iff (huser : trim userId ≠ [])
    {as : List (Program.PoolAction Request Input)} {t : Server}
    (hrun : (machine token).run (machine token).init as = some t) (hfault : ∀ a ∈ as, NoFault a)
    (hids : ∀ s ∈ (machine token).visits (machine token).init as, Allocates token userId s) :
    (∀ s ∈ (machine token).visits (machine token).init as, s.Each (ReturnsWithin token userId)) ∧
    ((∀ s ∈ (machine token).visits (machine token).init as, Idempotent token userId s) ↔
      (machine token).Meets (NoConflict userId) (machine token).init as) := by
  constructor
  · refine Machine.Meets.visits _ (fun s a s' hs _ h => ?_) (fun i t ht => ?_)
      ((machine token).meets_true _ as)
    · exact Program.each_step returnsWithin_handle (fun _ _ _ hwithin => hwithin.next) hs
        (Program.effect_of_stepPool h)
    · simp [machine, Program.pool] at ht
  · refine (machine token).forall_visits_iff_meets
      (J := fun s => OnTheWay token userId s ∧ Allocates token userId s)
      (fun s hs => hs.1.idempotent hs.2) ?_ ?_
        ⟨⟨fun i t ht => ?_, fun i t ht => ?_⟩, fun i t ht => ?_⟩ hrun
      (((machine token).meets_of_forall hfault).and _ ((machine token).meets_of_visits hids))
    · exact fun s a s' hs ha hC h => ⟨hs.1.step huser ha.1 hC h, ha.2 s' h⟩
    · exact fun s a s' hs ha hC h => not_idempotent_of_conflict hs.1.calls ha.1 hC h
    · simp [machine, Program.pool] at ht
    · simp [machine, Program.pool] at ht
    · simp [machine, Program.pool] at ht

/-! ## Two runs -/

instance : DecidablePred NoFault
  | .accept _ _ => .isTrue trivial
  | .run _ e => inferInstanceAs (Decidable (e.fault = false))

/-- The task, if there is one, has returned with the error. -/
def failedWith (e : AppError) (s : Server) (i : Nat) : Bool :=
  (s.tasks i).any fun t =>
    match t.program with
    | .done (.error e') => e' = e
    | _ => false

theorem exists_of_failedWith {e : AppError} {i : Nat} (h : failedWith e s i = true) :
    ∃ t, s.tasks i = some t ∧ t.program = .done (.error e) := by
  obtain ⟨t, ht, hfailed⟩ := (Option.any_eq_true _ _).mp h
  refine ⟨t, ht, ?_⟩
  split at hfailed
  · next e' hdone => rw [hdone, of_decide_eq_true hfailed]
  · simp at hfailed

/-- Only tasks that were accepted can fail. -/
theorem allocates_of_check {as : List (Program.PoolAction Request Input)} (n : Nat)
    (haccept : ∀ i r, .accept i r ∈ as → i < n)
    (hcheck : ∀ s ∈ (machine token).visits (machine token).init as, ∀ i < n,
      failedWith .internal s i = false) :
    ∀ s ∈ (machine token).visits (machine token).init as, Allocates token userId s := by
  have hnone : ∀ s ∈ (machine token).visits (machine token).init as, ∀ i t,
      s.tasks i = some t → i < n := by
    refine Machine.Meets.visits _ (C := fun _ a => ∀ i r, a = .accept i r → i < n)
      (fun s a s' hs ha h i t ht => ?_)
      (fun i t ht => ?_) ?_
    · cases Program.effect_of_stepPool h with
      | accept _ =>
        rcases Program.task_of_update ht with ⟨rfl, -⟩ | ⟨-, ht⟩
        · exact ha _ _ rfl
        · exact hs i t ht
      | run hi =>
        rcases Program.task_of_update ht with ⟨rfl, -⟩ | ⟨-, ht⟩
        · exact hs _ _ hi
        · exact hs i t ht
    · simp [machine, Program.pool] at ht
    · exact (machine token).meets_of_forall fun a ha i r heq => haccept i r (heq ▸ ha)
  intro s hs i t ht _ hdone
  have hfailed := hcheck s hs i (hnone s hs i t ht)
  simp [failedWith, ht, hdone] at hfailed

/-- Two requests for one user, the second after the first has returned. -/
def repeatedBind : List (Program.PoolAction Request Input) :=
  .accept 0 { headers := bearerSecret, route := .bindPeer "alice" } :: List.replicate 7
    (.run 0 (quiet 1)) ++
    [.accept 1 { headers := bearerSecret, route := .bindPeer "alice" }, .run 1 (quiet 2)]

theorem idempotent_iff_repeatedBind :
    (∀ s ∈ (machine "secret").visits (machine "secret").init repeatedBind,
      s.Each (ReturnsWithin "secret" "alice")) ∧
    ((∀ s ∈ (machine "secret").visits (machine "secret").init repeatedBind,
      Idempotent "secret" "alice" s) ↔
      (machine "secret").Meets (NoConflict "alice") (machine "secret").init repeatedBind) :=
  idempotent_iff (by decide)
    ((machine "secret").run_getD repeatedBind (by decide +kernel)) (by decide)
    (allocates_of_check 2 (fun i r h => by simp [repeatedBind] at h; omega) (by decide +kernel))

/-- Two requests for one user, access by access in turn: both find the user unbound. -/
def concurrentBinds : List (Program.PoolAction Request Input) :=
  [.accept 0 { headers := bearerSecret, route := .bindPeer "alice" },
    .accept 1 { headers := bearerSecret, route := .bindPeer "alice" }] ++
    (List.replicate 5 [.run 0 (quiet 1), .run 1 (quiet 2)]).flatten

/-- The second insert violates the primary key. -/
theorem concurrent_bind_fails :
    ¬ ∀ token userId as t, trim userId ≠ [] → (machine token).run (machine token).init as = some t →
      (∀ a ∈ as, NoFault a) →
      (∀ s ∈ (machine token).visits (machine token).init as, Allocates token userId s) →
      ∀ s ∈ (machine token).visits (machine token).init as, Idempotent token userId s := by
  intro h
  have hrun := (machine "secret").run_getD (s := (machine "secret").init) concurrentBinds
    (by decide +kernel)
  have hidem := h "secret" "alice" concurrentBinds _ (by decide) hrun (by decide)
    (allocates_of_check 2 (fun i r h => by simp [concurrentBinds] at h; omega) (by decide +kernel))
      _ ((machine "secret").mem_visits_of_run hrun)
  have hfailed : failedWith .db
    (((machine "secret").run (machine "secret").init concurrentBinds).getD
      (machine "secret").init) 1 = true := by decide +kernel
  obtain ⟨t, ht, hdone⟩ := exists_of_failedWith hfailed
  have hrequest : ((((machine "secret").run (machine "secret").init concurrentBinds).getD
      (machine "secret").init).tasks 1).map Program.Task.request =
        some { headers := bearerSecret, route := .bindPeer "alice" } := by decide +kernel
  rw [ht] at hrequest
  have hbinds : Binds "secret" "alice" t.request := by
    rw [Option.some.inj hrequest]
    exact ⟨rfl, requireToken_iff.mp (by decide +kernel)⟩
  obtain ⟨peerId, hresp, -⟩ := hidem 1 t _ ht hbinds hdone
  simp at hresp

end XyzenRelay.Control
