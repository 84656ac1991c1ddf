-- SUMMARY: The audit log over whole runs: numbered and append-only, listed newest first without gaps, and every acknowledged event that was stored is listed.
import XyzenRelay.Control.Bindings
import XyzenRelay.Lib.Journal
import XyzenRelay.Lib.Latest

/-!
# The audit log

A listing is one query, made after the filter has been resolved by another. So it shows
the log as it was at some moment, and the binding as it was at an earlier one. Bindings
are stable, which makes the two agree.
-/

namespace XyzenRelay.Control

open Program (Ensures ensures_done)

/-- Neither table loses or changes a row. -/
structure Extends (db db' : Db) : Prop where
  rows : db.peers.rows <+: db'.peers.rows
  audit : db.audit <+: db'.audit

section Extends

variable {db db' : Db}

theorem Extends.refl (db : Db) : Extends db db := ⟨List.prefix_refl _, List.prefix_refl _⟩

theorem Extends.trans (db db' db'' : Db) (h : Extends db db') (h' : Extends db' db'') :
    Extends db db'' :=
  ⟨h.rows.trans h'.rows, h.audit.trans h'.audit⟩

theorem Extends.bound {userId peerId : String} (h : Extends db db')
    (hb : db.Bound userId peerId) : db'.Bound userId peerId := by
  obtain ⟨row, hrow, heq⟩ := hb
  exact ⟨row, h.rows.subset hrow, heq⟩

/-- Only an insert adds to the log, and only where it does not fail. -/
theorem audit_exec (e : Input) (db : Db) (op : Access) :
    (exec e db op).2.audit = db.audit ∨
      ∃ ev, op = .insertAudit ev ∧ e.fault = false ∧ (exec e db op).2 = db.insertAudit ev := by
  cases op with
  | selectPeer | selectId | selectAudit => exact .inl (congrArg Db.audit query_snd)
  | fillBytes | now => exact .inl rfl
  | insertAudit ev =>
    unfold exec query
    split
    · exact .inl rfl
    · next hfault => exact .inr ⟨ev, rfl, by simpa using hfault, rfl⟩
  | insertPeer row =>
    have hinserts := inserts_exec e db row
    generalize exec e db (.insertPeer row) = result at hinserts ⊢
    cases hinserts with
    | inserted | conflict | fault => exact .inl rfl

theorem rows_exec (e : Input) (db : Db) (op : Access) :
    db.peers.rows <+: (exec e db op).2.peers.rows := by
  by_cases h : ∃ row, op = .insertPeer row
  · obtain ⟨row, rfl⟩ := h
    have hinserts := inserts_exec e db row
    generalize exec e db (.insertPeer row) = result at hinserts ⊢
    cases hinserts with
    | inserted _ hrows => exact ⟨[row], hrows.symm⟩
    | conflict | fault => exact List.prefix_refl _
  · rw [peers_exec fun row hop => h ⟨row, hop⟩]

/-- No access deletes or changes a row. -/
theorem extends_exec (e : Input) (db : Db) (op : Access) : Extends db (exec e db op).2 := by
  refine ⟨rows_exec e db op, ?_⟩
  rcases audit_exec e db op with haudit | ⟨ev, -, -, hdb⟩
  · rw [haudit]
  · rw [hdb]
    exact List.prefix_append _ _

end Extends

/-- The ids of the log count from 1. -/
def Db.LogNumbered (db : Db) : Prop := db.audit.map AuditRow.id = List.range' 1 db.audit.length

section LogNumbered

variable {db : Db}

theorem logNumbered_insertAudit (h : db.LogNumbered) (ev : AuditEvent) :
    (db.insertAudit ev).LogNumbered := by
  unfold Db.LogNumbered Db.insertAudit at *
  simp [h, List.range'_concat, Nat.add_comm]

theorem logNumbered_exec (h : db.LogNumbered) (e : Input) (op : Access) :
    (exec e db op).2.LogNumbered := by
  rcases audit_exec e db op with haudit | ⟨ev, -, -, hdb⟩
  · unfold Db.LogNumbered
    rw [haudit]
    exact h
  · rw [hdb]
    exact logNumbered_insertAudit h ev

theorem Db.LogNumbered.pairwise (h : db.LogNumbered) :
    db.audit.Pairwise fun row row' => row.id < row'.id := by
  have hids : (db.audit.map AuditRow.id).Pairwise (· < ·) := by
    rw [show db.audit.map AuditRow.id = _ from h]
    exact List.pairwise_lt_range'
  exact List.pairwise_map.mp hids

theorem logNumbered_reachable {token : String} {s : Server} (h : (machine token).Reachable s) :
    s.shared.LogNumbered := by
  refine Machine.Preserves.reachable (machine token) (I := fun s => s.shared.LogNumbered)
    (fun s a s' hs hstep => ?_) rfl h
  cases Program.effect_of_stepPool hstep with
  | accept hi => exact hs
  | @run i e r op next hi => exact logNumbered_exec hs e op

end LogNumbered

/-! ## Listings -/

/-- The condition of both queries of `list_audit`. -/
def Matches (since : Int) (peer : Option String) (row : AuditRow) : Prop :=
  since ≤ row.ts ∧ ∀ pid ∈ peer, row.peerId = some pid ∨ row.controllerPeerId = some pid

instance (since : Int) (peer : Option String) : DecidablePred (Matches since peer) :=
  fun _ => inferInstanceAs (Decidable (_ ∧ _))

/-- The peer id a listing asks for. -/
def AuditQuery.Resolves (q : AuditQuery) (db : Db) (peer : Option String) : Prop :=
  match q.peerId, q.userId with
  | some pid, _ => peer = some pid
  | none, none => peer = none
  | none, some uid => ∃ pid, peer = some pid ∧ db.Bound uid pid

/-- How many rows a listing may have. -/
def AuditQuery.places (q : AuditQuery) : Nat := (max 1 (min (q.limit.getD 100) 1000)).toNat

/-- The rows are a listing of the log as it was at some moment between `base` and `db`. -/
inductive Lists (q : AuditQuery) (base db : Db) : List AuditRow → Prop where
  /-- The user was not bound when the request came. -/
  | unbound {uid : String} (hpeer : q.peerId = none) (huser : q.userId = some uid)
    (hbase : ∀ pid, ¬ base.Bound uid pid) : Lists q base db []
  | rows {peer : Option String} {seen : List AuditRow} (hpeer : q.Resolves db peer)
    (hbase : base.audit <+: seen) (hseen : seen <+: db.audit) :
    Lists q base db (latest (Matches (q.since.getD 0) peer) q.places seen)

/-- Every listing that is answered. -/
def Listed (base : Db) (r : Request) (resp : Except AppError Reply) (db : Db) : Prop :=
  ∀ rows, resp = .ok (.audit rows) → ∃ q, r.route = .listAudit q ∧ Lists q base db rows

section Listings

variable {base db db' : Db} {q : AuditQuery} {peer : Option String} {r : Request}
  {A : Input → Db → Access → Prop}

theorem AuditQuery.Resolves.extends (h : q.Resolves db peer) (hdb : Extends db db') :
    q.Resolves db' peer := by
  unfold AuditQuery.Resolves at *
  split at h
  · exact h
  · exact h
  · obtain ⟨pid, hpeer, hbound⟩ := h
    exact ⟨pid, hpeer, hdb.bound hbound⟩

/-- A user has one binding. -/
theorem AuditQuery.Resolves.unique {peer' : Option String} (h : q.Resolves db peer)
    (h' : q.Resolves db peer') : peer = peer' := by
  unfold AuditQuery.Resolves at h h'
  split at h <;> simp only [*] at h'
  · exact h.trans h'.symm
  · exact h.trans h'.symm
  · obtain ⟨pid, rfl, hbound⟩ := h
    obtain ⟨pid', rfl, hbound'⟩ := h'
    rw [(db.bound_iff hbound hbound').mp rfl]

theorem Lists.extends {rows : List AuditRow} (h : Lists q base db rows) (hdb : Extends db db') :
    Lists q base db' rows := by
  cases h with
  | unbound hpeer huser hbase => exact .unbound hpeer huser hbase
  | rows hpeer hbase hseen => exact .rows (hpeer.extends hdb) hbase (hseen.trans hdb.audit)

theorem Listed.extends {resp : Except AppError Reply} (h : Listed base r resp db)
    (hdb : Extends db db') : Listed base r resp db' := by
  intro rows hrows
  obtain ⟨q, hroute, hlists⟩ := h rows hrows
  exact ⟨q, hroute, hlists.extends hdb⟩

theorem listed_other {resp : Except AppError Reply} (h : ∀ rows, resp ≠ .ok (.audit rows)) :
    Listed base r resp db := fun rows hrows => absurd hrows (h rows)

theorem listRows_listed (hr : r.route = .listAudit q) (hbase : Extends base db)
    (hpeer : q.Resolves db peer) :
    (listRows q peer).Ensures exec Extends A (Listed base r) db := by
  intro db₁ hdb₁ e _
  refine ⟨extends_exec e db₁ _, ?_⟩
  unfold exec query
  split
  · exact listed_other (by simp)
  · rintro rows ⟨⟩
    exact ⟨q, hr, .rows (hpeer.extends hdb₁) (hbase.audit.trans hdb₁.audit) (List.prefix_refl _)⟩

theorem ensures_lookup {α : Type} {Q : α → Db → Prop} {userId : String}
    {next : Except DbError (Option String) → Program Answer α}
    (hfault : ∀ db', Extends db db' → (next (.error .fault)).Ensures exec Extends A Q db')
    (hfound : ∀ db', Extends db db' →
      (next (.ok ((db'.peers.find userId).map PeerRow.peerId))).Ensures exec Extends A Q db') :
    (Program.call (.selectPeer userId) next).Ensures exec Extends A Q db := by
  intro db' hdb' e _
  refine ⟨extends_exec e db' _, ?_⟩
  unfold exec query
  split
  · exact hfault db' hdb'
  · exact hfound db' hdb'

/-- A lookup that finds nothing has not missed a binding. -/
theorem not_bound_of_find {userId : String}
    (h : (db.peers.find userId).map PeerRow.peerId = none) (peerId : String) :
    ¬ db.Bound userId peerId := by
  rintro ⟨row, hrow, huser, -⟩
  have hnone := List.find?_eq_none.mp (Option.map_eq_none_iff.mp h) row hrow
  simp [huser] at hnone

theorem list_listed (hr : r.route = .listAudit q) (hbase : Extends base db) :
    (list q).Ensures exec Extends A (Listed base r) db := by
  unfold list
  split
  · next pid _ hpeer =>
    exact listRows_listed hr hbase (by simp [AuditQuery.Resolves, hpeer])
  · next hpeer huser =>
    exact listRows_listed hr hbase (by simp [AuditQuery.Resolves, hpeer, huser])
  · next uid hpeer huser =>
    refine ensures_lookup (fun db₁ _ => listed_other (by simp)) fun db₁ hdb₁ => ?_
    have hbase₁ : Extends base db₁ := hbase.trans _ _ _ hdb₁
    cases hfind : (db₁.peers.find uid).map PeerRow.peerId with
    | some pid =>
      have hresolves : q.Resolves db₁ (some pid) := by
        simp [AuditQuery.Resolves, hpeer, huser, Db.Bound.of_find hfind]
      exact listRows_listed hr hbase₁ hresolves
    | none =>
      rintro rows ⟨⟩
      exact ⟨q, hr, .unbound hpeer huser fun pid hbound =>
        not_bound_of_find hfind pid (hbase₁.bound hbound)⟩

/-- A response without rows. -/
def NoRows (resp : Except AppError Reply) : Prop := ∀ rows, resp ≠ .ok (.audit rows)

theorem noRows_error (e : AppError) : NoRows (.error e) := fun _ => by simp

theorem noRows_peer (resp : PeerResp) : NoRows (.ok (.peer resp)) := fun _ => by simp

theorem bind_noRows (userId : String) : (bind userId).Returns NoRows := by
  unfold bind
  split
  · exact noRows_error _
  · intro answer
    cases answer with
    | error _ => exact noRows_error _
    | ok found =>
      cases found with
      | some _ => exact noRows_peer _
      | none =>
        refine (Program.returns_true (fresh 16)).bind fun found _ => ?_
        cases found with
        | none => exact noRows_error _
        | some peerId =>
          intro createdAt answer
          cases answer with
          | error _ => exact noRows_error _
          | ok _ => exact fun _ _ => noRows_peer _

theorem get_noRows (userId : String) : (get userId).Returns NoRows := by
  intro answer
  cases answer with
  | error _ => exact noRows_error _
  | ok found =>
    cases found with
    | none => exact noRows_error _
    | some _ => exact noRows_peer _

theorem rest_listed (hbase : Extends base db) :
    r.route.rest.Ensures exec Extends A (Listed base r) db := by
  have hnone : ∀ resp db, NoRows resp → Listed base r resp db := fun _ _ h => listed_other h
  cases hr : r.route with
  | listAudit q => exact list_listed hr hbase
  | bindPeer userId => exact (bind_noRows userId).ensures extends_exec hnone db
  | getPeer userId => exact (get_noRows userId).ensures extends_exec hnone db
  | ingestAudit ev =>
    have hreturns : (ingest ev).Returns NoRows := fun _ _ _ => by simp
    exact hreturns.ensures extends_exec hnone db

theorem handle_listed (token : String) (hbase : Extends base db) :
    (handle token r).Ensures exec Extends A (Listed base r) db := by
  by_cases h : Authorized r.headers token
  · rw [handle_authorized h]
    exact rest_listed hbase
  · obtain ⟨msg, hmsg⟩ := handle_unauthorized h
    rw [hmsg]
    exact listed_other (by simp)

/-- A listing of a numbered log goes down from the newest row it shows. -/
theorem Lists.descending {rows : List AuditRow} (h : Lists q base db rows) (hlog : db.LogNumbered) :
    rows.Pairwise (fun row row' => row'.id < row.id) ∧ rows.length ≤ q.places ∧
      ∀ row ∈ rows, row ∈ db.audit := by
  cases h with
  | unbound => simp
  | @rows peer seen hpeer hbase hseen =>
    have hpair := hlog.pairwise.sublist hseen.sublist
    exact ⟨pairwise_latest hpair, length_latest_le _,
      fun row hrow => hseen.subset (mem_of_mem_latest hrow).1⟩

end Listings

/-! ## Ingested events -/

/-- What `ingest_audit` stores of an event at `ts`. -/
def IngestAudit.event (ev : IngestAudit) (ts : Int) : AuditEvent :=
  { ts, kind := ev.kind, peerId := ev.peerId, controllerPeerId := ev.controllerPeerId,
    addr := ev.addr, metaJson := ev.metaJson }

/-- The row that a step of task `i` appends to the log. -/
def appended (token : String) (i : Nat) (s : Server) :
    Program.PoolAction Request Input → Option AuditRow
  | .accept _ _ => none
  | .run j e =>
    if j = i then
      ((machine token).step s (.run j e)).bind fun s' => s'.shared.audit[s.shared.audit.length]?
    else none

/-- The rows that task `i` has appended in a run, in order. -/
def rowsOf (token : String) (i : Nat) (as : List (Program.PoolAction Request Input)) :
    List AuditRow :=
  (machine token).journal (appended token i) (machine token).init as

/-- What is left of the handler of a posted event, by the rows its task has appended. -/
inductive Stage (ev : IngestAudit) : List AuditRow → Handler → Prop where
  | begun :
    Stage ev [] (.call .now fun ts =>
      .call (.insertAudit (ev.event ts)) fun _ => .done (.ok (.status .accepted)))
  | stamped (ts : Int) :
    Stage ev [] (.call (.insertAudit (ev.event ts)) fun _ => .done (.ok (.status .accepted)))
  | stored {row : AuditRow} (hrow : row.toAuditEvent = ev.event row.ts) :
    Stage ev [row] (.done (.ok (.status .accepted)))
  | refused (err : AppError) : Stage ev [] (.done (.error err))

/-- Where task `i` is after a run, if it is to store an event. -/
structure Staged (token : String) (i : Nat) (as : List (Program.PoolAction Request Input))
    (s : Server) : Prop where
  idle : s.tasks i = none → rowsOf token i as = []
  stage : ∀ headers ev p, s.tasks i = some ⟨⟨headers, .ingestAudit ev⟩, p⟩ →
    Stage ev (rowsOf token i as) p
  kept : ∀ row ∈ rowsOf token i as, row ∈ s.shared.audit

section Ingested

variable {token : String} {s s' : Server} {i : Nat}
  {as : List (Program.PoolAction Request Input)} {a : Program.PoolAction Request Input}

theorem rowsOf_concat (hrun : (machine token).run (machine token).init as = some s)
    (hstep : (machine token).step s a = some s') :
    rowsOf token i (as ++ [a]) = rowsOf token i as ++ (appended token i s a).toList :=
  (machine token).journal_concat (appended token i) hrun hstep

theorem appended_self {e : Input} (hstep : (machine token).step s (.run i e) = some s') :
    appended token i s (.run i e) = s'.shared.audit[s.shared.audit.length]? := by
  simp [appended, hstep]

theorem appended_other {e : Input} {k : Nat} (hki : k ≠ i) :
    appended token i s (.run k e) = none := by
  simp [appended, hki]

theorem stage_handle (token : String) (headers : HeaderMap) (ev : IngestAudit) :
    Stage ev [] (handle token ⟨headers, .ingestAudit ev⟩) := by
  by_cases h : Authorized headers token
  · rw [handle_authorized h]
    exact .begun
  · obtain ⟨msg, hmsg⟩ := handle_unauthorized (r := ⟨headers, .ingestAudit ev⟩) h
    rw [hmsg]
    exact .refused _

/-- What other tasks do appends nothing of this one. -/
theorem Staged.other (h : Staged token i as s)
    (hrows : rowsOf token i (as ++ [a]) = rowsOf token i as) (htask : s'.tasks i = s.tasks i)
    (hextends : Extends s.shared s'.shared) : Staged token i (as ++ [a]) s' where
  idle hi := by
    rw [hrows]
    exact h.idle (htask ▸ hi)
  stage headers ev p hp := by
    rw [hrows]
    exact h.stage headers ev p (htask ▸ hp)
  kept row hrow := by
    rw [hrows] at hrow
    exact hextends.audit.subset (h.kept row hrow)

theorem staged_accept {r : Request} (h : Staged token i as s)
    (hrun : (machine token).run (machine token).init as = some s) {k : Nat}
    (hk : s.tasks k = none)
    (hstep : (machine token).step s (.accept k r) =
      some { s with tasks := Function.update s.tasks k (some ⟨r, handle token r⟩) }) :
    Staged token i (as ++ [.accept k r])
      { s with tasks := Function.update s.tasks k (some ⟨r, handle token r⟩) } := by
  have hrows : rowsOf token i (as ++ [.accept k r]) = rowsOf token i as := by
    rw [rowsOf_concat hrun hstep]
    exact List.append_nil _
  by_cases hik : i = k
  · subst hik
    have hnone : rowsOf token i (as ++ [.accept i r]) = [] := hrows.trans (h.idle hk)
    refine ⟨fun _ => hnone, fun headers ev p hp => ?_, fun row hrow => ?_⟩
    · obtain ⟨rfl, rfl⟩ := Program.Task.mk.inj
        (Option.some.inj ((Function.update_self i _ _).symm.trans hp))
      rw [hnone]
      exact stage_handle token headers ev
    · rw [hnone] at hrow
      simp at hrow
  · exact h.other hrows (Function.update_of_ne hik _ _) (.refl _)

/-- The step of a task that stores an event, unless its insert fails. -/
theorem Stage.step {ev : IngestAudit} {rows : List AuditRow} {op : Access}
    {next : Answer op → Handler} {e : Input} {db : Db} (h : Stage ev rows (.call op next))
    (hfault : e.fault = false) :
    Stage ev (rows ++ ((exec e db op).2.audit[db.audit.length]?).toList)
      (next (exec e db op).1) := by
  cases h with
  | begun =>
    have hnew : (exec e db .now).2.audit[db.audit.length]? = none :=
      List.getElem?_eq_none (le_refl _)
    rw [hnew]
    exact .stamped e.now
  | stamped ts =>
    have hinsert : (exec e db (.insertAudit (ev.event ts))).2 = db.insertAudit (ev.event ts) := by
      simp [exec, query, hfault]
    have hnew : (exec e db (.insertAudit (ev.event ts))).2.audit[db.audit.length]? =
        some { ev.event ts with id := db.audit.length + 1 } := by
      rw [hinsert]
      exact List.getElem?_concat_length
    rw [hnew]
    exact .stored rfl

theorem staged_run {e : Input} {r : Request} {op : Access} {next : Answer op → Handler} {k : Nat}
    (h : Staged token i as s) (hfault : k = i → e.fault = false)
    (hrun : (machine token).run (machine token).init as = some s)
    (hk : s.tasks k = some ⟨r, .call op next⟩)
    (hstep : (machine token).step s (.run k e) =
      some { shared := (exec e s.shared op).2
             tasks := Function.update s.tasks k (some ⟨r, next (exec e s.shared op).1⟩) }) :
    Staged token i (as ++ [.run k e])
      { shared := (exec e s.shared op).2
        tasks := Function.update s.tasks k (some ⟨r, next (exec e s.shared op).1⟩) } := by
  have hconcat := rowsOf_concat (i := i) hrun hstep
  by_cases hki : k = i
  · subst hki
    rw [appended_self hstep] at hconcat
    refine ⟨fun hnone => ?_, fun headers ev p hp => ?_, fun row hrow => ?_⟩
    · simp at hnone
    · obtain ⟨rfl, rfl⟩ := Program.Task.mk.inj
        (Option.some.inj ((Function.update_self k _ _).symm.trans hp))
      rw [hconcat]
      exact (h.stage headers ev _ hk).step (hfault rfl)
    · rw [hconcat, List.mem_append, Option.mem_toList] at hrow
      rcases hrow with hold | hnew
      · exact (extends_exec e s.shared op).audit.subset (h.kept row hold)
      · exact List.mem_of_getElem? hnew
  · rw [appended_other hki] at hconcat
    exact h.other (hconcat.trans (List.append_nil _)) (Function.update_of_ne (Ne.symm hki) _ _)
      (extends_exec e s.shared op)

theorem staged_init (token : String) (i : Nat) : Staged token i [] (machine token).init where
  idle _ := rfl
  stage headers ev p hp := by simp [machine, Program.pool] at hp
  kept row hrow := by simp [rowsOf] at hrow

/-- Where the inserts of task `i` do not fail, it is at one of the stages. -/
theorem staged_of_run (hrun : (machine token).run (machine token).init as = some s)
    (hfault : ∀ e, .run i e ∈ as → e.fault = false) : Staged token i as s := by
  refine (machine token).invariant_run
    (I := fun as s => (∀ e, .run i e ∈ as → e.fault = false) → Staged token i as s)
    (fun _ => staged_init token i) (fun as s a s' hrun ih hstep hfault => ?_) hrun hfault
  have h : Staged token i as s := ih fun e he => hfault e (List.mem_append_left _ he)
  cases Program.effect_of_stepPool hstep with
  | accept hk => exact staged_accept h hrun hk hstep
  | @run k e r op next hk =>
    exact staged_run h (fun hki => hfault e (by simp [hki])) hrun hk hstep

end Ingested

/-! ## Every interleaving -/

/-- The request has been answered. -/
def Answered (s : Server) (i : Nat) (route : Route) (reply : Reply) : Prop :=
  ∃ headers, s.tasks i = some ⟨⟨headers, route⟩, .done (.ok reply)⟩

section Runs

variable {token : String} {s t : Server} {as bs : List (Program.PoolAction Request Input)}
  {i j : Nat} {q : AuditQuery} {ev : IngestAudit} {rows : List AuditRow}

/-- What the requests that come after `s` are answered, if it is a listing. -/
theorem lists_of_answered (hrun : (machine token).run s bs = some t) (hlate : s.tasks j = none)
    (hlist : Answered t j (.listAudit q) (.audit rows)) :
    Lists q s.shared t.shared rows ∧ Extends s.shared t.shared := by
  obtain ⟨headers, htask⟩ := hlist
  have hstart : s.EnsuresOn exec Extends (Listed s.shared) (fun k => s.tasks k = none) := by
    intro k task hk htask
    rw [hk] at htask
    simp at htask
  obtain ⟨hon, hextends⟩ := Program.ensuresOn_run Extends.refl Extends.trans extends_exec
    (fun r resp db db' hdb hQ => hQ.extends hdb) (fun r db hdb => handle_listed token hdb)
    hstart hrun
  obtain ⟨q', hroute, hlists⟩ := hon j _ hlate htask rows rfl
  obtain rfl := Route.listAudit.inj hroute
  exact ⟨hlists, hextends⟩

/-- In every interleaving the log counts its rows from 1 and is only appended to, and a
    listing shows, newest first and without gaps, the log as it was at a moment between
    the request and the answer. -/
theorem listing_exact (hrunS : (machine token).run (machine token).init as = some s)
    (hrunT : (machine token).run s bs = some t) (hlate : s.tasks j = none)
    (hlist : Answered t j (.listAudit q) (.audit rows)) :
    t.shared.LogNumbered ∧ s.shared.audit <+: t.shared.audit ∧ Lists q s.shared t.shared rows ∧
      rows.Pairwise (fun row row' => row'.id < row.id) ∧ rows.length ≤ q.places ∧
      ∀ row ∈ rows, row ∈ t.shared.audit := by
  have hlog : t.shared.LogNumbered :=
    logNumbered_reachable ⟨as ++ bs, (machine token).run_append.mpr ⟨s, hrunS, hrunT⟩⟩
  obtain ⟨hlists, hextends⟩ := lists_of_answered hrunT hlate hlist
  exact ⟨hlog, hextends.audit, hlists, hlists.descending hlog⟩

/-- Whether the request has been answered so. -/
def answeredWith (s : Server) (i : Nat) (r : Request) (reply : Reply) : Bool :=
  (s.tasks i).any fun t =>
    t.request = r && match t.program with
      | .done (.ok reply') => reply' = reply
      | _ => false

theorem answered_of_answeredWith {r : Request} {reply : Reply}
    (h : answeredWith s i r reply = true) : Answered s i r.route reply := by
  obtain ⟨⟨request, program⟩, ht, hanswered⟩ := (Option.any_eq_true _ _).mp h
  rw [Bool.and_eq_true, decide_eq_true_eq] at hanswered
  obtain ⟨rfl, hdone⟩ := hanswered
  split at hdone
  · next reply' hprogram =>
    obtain rfl : program = _ := hprogram
    obtain rfl := of_decide_eq_true hdone
    exact ⟨request.headers, ht⟩
  · simp at hdone

/-! A backend reports a registration and then lists the events of the peer. -/

def registration : IngestAudit :=
  { kind := "register", peerId := some "7", controllerPeerId := none, addr := some "10.0.0.1:9",
    metaJson := none }

def ingesting : List (Program.PoolAction Request Input) :=
  [.accept 0 { headers := bearerSecret, route := .ingestAudit registration }, .run 0 (quiet 1),
    .run 0 (quiet 1)]

def ofPeer : AuditQuery := { since := none, userId := none, peerId := some "7", limit := some 0 }

def listing : List (Program.PoolAction Request Input) :=
  [.accept 1 { headers := bearerSecret, route := .listAudit ofPeer }, .run 1 (quiet 1)]

def registered : Server :=
  ((machine "secret").run (machine "secret").init ingesting).getD (machine "secret").init

def listed : Server := ((machine "secret").run registered listing).getD registered

def registrationRow : AuditRow := { registration.event 1700000000 with id := 1 }

theorem run_ingesting :
    (machine "secret").run (machine "secret").init ingesting = some registered :=
  (machine "secret").run_getD ingesting (by decide +kernel)

theorem listing_exact_registration :
    listed.shared.LogNumbered ∧ registered.shared.audit <+: listed.shared.audit ∧
      Lists ofPeer registered.shared listed.shared [registrationRow] ∧
      [registrationRow].Pairwise (fun row row' => row'.id < row.id) ∧
      [registrationRow].length ≤ ofPeer.places ∧
      ∀ row ∈ [registrationRow], row ∈ listed.shared.audit :=
  listing_exact (j := 1) run_ingesting ((machine "secret").run_getD listing (by decide +kernel))
    (Option.isNone_iff_eq_none.mp (by decide +kernel))
    (answered_of_answeredWith
      (r := { headers := bearerSecret, route := .listAudit ofPeer }) (by decide +kernel))

/-- An event that was acknowledged, and whose insert did not fail, has been stored once. -/
theorem stored_of_answered (hrun : (machine token).run (machine token).init as = some s)
    (hfault : ∀ e, .run i e ∈ as → e.fault = false) {reply : Reply}
    (hack : Answered s i (.ingestAudit ev) reply) :
    ∃ row, rowsOf token i as = [row] ∧ row ∈ s.shared.audit ∧
      row.toAuditEvent = ev.event row.ts := by
  have hstaged := staged_of_run hrun hfault
  obtain ⟨headers, htask⟩ := hack
  have hstage := hstaged.stage headers ev _ htask
  generalize hrows : rowsOf token i as = stored at hstage
  cases hstage with
  | @stored row hrow => exact ⟨row, rfl, hstaged.kept row (by simp [hrows]), hrow⟩

/-- A listing that begins after an event was acknowledged shows the one row that the
    request has stored, unless it is full of newer rows or its time is before `since`. -/
theorem ingested_is_listed (hrunS : (machine token).run (machine token).init as = some s)
    (hfault : ∀ e, .run i e ∈ as → e.fault = false) {reply : Reply}
    (hack : Answered s i (.ingestAudit ev) reply)
    (hrunT : (machine token).run s bs = some t) (hlate : s.tasks j = none)
    (hlist : Answered t j (.listAudit q) (.audit rows)) {peer : Option String}
    (hpeer : q.Resolves s.shared peer)
    (hev : ∀ pid ∈ peer, ev.peerId = some pid ∨ ev.controllerPeerId = some pid) :
    ∃ row, rowsOf token i as = [row] ∧ row ∈ s.shared.audit ∧
      row.toAuditEvent = ev.event row.ts ∧
      (q.since.getD 0 ≤ row.ts →
        row ∈ rows ∨ rows.length = q.places ∧ ∀ newer ∈ rows, row.id < newer.id) := by
  have hlog : t.shared.LogNumbered :=
    logNumbered_reachable ⟨as ++ bs, (machine token).run_append.mpr ⟨s, hrunS, hrunT⟩⟩
  obtain ⟨hlists, hextends⟩ := lists_of_answered hrunT hlate hlist
  obtain ⟨row, hrows, hrow, hstored⟩ := stored_of_answered hrunS hfault hack
  refine ⟨row, hrows, hrow, hstored, fun hts => ?_⟩
  cases hlists with
  | unbound hpeer' huser hbase =>
    rw [AuditQuery.Resolves, hpeer', huser] at hpeer
    obtain ⟨pid, -, hbound⟩ := hpeer
    exact absurd hbound (hbase pid)
  | @rows peer' seen hpeer' hbase hseen =>
    obtain rfl : peer = peer' := (hpeer.extends hextends).unique hpeer'
    have hids : row.peerId = ev.peerId ∧ row.controllerPeerId = ev.controllerPeerId :=
      ⟨congrArg AuditEvent.peerId hstored, congrArg AuditEvent.controllerPeerId hstored⟩
    have hmatches : Matches (q.since.getD 0) peer row :=
      ⟨hts, fun pid hpid => by rw [hids.1, hids.2]; exact hev pid hpid⟩
    exact mem_latest_or_full (hlog.pairwise.sublist hseen.sublist) (hbase.subset hrow) hmatches

theorem ingested_is_listed_registration :
    ∃ row, rowsOf "secret" 0 ingesting = [row] ∧ row ∈ registered.shared.audit ∧
      row.toAuditEvent = registration.event row.ts ∧
      (ofPeer.since.getD 0 ≤ row.ts →
        row ∈ [registrationRow] ∨
          [registrationRow].length = ofPeer.places ∧ ∀ newer ∈ [registrationRow],
            row.id < newer.id) :=
  ingested_is_listed (i := 0) (j := 1) run_ingesting
    (fun e he => by simp [ingesting] at he; exact he ▸ rfl)
    (answered_of_answeredWith
      (r := { headers := bearerSecret, route := .ingestAudit registration })
      (by decide +kernel : answeredWith registered 0 _ (.status .accepted) = true))
    ((machine "secret").run_getD listing (by decide +kernel))
    (Option.isNone_iff_eq_none.mp (by decide +kernel))
    (answered_of_answeredWith
      (r := { headers := bearerSecret, route := .listAudit ofPeer }) (by decide +kernel))
    (rfl : ofPeer.Resolves registered.shared (some "7")) (fun pid hpid => .inl hpid)

end Runs

end XyzenRelay.Control
