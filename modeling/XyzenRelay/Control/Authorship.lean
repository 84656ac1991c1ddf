-- SUMMARY: Where the rows of the audit log come from: each from one authorized request of its own.
import XyzenRelay.Control.AuditLog
import Mathlib.Data.List.Forall2

/-!
# Authorship

Nothing in a row of the log says which request it comes from, and a recording can fail
without a trace. What can be told of the log as a whole is that its rows can be matched
with distinct requests that were authorized and that record just these events.
-/

namespace XyzenRelay.Control

open Program (Obeys)

/-- What a request records, if it records anything. -/
def Records (db : Db) (r : Request) (ev : AuditEvent) : Prop :=
  match r.route with
  | .ingestAudit given => ev = given.event ev.ts
  | .bindPeer userId =>
    ∃ peerId, db.Bound userId peerId ∧
      ev = { ts := ev.ts, kind := "peer_bound", peerId := some peerId, controllerPeerId := none,
             addr := none, metaJson := some (userIdJson userId) }
  | .getPeer _ | .listAudit _ => False

/-- The access is no recording. -/
def Silent : (op : Access) → (Answer op → Handler) → Prop
  | .insertAudit _, _ => False
  | _, _ => True

/-- A recording is what the request stands for, and the last one. -/
def Once (token : String) (r : Request) :
    (op : Access) → (Answer op → Handler) → Db → Prop
  | .insertAudit ev, next, db =>
    Authorized r.headers token ∧ Records db r ev ∧ ∀ ans, (next ans).Calls Silent
  | _, _, _ => True

section Handlers

variable {token : String} {r : Request} {db db' : Db}

theorem Records.extends {ev : AuditEvent} (h : Records db r ev) (hdb : Extends db db') :
    Records db' r ev := by
  unfold Records at *
  split at h
  · exact h
  · obtain ⟨peerId, hbound, hev⟩ := h
    exact ⟨peerId, hdb.bound hbound, hev⟩
  · exact h
  · exact h

theorem once_of_silent {op : Access} {next : Answer op → Handler} (h : Silent op next) (db : Db) :
    Once token r op next db := by
  cases op with
  | insertAudit ev => exact h.elim
  | _ => trivial

theorem obeys_of_silent {p : Handler} (h : p.Calls Silent) (db : Db) :
    p.Obeys exec Extends (Once token r) db :=
  Program.Calls.obeys (h.imp fun _ _ hs s => once_of_silent hs s) db

/-- What follows a successful insert may rely on the binding. -/
theorem obeys_insertPeer {row : PeerRow} {next : Except DbError Unit → Handler}
    (hconflict : ∀ err db', (next (.error err)).Obeys exec Extends (Once token r) db')
    (hinserted : ∀ db', db'.Bound row.userId row.peerId →
      (next (.ok ())).Obeys exec Extends (Once token r) db') :
    (Program.call (.insertPeer row) next).Obeys exec Extends (Once token r) db := by
  refine fun db₁ _ => ⟨trivial, fun e => ?_⟩
  have hinserts := inserts_exec e db₁ row
  generalize exec e db₁ (.insertPeer row) = result at hinserts
  cases hinserts with
  | @inserted peers hfault hrows =>
    refine hinserted _ ⟨row, ?_, rfl, rfl⟩
    show row ∈ peers.rows
    simp [hrows]
  | conflict | fault => exact hconflict _ _

/-- The search for an id draws bytes and looks ids up. -/
theorem fresh_accesses (tries : Nat) :
    (fresh tries).Calls fun op _ => op = .fillBytes ∨ ∃ peerId, op = .selectId peerId := by
  induction tries with
  | zero => trivial
  | succ tries ih =>
    refine ⟨.inl rfl, fun buf => ⟨.inr ⟨_, rfl⟩, fun answer => ?_⟩⟩
    cases answer with
    | error _ => trivial
    | ok found =>
      cases found with
      | none => trivial
      | some _ => exact ih

theorem bind_once {userId : String} (hauth : Authorized r.headers token)
    (hr : r.route = .bindPeer userId) :
    (bind userId).Obeys exec Extends (Once token r) db := by
  unfold bind
  split
  · trivial
  · refine fun db₁ _ => ⟨trivial, fun e₁ => ?_⟩
    generalize (exec e₁ db₁ _).2 = db₂
    generalize (exec e₁ db₁ _).1 = answer
    cases answer with
    | error _ => trivial
    | ok found =>
      cases found with
      | some _ => trivial
      | none =>
        refine Program.Calls.bind_obeys (p := fresh 16) ((fresh_accesses 16).imp ?_)
          (fun found db₃ => ?_) db₂
        · rintro op next (rfl | ⟨peerId, rfl⟩) db <;> trivial
        · cases found with
          | none => trivial
          | some peerId =>
            refine fun db₄ _ => ⟨trivial, fun e₄ => ?_⟩
            refine obeys_insertPeer (fun _ _ => trivial) fun db₅ hbound => ?_
            -- the recording, with the clock read before it
            refine fun db₆ hdb₆ => ⟨trivial, fun e₆ db₇ hdb₇ => ⟨⟨hauth, ?_, fun _ => trivial⟩,
              fun _ => trivial⟩⟩
            rw [Records, hr]
            exact ⟨peerId, hdb₇.bound (hdb₆.bound hbound), rfl⟩

theorem ingest_once {ev : IngestAudit} (hauth : Authorized r.headers token)
    (hr : r.route = .ingestAudit ev) :
    (ingest ev).Obeys exec Extends (Once token r) db := by
  refine fun db₁ _ => ⟨trivial, fun e₁ db₂ _ => ⟨⟨hauth, ?_, fun _ => trivial⟩, fun _ => trivial⟩⟩
  rw [Records, hr]
  rfl

theorem list_silent (q : AuditQuery) : (list q).Calls Silent := by
  have hrows : ∀ peer, (listRows q peer).Calls Silent := by
    refine fun peer => ⟨trivial, fun answer => ?_⟩
    cases answer <;> trivial
  unfold list
  split
  · exact hrows _
  · exact hrows _
  · refine ⟨trivial, fun answer => ?_⟩
    cases answer with
    | error _ => trivial
    | ok found =>
      cases found with
      | none => trivial
      | some _ => exact hrows _

theorem get_silent (userId : String) : (get userId).Calls Silent := by
  refine ⟨trivial, fun answer => ?_⟩
  cases answer with
  | error _ => trivial
  | ok found => cases found <;> trivial

theorem handle_once (token : String) (r : Request) (db : Db) :
    (handle token r).Obeys exec Extends (Once token r) db := by
  by_cases h : Authorized r.headers token
  · rw [handle_authorized h]
    cases hr : r.route with
    | bindPeer userId => exact bind_once h hr
    | getPeer userId => exact obeys_of_silent (get_silent userId) db
    | listAudit q => exact obeys_of_silent (list_silent q) db
    | ingestAudit ev => exact ingest_once h hr
  · obtain ⟨msg, hmsg⟩ := handle_unauthorized h
    rw [hmsg]
    trivial

end Handlers

/-! ## Every interleaving -/

/-- The task was accepted with the request. -/
def Requested (s : Server) (i : Nat) (r : Request) : Prop := ∃ p, s.tasks i = some ⟨r, p⟩

/-- The task's request was authorized and stands for the row. -/
def Author (token : String) (s : Server) (i : Nat) (row : AuditRow) : Prop :=
  ∃ r, Requested s i r ∧ Authorized r.headers token ∧ Records s.shared r row.toAuditEvent

/-- The tasks that have recorded, in the order of the rows. -/
structure Authors (token : String) (s : Server) (authors : List Nat) : Prop where
  nodup : authors.Nodup
  rows : List.Forall₂ (Author token s) authors s.shared.audit
  silent : ∀ i ∈ authors, ∀ t, s.tasks i = some t → t.program.Calls Silent
  once : ∀ i t, s.tasks i = some t → t.program.Obeys exec Extends (Once token t.request) s.shared

section Steps

variable {token : String} {s s' : Server} {a : Program.PoolAction Request Input} {i : Nat}
  {authors : List Nat}

theorem requested_step {r : Request} (h : Requested s i r)
    (hstep : Program.PoolEffect exec (handle token) s a s') : Requested s' i r := by
  obtain ⟨p, hp⟩ := h
  cases hstep with
  | @accept j r' hj =>
    have hij : i ≠ j := by
      rintro rfl
      simp [hj] at hp
    exact ⟨p, by simp [Function.update_of_ne hij, hp]⟩
  | @run j e r' op next hj =>
    by_cases hij : i = j
    · subst hij
      obtain ⟨rfl, -⟩ := Program.Task.mk.inj (Option.some.inj (hp.symm.trans hj))
      exact ⟨_, Function.update_self _ _ _⟩
    · exact ⟨p, by simp [Function.update_of_ne hij, hp]⟩

theorem Author.step {row : AuditRow} (h : Author token s i row)
    (hstep : Program.PoolEffect exec (handle token) s a s') (hs : Extends s.shared s'.shared) :
    Author token s' i row := by
  obtain ⟨r, hr, hauth, hrecords⟩ := h
  exact ⟨r, requested_step hr hstep, hauth, hrecords.extends hs⟩

theorem Authors.rows_step (h : Authors token s authors)
    (hstep : Program.PoolEffect exec (handle token) s a s') (hs : Extends s.shared s'.shared) :
    List.Forall₂ (Author token s') authors s.shared.audit :=
  h.rows.imp fun _ _ hauthor => hauthor.step hstep hs

/-- Every author is a task. -/
theorem Authors.requested (h : Authors token s authors) (hi : i ∈ authors) :
    ∃ r, Requested s i r := by
  have hrows : List.Forall₂ (fun i _ => (∃ r, Requested s i r) ∧ True) authors s.shared.audit :=
    h.rows.imp fun _ _ ⟨r, hr, _⟩ => ⟨⟨r, hr⟩, trivial⟩
  exact ((List.forall₂_and_left _ _).mp hrows).1 i hi

theorem authors_accept {r : Request} (h : Authors token s authors) (hi : s.tasks i = none) :
    Authors token { s with tasks := Function.update s.tasks i (some ⟨r, handle token r⟩) }
      authors where
  nodup := h.nodup
  rows := h.rows_step (.accept hi) (.refl _)
  silent := by
    intro j hj t ht
    rcases Program.task_of_update ht with ⟨rfl, -⟩ | ⟨-, ht⟩
    · obtain ⟨r', p, hp⟩ := h.requested hj
      simp [hi] at hp
    · exact h.silent j hj t ht
  once := by
    intro j t ht
    rcases Program.task_of_update ht with ⟨-, rfl⟩ | ⟨-, ht⟩
    · exact handle_once token r s.shared
    · exact h.once j t ht

theorem authors_run {e : Input} {r : Request} {op : Access} {next : Answer op → Handler}
    (h : Authors token s authors) (hi : s.tasks i = some ⟨r, .call op next⟩) :
    ∃ authors', Authors token
      { shared := (exec e s.shared op).2
        tasks := Function.update s.tasks i (some ⟨r, next (exec e s.shared op).1⟩) } authors' := by
  have heffect : Program.PoolEffect exec (handle token) s (.run i e) _ := .run hi
  have hextends := extends_exec e s.shared op
  have hrows := h.rows_step heffect hextends
  obtain ⟨hop, hnext⟩ := h.once i _ hi s.shared (.refl _)
  have honce : ∀ j t, Function.update s.tasks i (some ⟨r, next (exec e s.shared op).1⟩) j = some t →
      t.program.Obeys exec Extends (Once token t.request) (exec e s.shared op).2 := by
    intro j t ht
    rcases Program.task_of_update ht with ⟨-, rfl⟩ | ⟨-, ht⟩
    · exact hnext e
    · exact (h.once j t ht).stable Extends.trans hextends
  have hsilent : ∀ j ∈ authors, ∀ t,
      Function.update s.tasks i (some ⟨r, next (exec e s.shared op).1⟩) j = some t →
        t.program.Calls Silent := by
    intro j hj t ht
    rcases Program.task_of_update ht with ⟨rfl, rfl⟩ | ⟨-, ht⟩
    · exact (h.silent j hj _ hi).2 _
    · exact h.silent j hj t ht
  rcases audit_exec e s.shared op with haudit | ⟨ev, rfl, -, hdb⟩
  · exact ⟨authors, h.nodup, by rw [haudit]; exact hrows, hsilent, honce⟩
  · -- a recording: the task has not recorded before, and does not record again
    obtain ⟨hauth, hrecords, hlast⟩ := hop
    have hnew : i ∉ authors := fun hmem => (h.silent i hmem _ hi).1
    refine ⟨authors ++ [i], ?_, ?_, ?_, honce⟩
    · exact List.nodup_append.mpr ⟨h.nodup, List.nodup_singleton i,
        fun j hj k hk hjk => hnew (List.mem_singleton.mp hk ▸ hjk ▸ hj)⟩
    · have hauthor : Author token
          { shared := (exec e s.shared (.insertAudit ev)).2
            tasks := Function.update s.tasks i (some ⟨r, next (exec e s.shared _).1⟩) }
          i { ev with id := s.shared.audit.length + 1 } :=
        ⟨r, ⟨_, Function.update_self _ _ _⟩, hauth, hrecords.extends hextends⟩
      have hlog : (exec e s.shared (.insertAudit ev)).2.audit =
          s.shared.audit ++ [{ ev with id := s.shared.audit.length + 1 }] := by
        rw [hdb]
        rfl
      rw [hlog]
      exact List.rel_append hrows (.cons hauthor .nil)
    · intro j hj t ht
      rcases List.mem_append.mp hj with hj | hj
      · exact hsilent j hj t ht
      · obtain rfl := List.mem_singleton.mp hj
        obtain rfl := Option.some.inj ((Function.update_self j _ _).symm.trans ht)
        exact hlast _

theorem authors_preserved (token : String) :
    (machine token).Preserves fun s => ∃ authors, Authors token s authors := by
  rintro s a s' ⟨authors, h⟩ hstep
  cases Program.effect_of_stepPool hstep with
  | accept hi => exact ⟨authors, authors_accept h hi⟩
  | run hi => exact authors_run h hi

theorem authors_init (token : String) : Authors token (machine token).init [] where
  nodup := List.nodup_nil
  rows := .nil
  silent := by simp
  once := by
    intro i t ht
    simp [machine, Program.pool] at ht

theorem exists_authors (h : (machine token).Reachable s) : ∃ authors, Authors token s authors :=
  (authors_preserved token).reachable _ ⟨[], authors_init token⟩ h

/-- In every interleaving the rows of the log come from distinct tasks: each from one
    whose request was authorized and records just that event. -/
theorem rows_have_authors (h : (machine token).Reachable s) :
    ∃ authors : List Nat, authors.Nodup ∧
      List.Forall₂ (Author token s) authors s.shared.audit := by
  obtain ⟨authors, hauthors⟩ := exists_authors h
  exact ⟨authors, hauthors.nodup, hauthors.rows⟩

theorem rows_have_authors_registration :
    registered.shared.audit = [registrationRow] ∧
      ∃ authors : List Nat, authors.Nodup ∧
        List.Forall₂ (Author "secret" registered) authors registered.shared.audit :=
  ⟨by decide +kernel, rows_have_authors ⟨ingesting, run_ingesting⟩⟩

end Steps

end XyzenRelay.Control
