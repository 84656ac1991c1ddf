-- SUMMARY: What the registry holds over whole runs: the last upsert of every id, and when it only routes to live connections.
import XyzenRelay.Rendezvous.Effect
import XyzenRelay.Lib.Journal

/-!
# Registrations

An entry is written by its last upsert and removed by the cleanup of the connection
that made it. A handler only remembers the last id it registered, so its cleanup
misses the entries it made before.
-/

namespace XyzenRelay.Rendezvous

/-- What the upserts of `id` wrote, in order. -/
def upserts (id : String) (as : List Action) : List Reachable :=
  as.filterMap fun a => a.registers.bind fun r => if r.1 = id then some r.2 else none

def lastUpsert (id : String) (as : List Action) : Option Reachable := (upserts id as).getLast?

theorem lastUpsert_concat (id : String) (as : List Action) (a : Action) :
    lastUpsert id (as ++ [a]) = a.registers.elim (lastUpsert id as) fun r =>
      if r.1 = id then some r.2 else lastUpsert id as := by
  unfold lastUpsert upserts
  rw [List.filterMap_append, List.filterMap_cons, List.filterMap_nil]
  cases a.registers with
  | none => simp
  | some r => by_cases hr : r.1 = id <;> simp [hr]

namespace Server

variable {relayAddr : String} {s s' : Server} {a : Action} {c : ConnId}

/-! ## The last upsert wins -/

/-- The cleanup of a connection leaves the entries of the others alone. -/
theorem get_of_cleanup (h : (machine relayAddr).step s (.wsCleanup c) = some s') {id : String}
    (hother : s.registry.get id ≠ some (.wsPush c)) : s'.registry.get id = s.registry.get id := by
  obtain ⟨conn, -, hregistry⟩ := registry_of_cleanup h
  rw [hregistry]
  cases conn.myId with
  | none => rfl
  | some myId =>
    show (s.registry.removeIfWs myId c).get id = _
    by_cases hid : id = myId
    · subst hid
      rw [PeerRegistry.get_removeIfWs, if_neg hother]
    · exact PeerRegistry.get_removeIfWs_ne hid

/-- A cleanup adds nothing. -/
theorem get_of_get_cleanup (h : (machine relayAddr).step s (.wsCleanup c) = some s') {id : String}
    {reach : Reachable} (hget : s'.registry.get id = some reach) :
    s.registry.get id = some reach := by
  by_cases hother : s.registry.get id = some (.wsPush c)
  · obtain ⟨conn, -, hregistry⟩ := registry_of_cleanup h
    rw [hregistry] at hget
    cases hid : conn.myId with
    | none => simpa [hid] using hget
    | some myId =>
      simp only [hid, Option.elim_some] at hget
      by_cases heq : id = myId
      · subst heq
        simp [PeerRegistry.get_removeIfWs, hother] at hget
      · rwa [PeerRegistry.get_removeIfWs_ne heq] at hget
  · rwa [get_of_cleanup h hother] at hget

theorem get_of_step (h : (machine relayAddr).step s a = some s') (ha : ∀ c, a ≠ .wsCleanup c)
    (id : String) :
    s'.registry.get id = a.registers.elim (s.registry.get id) fun r =>
      if r.1 = id then some r.2 else s.registry.get id := by
  rw [registry_of_step h ha]
  cases a.registers with
  | none => rfl
  | some r =>
    simp only [Option.elim_some]
    by_cases hid : r.1 = id
    · subst hid
      simp
    · rw [PeerRegistry.get_upsert_ne (Ne.symm hid), if_neg hid]

/-- An entry after a step other than a cleanup was there before, or has just been made. -/
theorem get_cases_of_step (h : (machine relayAddr).step s a = some s')
    (ha : ∀ c, a ≠ .wsCleanup c) {id : String} {reach : Reachable}
    (hget : s'.registry.get id = some reach) :
    s.registry.get id = some reach ∨ a.registers = some (id, reach) := by
  rw [get_of_step h ha] at hget
  cases hreg : a.registers with
  | none =>
    rw [hreg] at hget
    exact .inl hget
  | some r =>
    rw [hreg] at hget
    simp only [Option.elim_some] at hget
    split_ifs at hget with hid
    · obtain rfl := Option.some.inj hget
      exact .inr (hid ▸ rfl)
    · exact .inl hget

/-- The registry holds the last upsert of an id as long as the connection that made
    it has not been cleaned up, and no cleanup touches an entry of another
    connection. -/
theorem registration_kept {as : List Action} {t : Server}
    (hrun : (machine relayAddr).run (machine relayAddr).init as = some t) :
    (∀ id reach, lastUpsert id as = some reach → (∀ c, reach = .wsPush c → .wsCleanup c ∉ as) →
      t.registry.get id = some reach) ∧
    ∀ c t', (machine relayAddr).step t (.wsCleanup c) = some t' → ∀ id reach,
      t.registry.get id = some reach → reach ≠ .wsPush c → t'.registry.get id = some reach := by
  constructor
  · intro id reach hlast hlive
    induction as using List.reverseRecOn generalizing t with
    | nil => simp [lastUpsert, upserts] at hlast
    | append_singleton as a ih =>
      obtain ⟨u, hu, hstep⟩ := (machine relayAddr).run_concat.mp hrun
      rw [lastUpsert_concat] at hlast
      have hlive' : ∀ c, reach = .wsPush c → .wsCleanup c ∉ as :=
        fun c hc hmem => hlive c hc (List.mem_append_left _ hmem)
      by_cases hclean : ∃ c, a = .wsCleanup c
      · obtain ⟨c, rfl⟩ := hclean
        have hkept := ih hu hlast hlive'
        rw [← hkept]
        apply get_of_cleanup hstep
        rw [hkept]
        rintro ⟨⟩
        exact hlive c rfl (by simp)
      · rw [get_of_step hstep fun c hc => hclean ⟨c, hc⟩]
        cases hreg : a.registers with
        | none =>
          rw [hreg] at hlast
          exact ih hu hlast hlive'
        | some r =>
          rw [hreg] at hlast
          simp only [Option.elim_some] at hlast ⊢
          split_ifs at hlast ⊢ with hid
          · exact hlast
          · exact ih hu hlast hlive'
  · intro c t' hstep id reach hget hother
    rw [get_of_cleanup hstep (by rw [hget]; simpa using hother), hget]

/-- Connection 1 takes over the id of connection 0, which then disconnects. -/
def takeoverRun : List Action :=
  [.wsAccept, .wsAccept, .wsReceive 0 (.message (.registerPeer "a")), .wsReply 0,
    .wsReceive 1 (.message (.registerPk "a")), .wsReply 1, .wsReceive 0 .closed, .wsCleanup 0]

theorem registration_kept_takeover :
    lastUpsert "a" takeoverRun = some (.wsPush 1) ∧
      (((machine "relay").run (machine "relay").init takeoverRun).getD
        (machine "relay").init).registry.get "a" = some (.wsPush 1) :=
  ⟨by decide +kernel,
    (registration_kept ((machine "relay").run_getD takeoverRun (by decide +kernel))).1
      "a" (.wsPush 1) (by decide +kernel) (by rintro c ⟨⟩; decide +kernel)⟩

/-! ## Routes to connections that are gone -/

/-- The handler of the connection has not run its disconnect cleanup. -/
def Alive (s : Server) (c : ConnId) : Prop := ∃ conn, s.ws c = some conn ∧ conn.phase ≠ .finishing

/-- Every WS entry of the registry is the outbox of such a connection. -/
def RoutesAlive (s : Server) : Prop := ∀ id c, s.registry.get id = some (.wsPush c) → s.Alive c

/-- When the cleanup runs, the connection has no entry but the one of the id it
    registered last. -/
def OnlyLastId (s : Server) : Action → Prop
  | .wsCleanup c => ∀ id, s.registry.get id = some (.wsPush c) → (s.ws c).bind WsConn.myId = some id
  | _ => True

theorem alive_of_step (h : (machine relayAddr).step s a = some s') (hs : s.Alive c)
    (ha : a ≠ .wsCleanup c) :
    s'.Alive c := by
  obtain ⟨conn, hconn, hp⟩ := hs
  cases ws_of_step h c with
  | kept h' => exact ⟨conn, h'.trans hconn, hp⟩
  | accepted _ _ h' => exact ⟨_, h', by simp⟩
  | @moved _ conn' _ h' _ hp' => exact ⟨conn', h', fun hfin => ha (hp'.mp hfin)⟩
  | finished hfin hpfin =>
    obtain rfl := Option.some.inj (hfin.symm.trans hconn)
    exact absurd hpfin hp

theorem alive_of_registers (h : (machine relayAddr).step s a = some s') {id : String}
    (hreg : a.registers = some (id, .wsPush c)) : s.Alive c := by
  cases effect_of_step h with
  | @udp m addr => rcases m with _ | (_ | _ | _ | _ | _) <;> simp [Action.registers] at hreg
  | @wsRegisters d conn item _ _ hconn hp hitem =>
    rw [hitem] at hreg
    simp only [Option.some.injEq, Prod.mk.injEq, Reachable.wsPush.injEq] at hreg
    obtain ⟨rfl, rfl⟩ := hreg
    exact ⟨conn, hconn, by simp [hp]⟩
  | wsIgnores hconn hp hitem => simp [hitem] at hreg
  | wsTurns hconn hp hitem => simp [hitem] at hreg
  | _ => simp [Action.registers] at hreg

theorem routesAlive_step (hs : s.RoutesAlive) (ha : s.OnlyLastId a)
    (h : (machine relayAddr).step s a = some s') : s'.RoutesAlive := by
  intro id c hget
  by_cases hclean : ∃ d, a = .wsCleanup d
  · obtain ⟨d, rfl⟩ := hclean
    have hbefore := get_of_get_cleanup h hget
    by_cases hcd : c = d
    · -- the one entry of the connection is the one that is removed
      subst hcd
      obtain ⟨conn, hconn, hregistry⟩ := registry_of_cleanup h
      have hid : conn.myId = some id := by
        have hbind := ha id hbefore
        rwa [hconn] at hbind
      rw [hregistry, hid] at hget
      simp [PeerRegistry.get_removeIfWs, hbefore] at hget
    · exact alive_of_step h (hs id c hbefore) (by simpa using Ne.symm hcd)
  · have hother : ∀ d, a ≠ .wsCleanup d := fun d hd => hclean ⟨d, hd⟩
    have hbefore : s.Alive c := by
      rcases get_cases_of_step h hother hget with hbefore | hreg
      · exact hs id c hbefore
      · exact alive_of_registers h hreg
    exact alive_of_step h hbefore (hother c)

/-- An entry of an older id survives the cleanup. -/
theorem not_routesAlive_step (ha : ¬ s.OnlyLastId a) (h : (machine relayAddr).step s a = some s') :
    ¬ s'.RoutesAlive := by
  unfold OnlyLastId at ha
  split at ha
  · next c =>
    push Not at ha
    obtain ⟨id, hget, hid⟩ := ha
    intro hs'
    obtain ⟨conn, hconn, hregistry⟩ := registry_of_cleanup h
    have hkept : s'.registry.get id = some (.wsPush c) := by
      rw [hregistry]
      cases hmy : conn.myId with
      | none => exact hget
      | some myId =>
        have hne : id ≠ myId := by
          rintro rfl
          exact hid (by rw [hconn]; exact hmy)
        exact (PeerRegistry.get_removeIfWs_ne hne).trans hget
    obtain ⟨conn', hconn', hp'⟩ := hs' id c hkept
    cases ws_of_step h c with
    | kept _ ha => exact ha rfl
    | accepted ha => simp at ha
    | moved _ h' _ hfin =>
      obtain rfl := Option.some.inj (h'.symm.trans hconn')
      exact hp' (hfin.mpr rfl)
    | finished _ _ h' => simp [h'] at hconn'
  · exact absurd trivial ha

/-- Throughout a run the registry only routes to live connections exactly when no
    connection that is cleaned up has an entry besides that of its last id. -/
theorem routesAlive_iff {as : List Action} {t : Server}
    (hrun : (machine relayAddr).run (machine relayAddr).init as = some t) :
    (∀ u ∈ (machine relayAddr).visits (machine relayAddr).init as, RoutesAlive u) ↔
      (machine relayAddr).Meets OnlyLastId (machine relayAddr).init as := by
  refine (machine relayAddr).forall_visits_iff_meets (A := fun _ _ => True) (J := RoutesAlive)
    (fun s hs => hs)
    (fun s a s' hs _ hC hstep => routesAlive_step hs hC hstep)
    (fun s a s' _ _ hC hstep => not_routesAlive_step hC hstep) ?_ hrun
      ((machine relayAddr).meets_true _ _)
  intro id c hget
  simp [machine, init, PeerRegistry.get, AList.lookup_empty] at hget

theorem routesAlive_iff_takeover :
    (∀ u ∈ (machine "relay").visits (machine "relay").init takeoverRun, RoutesAlive u) ↔
      (machine "relay").Meets OnlyLastId (machine "relay").init takeoverRun :=
  routesAlive_iff ((machine "relay").run_getD takeoverRun (by decide +kernel))

/-- A connection that registered two ids is still routed to after its cleanup. -/
theorem dead_connection_routed :
    ¬ ∀ relayAddr s, (machine relayAddr).Reachable s → RoutesAlive s := by
  intro h
  obtain ⟨s, hs, hget, hws⟩ := (machine "relay").exists_reachable_of_run
    [.wsAccept, .wsReceive 0 (.message (.registerPeer "a")), .wsReply 0,
      .wsReceive 0 (.message (.registerPeer "b")), .wsReply 0, .wsReceive 0 .closed, .wsCleanup 0]
    (p := fun s => s.registry.get "a" = some (.wsPush 0) ∧
      s.ws 0 = some { phase := .finishing, myId := some "b" })
    (by decide +kernel)
  obtain ⟨conn, hconn, hp⟩ := h "relay" s hs "a" 0 hget
  obtain rfl := Option.some.inj (hws.symm.trans hconn)
  exact hp rfl

end Server

end XyzenRelay.Rendezvous
