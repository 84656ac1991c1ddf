-- SUMMARY: The token gate of the control plane: exactly the authorized requests get past it, and the others see nothing of the database.
import XyzenRelay.Control.Bindings

/-!
# The token gate

Every handler begins with the token check. A request that fails it is answered without
an access to the database, whichever handler it is for.
-/

namespace XyzenRelay.Control

variable {token : String} {r : Request}

/-- Behind the gate nothing is answered with 401. -/
theorem rest_ne_unauthorized (route : Route) (msg : String) :
    route.rest ≠ .done (.error (.unauthorized msg)) := by
  intro h
  have hrest : route.rest.Ensures exec Grows (fun _ _ _ => True) (Served route) Db.empty :=
    rest_ensures route
  rw [h] at hrest
  exact hrest.authorized msg rfl

theorem handle_eq_rest_iff : handle token r = r.route.rest ↔ Authorized r.headers token := by
  refine ⟨fun h => ?_, handle_authorized⟩
  by_contra hnot
  obtain ⟨msg, hmsg⟩ := handle_unauthorized hnot
  exact rest_ne_unauthorized r.route msg (h.symm.trans hmsg)

/-- An unauthorized request is answered at once, whatever the tables hold. -/
theorem eval_unauthorized (h : ¬ Authorized r.headers token) :
    ∃ msg, ∀ inputs db,
      (handle token r).eval exec inputs db = (.error (.unauthorized msg), db) := by
  obtain ⟨msg, hmsg⟩ := handle_unauthorized h
  exact ⟨msg, fun inputs db => by rw [hmsg, Program.eval]⟩

/-- A handler gets past the token check exactly if the first Authorization header is
    readable and carries the token. Otherwise the answer is 401, the same for every
    database, and the tables are as before. The comparison of the token is exact. -/
theorem gate_complete (token : String) (r : Request) :
    (requireToken r.headers token = .ok () ↔ Authorized r.headers token) ∧
    (handle token r = r.route.rest ↔ Authorized r.headers token) ∧
    (¬ Authorized r.headers token →
      ∃ msg, ∀ inputs db, (handle token r).eval exec inputs db = (.error (.unauthorized msg), db)) ∧
    ∀ a b, ctEq a b = true ↔ a = b :=
  ⟨requireToken_iff, handle_eq_rest_iff, eval_unauthorized, fun _ _ => ctEq_iff⟩

end XyzenRelay.Control
