-- SUMMARY: The bearer-token check of the control plane: its errors, its byte comparison, and exactly which headers pass it.
import XyzenRelay.Lib.Endian
import Mathlib.Data.UInt

/-!
# Authorization

Model of `require_token`, `ct_eq` and `AppError` in `crates/control/src/http.rs`. Header
names are in lower case, and values are byte strings, in the order of arrival.
-/

namespace XyzenRelay.Control

/-- `axum::http::StatusCode`, the codes in use. -/
inductive StatusCode where
  | ok
  | accepted
  | badRequest
  | unauthorized
  | notFound
  | internalServerError
  deriving DecidableEq, Repr

structure AppError where
  status : StatusCode
  msg : String
  deriving DecidableEq, Repr

namespace AppError

def bad (m : String) : AppError := { status := .badRequest, msg := m }

def unauthorized (m : String) : AppError := { status := .unauthorized, msg := m }

def notFound (m : String) : AppError := { status := .notFound, msg := m }

def db : AppError := { status := .internalServerError, msg := "database error" }

def internal : AppError := { status := .internalServerError, msg := "internal error" }

end AppError

abbrev HeaderMap := List (String × Bytes)

/-- `HeaderMap::get`: the first value of the name. -/
def HeaderMap.get (headers : HeaderMap) (name : String) : Option Bytes :=
  (headers.find? fun h => h.1 = name).map Prod.snd

def AUTHORIZATION : String := "authorization"

/-- `str::as_bytes`. -/
def asBytes (s : String) : Bytes := s.toUTF8.data.toList

/-- Visible ASCII, space or tab. -/
def isVisible (b : UInt8) : Bool := (32 ≤ b && b < 127) || b == 9

/-- `HeaderValue::to_str`. -/
def toStr (v : Bytes) : Option Bytes := if v.all isVisible then some v else none

/-- `str::strip_prefix`. -/
def stripPrefix (pre v : Bytes) : Option Bytes :=
  if pre <+: v then some (v.drop pre.length) else none

/-- The comparison looks at every byte, whatever it has seen. -/
def ctEq (a b : Bytes) : Bool :=
  if a.length ≠ b.length then false
  else (a.zip b).foldl (fun diff x => diff ||| (x.1 ^^^ x.2)) 0 == 0

def requireToken (headers : HeaderMap) (expected : String) : Except AppError Unit :=
  match (headers.get AUTHORIZATION).bind toStr with
  | none => .error (.unauthorized "missing Authorization")
  | some v =>
    match stripPrefix (asBytes "Bearer ") v with
    | none => .error (.unauthorized "expected Bearer token")
    | some bearer => if !ctEq bearer (asBytes expected)
      then .error (.unauthorized "invalid token") else .ok ()

/-! ## The comparison -/

/-- No difference cancels another. -/
theorem foldl_or_xor_eq_zero {xs : List (UInt8 × UInt8)} {diff : UInt8} :
    xs.foldl (fun diff x => diff ||| (x.1 ^^^ x.2)) diff = 0 ↔ diff = 0 ∧ ∀ x ∈ xs, x.1 = x.2 := by
  induction xs generalizing diff with
  | nil => simp
  | cons x xs ih =>
    rw [List.foldl_cons, ih, UInt8.or_eq_zero_iff, UInt8.xor_eq_zero_iff, and_assoc,
      List.forall_mem_cons]

theorem forall_zip_iff {a b : Bytes} (hlen : a.length = b.length) :
    (∀ x ∈ a.zip b, x.1 = x.2) ↔ a = b := by
  induction a generalizing b with
  | nil => simp [List.length_eq_zero_iff.mp hlen.symm]
  | cons x a ih =>
    cases b with
    | nil => simp at hlen
    | cons y b =>
      rw [List.zip_cons_cons, List.forall_mem_cons, List.cons.injEq, ih (Nat.succ.inj hlen)]

/-- The comparison decides equality. -/
theorem ctEq_iff {a b : Bytes} : ctEq a b = true ↔ a = b := by
  unfold ctEq
  split
  · next hlen =>
    refine ⟨fun h => by simp at h, ?_⟩
    rintro rfl
    exact absurd rfl hlen
  · next hlen =>
    rw [not_not] at hlen
    rw [beq_iff_eq, foldl_or_xor_eq_zero, forall_zip_iff hlen]
    exact and_iff_right rfl

/-! ## The check -/

theorem stripPrefix_eq_some {pre v w : Bytes} : stripPrefix pre v = some w ↔ v = pre ++ w := by
  unfold stripPrefix
  split
  · next hpre =>
    obtain ⟨u, rfl⟩ := hpre
    rw [List.drop_left, Option.some.injEq, List.append_cancel_left_eq, eq_comm]
  · next hpre =>
    refine ⟨fun h => by simp at h, ?_⟩
    rintro rfl
    exact absurd (List.prefix_append pre w) hpre

theorem toStr_eq_some {v w : Bytes} : toStr v = some w ↔ v = w ∧ ∀ b ∈ v, isVisible b = true := by
  simp only [toStr, Option.ite_none_right_eq_some, Option.some.injEq, List.all_eq_true]
  exact and_comm

/-- The first Authorization header is readable and is the token behind its scheme. -/
def Authorized (headers : HeaderMap) (token : String) : Prop :=
  ∃ v, headers.get AUTHORIZATION = some v ∧ (∀ b ∈ v, isVisible b = true) ∧
    v = asBytes "Bearer " ++ asBytes token

theorem requireToken_iff {headers : HeaderMap} {token : String} :
    requireToken headers token = .ok () ↔ Authorized headers token := by
  unfold requireToken
  constructor
  · intro h
    split at h
    · simp at h
    · next v hv =>
      obtain ⟨v', hget, hv'⟩ := Option.bind_eq_some_iff.mp hv
      obtain ⟨rfl, hvisible⟩ := toStr_eq_some.mp hv'
      split at h
      · simp at h
      · next bearer hbearer =>
        split at h
        · simp at h
        · next heq =>
          rw [Bool.not_eq_true', Bool.not_eq_false] at heq
          rw [ctEq_iff.mp heq] at hbearer
          exact ⟨v', hget, hvisible, stripPrefix_eq_some.mp hbearer⟩
  · rintro ⟨v, hget, hvisible, hv⟩
    rw [hget, Option.bind_some, toStr_eq_some.mpr ⟨rfl, hvisible⟩]
    simp only [stripPrefix_eq_some.mpr hv, ctEq_iff.mpr rfl, Bool.not_true,
      Bool.false_eq_true, if_false]

/-- The check fails with 401 only. -/
theorem requireToken_error {headers : HeaderMap} {token : String} (h : ¬ Authorized headers token) :
    ∃ msg, requireToken headers token = .error (.unauthorized msg) := by
  have hnot := mt requireToken_iff.mp h
  unfold requireToken at hnot ⊢
  split
  · exact ⟨_, rfl⟩
  · split
    · exact ⟨_, rfl⟩
    · split
      · exact ⟨_, rfl⟩
      · simp_all

end XyzenRelay.Control
