-- SUMMARY: Labelled machines with a guarded executable step, their runs, and the rules that carry an invariant along a run.
import Mathlib.Data.List.Basic
import Mathlib.Data.List.Induction

/-!
# Machines

A machine is a start state and a guarded step: `step s a` is `some s'` when the
action `a` is enabled in `s`, and `none` otherwise. All nondeterminism (who
moves, what arrives, which entry is picked) is in the action, so that a run is
a list of actions, and a claim about every run is a claim about every list.
-/

/-- A labelled machine with a start state and a guarded step. -/
structure Machine (σ α : Type) where
  init : σ
  step : σ → α → Option σ

namespace Machine

variable {σ α : Type} (M : Machine σ α)

/-! ## Runs -/

/-- Take the actions in order. The run is `none` as soon as one is disabled. -/
def run : σ → List α → Option σ
  | s, [] => some s
  | s, a :: as => (M.step s a).bind fun s' => run s' as

@[simp] theorem run_nil (s : σ) : M.run s [] = some s := rfl

theorem run_cons {s t : σ} {a : α} {as : List α} :
    M.run s (a :: as) = some t ↔ ∃ s', M.step s a = some s' ∧ M.run s' as = some t := by
  simp [run, Option.bind_eq_some_iff]

theorem run_append {s t : σ} {as bs : List α} :
    M.run s (as ++ bs) = some t ↔ ∃ s', M.run s as = some s' ∧ M.run s' bs = some t := by
  induction as generalizing s with
  | nil => simp
  | cons a as ih =>
    simp only [List.cons_append, run_cons, ih]
    constructor
    · rintro ⟨s₁, hstep, s₂, has, hbs⟩
      exact ⟨s₂, ⟨s₁, hstep, has⟩, hbs⟩
    · rintro ⟨s₂, ⟨s₁, hstep, has⟩, hbs⟩
      exact ⟨s₁, hstep, s₂, has, hbs⟩

theorem run_concat {s t : σ} {as : List α} {a : α} :
    M.run s (as ++ [a]) = some t ↔ ∃ u, M.run s as = some u ∧ M.step u a = some t := by
  simp only [run_append, run_cons, run_nil, Option.some.injEq, exists_eq_right]

/-- What is kept of two states by `f` is the same after two runs that `g` does not tell
    apart, if it is so after one step. -/
theorem run_map_congr {β γ : Type} {f : σ → β} {g : α → γ}
    (h : ∀ {s t a b}, f s = f t → g a = g b → (M.step s a).map f = (M.step t b).map f)
    {as bs : List α} (has : as.map g = bs.map g) {s t : σ} (hst : f s = f t) :
    (M.run s as).map f = (M.run t bs).map f := by
  induction as generalizing s t bs with
  | nil =>
    obtain rfl : bs = [] := by simpa using has.symm
    simp [hst]
  | cons a as ih =>
    obtain ⟨b, bs, rfl, hab, has⟩ := List.map_eq_cons_iff.mp has.symm
    have hstep := h hst hab.symm
    cases hs : M.step s a with
    | none => cases ht : M.step t b <;> simp_all [run]
    | some s' =>
      cases ht : M.step t b with
      | none => simp [hs, ht] at hstep
      | some t' =>
        have hst' : f s' = f t' := by simpa [hs, ht] using hstep
        simpa [run, hs, ht] using ih has.symm hst'

/-- A machine whose actions are always enabled has every run. -/
theorem run_of_total (h : ∀ s a, (M.step s a).isSome) (s : σ) (as : List α) :
    ∃ t, M.run s as = some t := by
  induction as generalizing s with
  | nil => exact ⟨s, rfl⟩
  | cons a as ih =>
    obtain ⟨s', hstep⟩ := Option.isSome_iff_exists.mp (h s a)
    obtain ⟨t, hrest⟩ := ih s'
    exact ⟨t, M.run_cons.mpr ⟨s', hstep, hrest⟩⟩

/-- The states some run from the start state ends in. -/
def Reachable (s : σ) : Prop := ∃ as, M.run M.init as = some s

theorem Reachable.init : M.Reachable M.init := ⟨[], rfl⟩

theorem reachable_of_run {as : List α} {s : σ} (h : M.run M.init as = some s) : M.Reachable s :=
  ⟨as, h⟩

theorem run_getD {s : σ} (as : List α) (h : (M.run s as).isSome) :
    M.run s as = some ((M.run s as).getD s) := by
  obtain ⟨t, ht⟩ := Option.isSome_iff_exists.mp h
  rw [ht, Option.getD_some]

/-- The state a replayed run ends in is reachable. -/
theorem reachable_getD (as : List α) : M.Reachable ((M.run M.init as).getD M.init) := by
  cases hrun : M.run M.init as with
  | none => exact Reachable.init M
  | some s => exact reachable_of_run M hrun

/-- A replayed run whose last state passes a test shows a reachable state that
    passes it. -/
theorem exists_reachable_of_run (as : List α) {p : σ → Prop} [DecidablePred p]
    (h : (M.run M.init as).any (fun s => decide (p s)) = true) : ∃ s, M.Reachable s ∧ p s := by
  cases hrun : M.run M.init as with
  | none => simp [hrun] at h
  | some s =>
    rw [hrun] at h
    exact ⟨s, ⟨as, hrun⟩, by simpa using h⟩

/-! ## Invariants -/

/-- `I` survives every enabled action. -/
def Preserves (I : σ → Prop) : Prop :=
  ∀ s a s', I s → M.step s a = some s' → I s'

/-- What survives the actions with `P` survives the runs of such actions. -/
theorem keeps_run {P : α → Prop} {I : σ → Prop}
    (h : ∀ s a s', P a → I s → M.step s a = some s' → I s') {s t : σ} {as : List α}
    (hP : ∀ a ∈ as, P a) (hs : I s) (hrun : M.run s as = some t) : I t := by
  induction as generalizing s with
  | nil =>
    simp only [run_nil, Option.some.injEq] at hrun
    exact hrun ▸ hs
  | cons a as ih =>
    obtain ⟨s', hstep, hrest⟩ := M.run_cons.mp hrun
    rw [List.forall_mem_cons] at hP
    exact ih hP.2 (h s a s' hP.1 hs hstep) hrest

theorem Preserves.run {I : σ → Prop} (h : M.Preserves I) {s t : σ} {as : List α}
    (hs : I s) (hrun : M.run s as = some t) : I t :=
  M.keeps_run (P := fun _ => True) (fun s a s' _ => h s a s') (fun _ _ => trivial) hs hrun

/-- What holds at the start and survives every action holds of every reachable
    state. -/
theorem Preserves.reachable {I : σ → Prop} (h : M.Preserves I) (hinit : I M.init) {s : σ}
    (hs : M.Reachable s) : I s := by
  obtain ⟨as, has⟩ := hs
  exact h.run M hinit has

/-- What holds at the start and is carried on by every action, of the actions so far and the
    state they lead to, holds after every run. -/
theorem invariant_run {I : List α → σ → Prop} {s₀ : σ} (hinit : I [] s₀)
    (h : ∀ as s a s', M.run s₀ as = some s → I as s → M.step s a = some s' → I (as ++ [a]) s')
    {as : List α} {s : σ} (hrun : M.run s₀ as = some s) : I as s := by
  induction as using List.reverseRecOn generalizing s with
  | nil =>
    simp only [run_nil, Option.some.injEq] at hrun
    exact hrun ▸ hinit
  | append_singleton as a ih =>
    obtain ⟨u, hu, hstep⟩ := M.run_concat.mp hrun
    exact h as u a s hu (ih hu) hstep

/-- A measure that the actions of a run lower bounds its length. -/
theorem length_add_le_of_run {P : α → Prop} {μ : σ → Nat}
    (h : ∀ s a s', P a → M.step s a = some s' → μ s' < μ s) {s t : σ} {as : List α}
    (hP : ∀ a ∈ as, P a) (hrun : M.run s as = some t) : as.length + μ t ≤ μ s := by
  induction as generalizing s with
  | nil =>
    simp only [run_nil, Option.some.injEq] at hrun
    simp [hrun]
  | cons a as ih =>
    obtain ⟨s', hstep, hrest⟩ := M.run_cons.mp hrun
    rw [List.forall_mem_cons] at hP
    have hfirst := h s a s' hP.1 hstep
    have hlater := ih hP.2 hrest
    simp only [List.length_cons]
    omega

/-! ## States within reach -/

/-- Some run from `s` ends in a state with `Q`. -/
def CanReach (s : σ) (Q : σ → Prop) : Prop := ∃ as t, M.run s as = some t ∧ Q t

theorem CanReach.here {s : σ} {Q : σ → Prop} (h : Q s) : M.CanReach s Q := ⟨[], s, rfl, h⟩

theorem CanReach.step {s s' : σ} {a : α} {Q : σ → Prop} (hstep : M.step s a = some s')
    (h : M.CanReach s' Q) : M.CanReach s Q := by
  obtain ⟨as, t, hrun, hQ⟩ := h
  exact ⟨a :: as, t, M.run_cons.mpr ⟨s', hstep, hrun⟩, hQ⟩

theorem CanReach.trans {s : σ} {P Q : σ → Prop} (h : M.CanReach s P)
    (hPQ : ∀ t, P t → M.CanReach t Q) : M.CanReach s Q := by
  obtain ⟨as, t, hrun, hP⟩ := h
  obtain ⟨bs, u, hrest, hQ⟩ := hPQ t hP
  exact ⟨as ++ bs, u, M.run_append.mpr ⟨t, hrun, hrest⟩, hQ⟩

/-- `Q` is within reach where a move that shortens the way is left as long as it does not
    hold. -/
theorem CanReach.of_measure {J : Nat → σ → Prop} {Q : σ → Prop}
    (h : ∀ n s, J n s → Q s ∨ ∃ a s' m, M.step s a = some s' ∧ m < n ∧ J m s') {n : Nat} {s : σ}
    (hs : J n s) : M.CanReach s Q := by
  induction n using Nat.strongRecOn generalizing s with
  | ind n ih =>
    rcases h n s hs with hQ | ⟨a, s', m, hstep, hlt, hs'⟩
    · exact .here M hQ
    · exact .step M hstep (ih m hlt hs')

/-- The machine that takes no actions but those of `P`. -/
def only (P : α → Bool) : Machine σ α where
  init := M.init
  step := fun s a => if P a then M.step s a else none

theorem only_step {P : α → Bool} {s t : σ} {a : α} :
    (M.only P).step s a = some t ↔ P a = true ∧ M.step s a = some t := by
  simp [only]

/-! ## Conditions on the steps of a run

`Meets C s as` says that every action of the run is taken in a state where `C`
allows it. The states of the run are `visits s as`. The rules below compare a
condition on the steps with a property of the states. -/

/-- The states a run goes through, the first one included. -/
def visits : σ → List α → List σ
  | s, [] => [s]
  | s, a :: as => s :: ((M.step s a).elim [] fun s' => visits s' as)

/-- Every action of the run is taken where `C` allows it. -/
def Meets (C : σ → α → Prop) : σ → List α → Prop
  | _, [] => True
  | s, a :: as => C s a ∧ (M.step s a).elim True fun s' => Meets C s' as

theorem meets_cons {C : σ → α → Prop} {s : σ} {a : α} {as : List α} :
    M.Meets C s (a :: as) ↔ C s a ∧ ∀ s', M.step s a = some s' → M.Meets C s' as := by
  rw [Meets]
  cases M.step s a <;> simp

instance decidableMeets (C : σ → α → Prop) [∀ s a, Decidable (C s a)] :
    ∀ s as, Decidable (M.Meets C s as)
  | _, [] => .isTrue trivial
  | s, a :: as =>
    have : Decidable ((M.step s a).elim True fun s' => M.Meets C s' as) :=
      match M.step s a with
      | none => .isTrue trivial
      | some s' => decidableMeets C s' as
    inferInstanceAs (Decidable (C s a ∧ _))

theorem meets_true (s : σ) (as : List α) : M.Meets (fun _ _ => True) s as := by
  induction as generalizing s with
  | nil => trivial
  | cons a as ih => exact M.meets_cons.mpr ⟨trivial, fun s' _ => ih s'⟩

theorem mem_visits_self (s : σ) (as : List α) : s ∈ M.visits s as := by
  cases as <;> simp [visits]

/-- A run visits the state it ends in. -/
theorem mem_visits_of_run {s t : σ} {as : List α} (h : M.run s as = some t) :
    t ∈ M.visits s as := by
  induction as generalizing s with
  | nil =>
    simp only [run_nil, Option.some.injEq] at h
    simp [visits, h]
  | cons a as ih =>
    obtain ⟨s', hstep, hrest⟩ := M.run_cons.mp h
    simp [visits, hstep, ih hrest]

theorem meets_of_forall {C : α → Prop} {s : σ} {as : List α} (h : ∀ a ∈ as, C a) :
    M.Meets (fun _ a => C a) s as := by
  induction as generalizing s with
  | nil => trivial
  | cons a as ih =>
    rw [List.forall_mem_cons] at h
    exact M.meets_cons.mpr ⟨h.1, fun s' _ => ih h.2⟩

/-- Every step leads to a state that the run visits. -/
theorem meets_of_visits {P : σ → Prop} {s : σ} {as : List α} (h : ∀ t ∈ M.visits s as, P t) :
    M.Meets (fun s a => ∀ s', M.step s a = some s' → P s') s as := by
  induction as generalizing s with
  | nil => trivial
  | cons a as ih =>
    have hrest : ∀ s', M.step s a = some s' → ∀ t ∈ M.visits s' as, P t := fun s' hstep t ht =>
      h t (by simp [visits, hstep, ht])
    exact M.meets_cons.mpr ⟨fun s' hstep => hrest s' hstep s' (M.mem_visits_self s' as),
      fun s' hstep => ih (hrest s' hstep)⟩

theorem Meets.and {C D : σ → α → Prop} {s : σ} {as : List α} (hC : M.Meets C s as)
    (hD : M.Meets D s as) :
    M.Meets (fun s a => C s a ∧ D s a) s as := by
  induction as generalizing s with
  | nil => trivial
  | cons a as ih =>
    obtain ⟨hCa, hCas⟩ := M.meets_cons.mp hC
    obtain ⟨hDa, hDas⟩ := M.meets_cons.mp hD
    exact M.meets_cons.mpr ⟨⟨hCa, hDa⟩, fun s' hstep => ih (hCas s' hstep) (hDas s' hstep)⟩

/-- Along a run that keeps `J`, what follows from `J` and `C` at a step is met with `C`. -/
theorem Meets.imp {C D : σ → α → Prop} {J : σ → Prop}
    (hstep : ∀ s a s', J s → C s a → M.step s a = some s' → J s')
    (himp : ∀ s a, J s → C s a → D s a)
    {s : σ} {as : List α} (hs : J s) (hC : M.Meets C s as) : M.Meets D s as := by
  induction as generalizing s with
  | nil => trivial
  | cons a as ih =>
    obtain ⟨hCa, hCas⟩ := M.meets_cons.mp hC
    exact M.meets_cons.mpr
      ⟨himp s a hs hCa, fun s' hs' => ih (hstep s a s' hs hCa hs') (hCas s' hs')⟩

/-- Conditions that agree on enabled actions are met by the same runs. -/
theorem meets_congr {C D : σ → α → Prop} (h : ∀ s a s', M.step s a = some s' → (C s a ↔ D s a))
    {s t : σ} {as : List α} (hrun : M.run s as = some t) : M.Meets C s as ↔ M.Meets D s as := by
  induction as generalizing s with
  | nil => exact Iff.rfl
  | cons a as ih =>
    obtain ⟨s', hstep, hrest⟩ := M.run_cons.mp hrun
    have htail : (∀ s₁, M.step s a = some s₁ → M.Meets C s₁ as) ↔
        ∀ s₁, M.step s a = some s₁ → M.Meets D s₁ as := by
      simp only [hstep, Option.some.injEq, forall_eq']
      exact ih hrest
    rw [M.meets_cons, M.meets_cons, h s a s' hstep, htail]

/-- A run that meets `C` keeps what every step allowed by `C` keeps. -/
theorem Meets.visits {C : σ → α → Prop} {J : σ → Prop}
    (hstep : ∀ s a s', J s → C s a → M.step s a = some s' → J s')
    {s : σ} {as : List α} (hs : J s) (hC : M.Meets C s as) : ∀ t ∈ M.visits s as, J t := by
  induction as generalizing s with
  | nil => simpa [Machine.visits] using hs
  | cons a as ih =>
    obtain ⟨hsa, hrest⟩ := M.meets_cons.mp hC
    intro t ht
    simp only [Machine.visits, List.mem_cons] at ht
    rcases ht with rfl | ht
    · exact hs
    · cases hs' : M.step s a with
      | none => simp [hs'] at ht
      | some s' =>
        simp only [hs', Option.elim_some] at ht
        exact ih (hstep s a s' hs hsa hs') (hrest s' hs') t ht

/-- The condition `C` is exactly what keeps `I` along the runs whose steps meet
    `A`: `J` is the inductive strengthening of `I`, and a step that violates `C`
    ends in a state without `I`. -/
theorem forall_visits_iff_meets {A C : σ → α → Prop} {I J : σ → Prop}
    (hJI : ∀ s, J s → I s)
    (hkeep : ∀ s a s', J s → A s a → C s a → M.step s a = some s' → J s')
    (hbreak : ∀ s a s', J s → A s a → ¬ C s a → M.step s a = some s' → ¬ I s')
    {s t : σ} {as : List α} (hs : J s) (hrun : M.run s as = some t) (hA : M.Meets A s as) :
    (∀ u ∈ M.visits s as, I u) ↔ M.Meets C s as := by
  induction as generalizing s with
  | nil => simpa [Machine.visits, Meets] using hJI s hs
  | cons a as ih =>
    obtain ⟨s', hstep, hrest⟩ := M.run_cons.mp hrun
    obtain ⟨hAsa, hAs⟩ := M.meets_cons.mp hA
    have hA' : M.Meets A s' as := hAs s' hstep
    rw [M.meets_cons]
    constructor
    · intro hI
      have hI' : ∀ u ∈ M.visits s' as, I u := by
        intro u hu
        exact hI u (by simp [Machine.visits, hstep, hu])
      have hC : C s a := by
        by_contra hnot
        exact hbreak s a s' hs hAsa hnot hstep (hI' s' (M.mem_visits_self s' as))
      refine ⟨hC, fun s₁ hs₁ => ?_⟩
      obtain rfl : s' = s₁ := Option.some.inj (hstep.symm.trans hs₁)
      exact (ih (hkeep s a s' hs hAsa hC hstep) hrest hA').mp hI'
    · intro hC u hu
      have hs' : J s' := hkeep s a s' hs hAsa hC.1 hstep
      simp only [Machine.visits, hstep, Option.elim_some, List.mem_cons] at hu
      rcases hu with rfl | hu
      · exact hJI u hs
      · exact (ih hs' hrest hA').mpr (hC.2 s' hstep) u hu

end Machine
