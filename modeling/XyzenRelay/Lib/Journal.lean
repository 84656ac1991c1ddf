-- SUMMARY: Journals: what the steps of a run report, and the rules that relate a journal to the states of the run.
import XyzenRelay.Lib.Machine
import Mathlib.Data.List.Induction

/-!
# Journals

A report `f s a` says what the action `a` does when it is taken in `s`, if that is
of interest. The journal of a run lists the reports in order, so a statement that
counts the events of a run is one about its journal.
-/

namespace Machine

variable {σ α β : Type} (M : Machine σ α) (f : σ → α → Option β)

/-- The reports along the run. -/
def journal : σ → List α → List β
  | _, [] => []
  | s, a :: as => (f s a).toList ++ (M.step s a).elim [] fun s' => journal s' as

@[simp] theorem journal_nil (s : σ) : M.journal f s [] = [] := rfl

theorem journal_cons {s s' : σ} {a : α} (h : M.step s a = some s') (as : List α) :
    M.journal f s (a :: as) = (f s a).toList ++ M.journal f s' as := by
  rw [journal, h]
  rfl

theorem journal_append {s s' : σ} {as : List α} (h : M.run s as = some s') (bs : List α) :
    M.journal f s (as ++ bs) = M.journal f s as ++ M.journal f s' bs := by
  induction as generalizing s with
  | nil =>
    simp only [run_nil, Option.some.injEq] at h
    subst h
    rfl
  | cons a as ih =>
    obtain ⟨s₁, hstep, hrest⟩ := M.run_cons.mp h
    rw [List.cons_append, M.journal_cons f hstep, M.journal_cons f hstep, ih hrest,
      List.append_assoc]

/-- The last step adds its report. -/
theorem journal_concat {s u v : σ} {as : List α} {a : α} (h : M.run s as = some u)
    (hstep : M.step u a = some v) :
    M.journal f s (as ++ [a]) = M.journal f s as ++ (f u a).toList := by
  rw [M.journal_append f h, M.journal_cons f hstep, journal_nil, List.append_nil]

/-- A step in the middle of a run reports in the middle of the journal. -/
theorem journal_middle {s u t : σ} {bs cs : List α} {a : α} {e : β}
    (hrun : M.run s (bs ++ a :: cs) = some t)
    (hu : M.run s bs = some u) (he : f u a = some e) :
    ∃ v, M.step u a = some v ∧
      M.journal f s (bs ++ a :: cs) = M.journal f s bs ++ e :: M.journal f v cs := by
  obtain ⟨u', hu', hrest⟩ := M.run_append.mp hrun
  obtain rfl := Option.some.inj (hu.symm.trans hu')
  obtain ⟨v, hstep, -⟩ := M.run_cons.mp hrest
  refine ⟨v, hstep, ?_⟩
  rw [M.journal_append f hu, M.journal_cons f hstep, he]
  rfl

/-- An entry of the journal was reported by one step of the run. -/
theorem journal_split {s t : σ} {as : List α} {L K : List β} {e : β} (hrun : M.run s as = some t)
    (h : M.journal f s as = L ++ e :: K) :
    ∃ bs a cs u v, as = bs ++ a :: cs ∧ M.run s bs = some u ∧ M.journal f s bs = L ∧
      f u a = some e ∧
      M.step u a = some v ∧ M.run v cs = some t ∧ M.journal f v cs = K := by
  induction as generalizing s L with
  | nil => simp at h
  | cons a as ih =>
    obtain ⟨s', hstep, hrest⟩ := M.run_cons.mp hrun
    rw [M.journal_cons f hstep] at h
    -- the entry is found in the rest of the run
    have hlater : ∀ L', M.journal f s' as = L' ++ e :: K → L = (f s a).toList ++ L' →
        ∃ bs a' cs u v, a :: as = bs ++ a' :: cs ∧ M.run s bs = some u ∧ M.journal f s bs = L ∧
          f u a' = some e ∧ M.step u a' = some v ∧ M.run v cs = some t ∧ M.journal f v cs = K := by
      rintro L' hL' rfl
      obtain ⟨bs, b, cs, u, v, rfl, hu, hbs, hb, hv, hcs, hK⟩ := ih hrest hL'
      have hbs' : M.journal f s (a :: bs) = (f s a).toList ++ L' := by
        rw [M.journal_cons f hstep, hbs]
      exact ⟨a :: bs, b, cs, u, v, rfl, M.run_cons.mpr ⟨s', hstep, hu⟩, hbs', hb, hv, hcs, hK⟩
    cases hf : f s a with
    | none =>
      rw [hf] at h hlater
      exact hlater L h rfl
    | some b =>
      rw [hf] at h hlater
      cases L with
      | nil =>
        obtain ⟨rfl, hK⟩ := List.cons.inj h
        exact ⟨[], a, as, s, s', rfl, rfl, rfl, hf, hstep, hrest, hK⟩
      | cons x L =>
        obtain ⟨rfl, hL⟩ := List.cons.inj h
        exact hlater L hL rfl

/-! ## Conditions on the steps, prefix by prefix -/

theorem meets_append {C : σ → α → Prop} {s u : σ} {as : List α} (h : M.run s as = some u)
    (bs : List α) :
    M.Meets C s (as ++ bs) ↔ M.Meets C s as ∧ M.Meets C u bs := by
  induction as generalizing s with
  | nil =>
    simp only [run_nil, Option.some.injEq] at h
    subst h
    exact ⟨fun hC => ⟨trivial, hC⟩, fun hC => hC.2⟩
  | cons b as ih =>
    obtain ⟨s', hstep, hrest⟩ := M.run_cons.mp h
    have hnext : ∀ {D : σ → Prop}, (∀ s₁, M.step s b = some s₁ → D s₁) ↔ D s' := by
      intro D
      simp [hstep]
    rw [List.cons_append, M.meets_cons, M.meets_cons, hnext, hnext, ih hrest, and_assoc]

theorem meets_concat {C : σ → α → Prop} {s u : σ} {as : List α} {a : α} (h : M.run s as = some u) :
    M.Meets C s (as ++ [a]) ↔ M.Meets C s as ∧ C u a := by
  have hlast : M.Meets C u [a] ↔ C u a := by
    rw [M.meets_cons]
    exact ⟨fun hC => hC.1, fun hC => ⟨hC, fun _ _ => trivial⟩⟩
  rw [M.meets_append h, hlast]

/-- A run that meets `C` preserves what every step allowed by `C` does. -/
theorem Meets.journal {C : σ → α → Prop} {J : List β → σ → Prop}
    (hkeep : ∀ L s a s', J L s → C s a → M.step s a = some s' → J (L ++ (f s a).toList) s')
    {L : List β} {s t : σ} {as : List α} (hs : J L s) (hC : M.Meets C s as)
    (hrun : M.run s as = some t) :
    J (L ++ M.journal f s as) t := by
  induction as generalizing L s with
  | nil =>
    simp only [run_nil, Option.some.injEq] at hrun
    subst hrun
    simpa using hs
  | cons a as ih =>
    obtain ⟨s', hstep, hrest⟩ := M.run_cons.mp hrun
    obtain ⟨hsa, hafter⟩ := M.meets_cons.mp hC
    rw [M.journal_cons f hstep, ← List.append_assoc]
    exact ih (hkeep L s a s' hs hsa hstep) (hafter s' hstep) hrest

/-- What every step preserves, together with its report, holds at the end of the run. -/
theorem journal_invariant {J : List β → σ → Prop}
    (hkeep : ∀ L s a s', J L s → M.step s a = some s' → J (L ++ (f s a).toList) s')
    {L : List β} {s t : σ} {as : List α} (hs : J L s) (hrun : M.run s as = some t) :
    J (L ++ M.journal f s as) t :=
  Meets.journal M f (fun L s a s' hs _ => hkeep L s a s' hs) hs (M.meets_true s as) hrun

/-- The condition `C` is exactly what keeps a property of the prefixes of a run and
    the states they end in: `J` is its inductive strengthening, and a step that
    violates `C` ends without it. -/
theorem forall_prefix_iff_meets {C : σ → α → Prop} {P J : List α → σ → Prop} {s : σ}
    (hJP : ∀ bs u, J bs u → P bs u)
    (hkeep : ∀ bs u a v, M.run s bs = some u → J bs u → C u a → M.step u a = some v →
      J (bs ++ [a]) v)
    (hbreak : ∀ bs u a v, M.run s bs = some u → J bs u → ¬ C u a → M.step u a = some v →
      ¬ P (bs ++ [a]) v)
    (hs : J [] s) {t : σ} {as : List α} (hrun : M.run s as = some t) :
    (∀ bs u, bs <+: as → M.run s bs = some u → P bs u) ↔ M.Meets C s as := by
  -- the run is extended at its end, and `J` is carried along while `C` is met
  suffices h : (M.Meets C s as → J as t) ∧
      ((∀ bs u, bs <+: as → M.run s bs = some u → P bs u) ↔ M.Meets C s as) from h.2
  induction as using List.reverseRecOn generalizing t with
  | nil =>
    simp only [run_nil, Option.some.injEq] at hrun
    subst hrun
    refine ⟨fun _ => hs, fun _ => trivial, fun _ bs u hbs hu => ?_⟩
    obtain rfl := List.prefix_nil.mp hbs
    simp only [run_nil, Option.some.injEq] at hu
    exact hu ▸ hJP [] s hs
  | append_singleton as a ih =>
    obtain ⟨u, hu, hstep⟩ := M.run_concat.mp hrun
    obtain ⟨hJ, hiff⟩ := ih hu
    rw [M.meets_concat hu]
    have hlast : M.Meets C s as → C u a → J (as ++ [a]) t :=
      fun hmeets hC => hkeep as u a t hu (hJ hmeets) hC hstep
    refine ⟨fun h => hlast h.1 h.2, ?_, ?_⟩
    · intro hP
      have hmeets := hiff.mp fun bs v hbs hv => hP bs v (hbs.trans (List.prefix_append as [a])) hv
      refine ⟨hmeets, ?_⟩
      by_contra hC
      exact hbreak as u a t hu (hJ hmeets) hC hstep (hP (as ++ [a]) t (List.prefix_refl _) hrun)
    · intro h bs v hbs hv
      rcases List.prefix_concat_iff.mp hbs with rfl | hbs
      · obtain rfl := Option.some.inj (hrun.symm.trans hv)
        exact hJP _ _ (hlast h.1 h.2)
      · exact hiff.mpr h.1 bs v hbs hv

/-! ## Recording the journal

A condition on the steps that looks at the past of the run is one on the states of the
recorded machine, which carry the journal along.
-/

/-- The machine with its journal in the state. -/
def recorded : Machine (List β × σ) α where
  init := ([], M.init)
  step := fun (L, s) a => (M.step s a).map fun s' => (L ++ (f s a).toList, s')

theorem recorded_step {x y : List β × σ} {a : α} :
    (M.recorded f).step x a = some y ↔ M.step x.2 a = some y.2 ∧ y.1 = x.1 ++ (f x.2 a).toList := by
  obtain ⟨L, s⟩ := x
  obtain ⟨K, t⟩ := y
  simp only [recorded, Option.map_eq_some_iff, Prod.mk.injEq]
  constructor
  · rintro ⟨s', hstep, hL, rfl⟩
    exact ⟨hstep, hL.symm⟩
  · rintro ⟨hstep, hL⟩
    exact ⟨t, hstep, hL.symm, rfl⟩

/-- A run of the recorded machine is a run of the machine with its journal. -/
theorem recorded_run {s t : σ} {L K : List β} {as : List α} :
    (M.recorded f).run (L, s) as = some
    (K, t) ↔ M.run s as = some t ∧ K = L ++ M.journal f s as := by
  induction as generalizing s L with
  | nil =>
    simp only [run_nil, Option.some.injEq, Prod.mk.injEq, journal_nil, List.append_nil]
    exact ⟨fun h => ⟨h.2, h.1.symm⟩, fun h => ⟨h.2.symm, h.1⟩⟩
  | cons a as ih =>
    rw [run_cons, run_cons]
    constructor
    · rintro ⟨⟨L', s'⟩, hstep, hrest⟩
      obtain ⟨hs', hL'⟩ := (M.recorded_step f).mp hstep
      obtain ⟨hrun, hK⟩ := ih.mp hrest
      obtain rfl : L' = L ++ (f s a).toList := hL'
      refine ⟨⟨s', hs', hrun⟩, ?_⟩
      rw [hK, M.journal_cons f hs', List.append_assoc]
    · rintro ⟨⟨s', hs', hrun⟩, hK⟩
      refine ⟨(L ++ (f s a).toList, s'), (M.recorded_step f).mpr ⟨hs', rfl⟩, ih.mpr ⟨hrun, ?_⟩⟩
      rw [hK, M.journal_cons f hs', List.append_assoc]

end Machine
