-- SUMMARY: Programs as trees of atomic accesses to a shared state, the machine that interleaves any number of them, and the rules for what they return and preserve.
import XyzenRelay.Lib.Machine
import Mathlib.Logic.Function.Basic

/-!
# Interleaved programs

A program either is done or makes an access and continues with the answer. An access
is atomic, and between two of them the other programs may do anything. So a fact
about a program has to be stable under what the others do, which is what the relation
`G` of the rules below stands for.
-/

/-- A program over accesses `Op` answered in `Ans`. -/
inductive Program {Op : Type} (Ans : Op → Type) (α : Type) where
  | done (a : α)
  | call (op : Op) (next : Ans op → Program Ans α)

namespace Program

variable {Op : Type} {Ans : Op → Type} {α β σ ε : Type}

protected def bind : Program Ans α → (α → Program Ans β) → Program Ans β
  | .done a, f => f a
  | .call op next, f => .call op fun r => (next r).bind f

instance : Monad (Program Ans) where
  pure := .done
  bind := Program.bind

@[simp] theorem pure_eq (a : α) : (pure a : Program Ans α) = .done a := rfl

@[simp] theorem done_bind (a : α) (f : α → Program Ans β) :
    (Program.done a : Program Ans α) >>= f = f a := rfl

@[simp] theorem call_bind (op : Op) (next : Ans op → Program Ans α) (f : α → Program Ans β) :
    Program.call op next >>= f = .call op fun r => next r >>= f := rfl

/-- One access, answering with its result. -/
def access (op : Op) : Program Ans (Ans op) := .call op .done

@[simp] theorem access_bind (op : Op) (f : Ans op → Program Ans β) :
    access op >>= f = .call op f := rfl

/-- Run the program alone, the environment giving its inputs in order. -/
def eval (exec : ε → σ → (op : Op) → Ans op × σ) : Program Ans α → (Nat → ε) → σ → α × σ
  | .done a, _, s => (a, s)
  | .call op next, es, s =>
    (next (exec (es 0) s op).1).eval exec (fun n => es (n + 1)) (exec (es 0) s op).2

/-! ## Length -/

/-- Whatever the answers are, the program is done after `n` accesses. -/
def Within : Nat → Program Ans α → Prop
  | _, .done _ => True
  | 0, .call _ _ => False
  | n + 1, .call _ next => ∀ r, (next r).Within n

@[simp] theorem within_done (n : Nat) (a : α) : (Program.done a : Program Ans α).Within n := by
  cases n <;> trivial

@[simp] theorem within_call {n : Nat} {op : Op} {next : Ans op → Program Ans α} :
    (Program.call op next).Within (n + 1) ↔ ∀ r, (next r).Within n := Iff.rfl

theorem Within.mono {m n : Nat} {p : Program Ans α} (h : p.Within m) (hmn : m ≤ n) :
    p.Within n := by
  induction p generalizing m n with
  | done a => simp
  | call op next ih =>
    cases m with
    | zero => exact h.elim
    | succ m =>
      obtain ⟨k, rfl⟩ : ∃ k, n = k + 1 := ⟨n - 1, by omega⟩
      exact fun r => ih r (h r) (by omega)

theorem Within.bind {m n : Nat} {p : Program Ans α} {f : α → Program Ans β} (hp : p.Within m)
    (hf : ∀ a, (f a).Within n) : (p >>= f).Within (m + n) := by
  induction p generalizing m with
  | done a => exact (hf a).mono (Nat.le_add_left n m)
  | call op next ih =>
    cases m with
    | zero => exact hp.elim
    | succ m =>
      rw [Nat.succ_add]
      exact fun r => ih r (hp r)

/-! ## What the accesses of a program look like -/

/-- Every access the program can come to, with what follows it, has the property. -/
def Calls (P : (op : Op) → (Ans op → Program Ans α) → Prop) : Program Ans α → Prop
  | .done _ => True
  | .call op next => P op next ∧ ∀ r, (next r).Calls P

@[simp] theorem calls_done (P : (op : Op) → (Ans op → Program Ans α) → Prop) (a : α) :
    (Program.done a).Calls P := trivial

@[simp] theorem calls_call {P : (op : Op) → (Ans op → Program Ans α) → Prop} {op : Op}
    {next : Ans op → Program Ans α} :
    (Program.call op next).Calls P ↔ P op next ∧ ∀ r, (next r).Calls P := Iff.rfl

theorem Calls.imp {P P' : (op : Op) → (Ans op → Program Ans α) → Prop} {p : Program Ans α}
    (hPP' : ∀ op next, P op next → P' op next) (h : p.Calls P) : p.Calls P' := by
  induction p with
  | done a => trivial
  | call op next ih => exact ⟨hPP' op next h.1, fun r => ih r (h.2 r)⟩

theorem Calls.bind {P : (op : Op) → (Ans op → Program Ans β) → Prop} {p : Program Ans α}
    {f : α → Program Ans β}
    (hp : p.Calls fun op next => P op fun r => next r >>= f) (hf : ∀ a, (f a).Calls P) :
    (p >>= f).Calls P := by
  induction p with
  | done a => exact hf a
  | call op next ih => exact ⟨hp.1, fun r => ih r (hp.2 r)⟩

/-! ## What a program ensures among others -/

section Ensures

variable (exec : ε → σ → (op : Op) → Ans op × σ) (G : σ → σ → Prop) (A : ε → σ → Op → Prop)

/-- From `s`, while the others change the state by `G` only, every access keeps to `G`
    and the program returns with `Q`. The environment answers the accesses as `A` allows. -/
def Ensures (Q : α → σ → Prop) : Program Ans α → σ → Prop
  | .done a, s => Q a s
  | .call op next, s => ∀ s', G s s' → ∀ e, A e s' op →
      G s' (exec e s' op).2 ∧ (next (exec e s' op).1).Ensures Q (exec e s' op).2

variable {exec G A} {Q R : α → σ → Prop} {p : Program Ans α} {s s' : σ}

@[simp] theorem ensures_done (a : α) :
    (Program.done a : Program Ans α).Ensures exec G A Q s ↔ Q a s := Iff.rfl

/-- What a program ensures is stable if its postcondition is. -/
theorem Ensures.stable (htrans : ∀ s t u, G s t → G t u → G s u)
    (hQ : ∀ a s t, G s t → Q a s → Q a t)
    (h : p.Ensures exec G A Q s) (hs : G s s') : p.Ensures exec G A Q s' := by
  cases p with
  | done a => exact hQ a s s' hs h
  | call op next => exact fun t ht => h t (htrans s s' t hs ht)

theorem Ensures.mono (hQR : ∀ a s, Q a s → R a s) (h : p.Ensures exec G A Q s) :
    p.Ensures exec G A R s := by
  induction p generalizing s with
  | done a => exact hQR a s h
  | call op next ih =>
    intro s' hs' e he
    obtain ⟨hG, hnext⟩ := h s' hs' e he
    exact ⟨hG, ih _ hnext⟩

theorem Ensures.bind {Q' : β → σ → Prop} {f : α → Program Ans β} (h : p.Ensures exec G A Q s)
    (hf : ∀ a s, Q a s → (f a).Ensures exec G A Q' s) : (p >>= f).Ensures exec G A Q' s := by
  induction p generalizing s with
  | done a => exact hf a s h
  | call op next ih =>
    intro s' hs' e he
    obtain ⟨hG, hnext⟩ := h s' hs' e he
    exact ⟨hG, ih _ hnext⟩

end Ensures

/-! ## Tasks -/

/-- A request with what is left of the program that serves it. -/
structure Task (ρ : Type) (Ans : Op → Type) (α : Type) where
  request : ρ
  program : Program Ans α

/-- A shared state and the tasks that work on it. -/
structure Pool (σ ρ : Type) (Ans : Op → Type) (α : Type) where
  shared : σ
  tasks : Nat → Option (Task ρ Ans α)

inductive PoolAction (ρ ε : Type) where
  | accept (i : Nat) (request : ρ)
  /-- The task makes its next access. -/
  | run (i : Nat) (input : ε)

variable {ρ : Type} (exec : ε → σ → (op : Op) → Ans op × σ) (handler : ρ → Program Ans α)

def stepPool (x : Pool σ ρ Ans α) : PoolAction ρ ε → Option (Pool σ ρ Ans α)
  | .accept i r =>
    match x.tasks i with
    | some _ => none
    | none => some { x with tasks := Function.update x.tasks i (some ⟨r, handler r⟩) }
  | .run i e =>
    match x.tasks i with
    | some ⟨r, .call op next⟩ =>
      some { shared := (exec e x.shared op).2
             tasks := Function.update x.tasks i (some ⟨r, next (exec e x.shared op).1⟩) }
    | _ => none

/-- Any number of tasks, interleaved access by access. -/
def pool (init : σ) : Machine (Pool σ ρ Ans α) (PoolAction ρ ε) where
  init := { shared := init, tasks := fun _ => none }
  step := stepPool exec handler

variable {exec handler} {x y : Pool σ ρ Ans α} {a : PoolAction ρ ε}

/-- The two steps of a pool. -/
inductive PoolEffect (exec : ε → σ → (op : Op) → Ans op × σ) (handler : ρ → Program Ans α)
    (x : Pool σ ρ Ans α) :
    PoolAction ρ ε → Pool σ ρ Ans α → Prop where
  | accept {i : Nat} {r : ρ} (hi : x.tasks i = none) :
    PoolEffect exec handler x (.accept i r)
      { x with tasks := Function.update x.tasks i (some ⟨r, handler r⟩) }
  | run {i : Nat} {e : ε} {r : ρ} {op : Op} {next : Ans op → Program Ans α}
    (hi : x.tasks i = some ⟨r, .call op next⟩) :
    PoolEffect exec handler x (.run i e)
      { shared := (exec e x.shared op).2
        tasks := Function.update x.tasks i (some ⟨r, next (exec e x.shared op).1⟩) }

theorem effect_of_stepPool (h : stepPool exec handler x a = some y) :
    PoolEffect exec handler x a y := by
  cases a with
  | accept i r =>
    simp only [stepPool] at h
    split at h
    · simp at h
    · next hi =>
      simp only [Option.some.injEq] at h
      subst h
      exact .accept hi
  | run i e =>
    simp only [stepPool] at h
    split at h
    · next r op next hi =>
      simp only [Option.some.injEq] at h
      subst h
      exact .run hi
    · simp at h

theorem task_of_update {tasks : Nat → Option (Task ρ Ans α)} {i j : Nat} {new t : Task ρ Ans α}
    (h : Function.update tasks i (some new) j = some t) :
    (j = i ∧ t = new) ∨ (j ≠ i ∧ tasks j = some t) := by
  by_cases hj : j = i
  · rw [hj, Function.update_self, Option.some.injEq] at h
    exact .inl ⟨hj, h.symm⟩
  · rw [Function.update_of_ne hj] at h
    exact .inr ⟨hj, h⟩

/-- A property of every task, with its request. -/
def Pool.Each (P : ρ → Program Ans α → Prop) (x : Pool σ ρ Ans α) : Prop :=
  ∀ i t, x.tasks i = some t → P t.request t.program

/-- What handlers begin with and accesses keep holds of every task. -/
theorem each_step {P : ρ → Program Ans α → Prop} (hstart : ∀ r, P r (handler r))
    (hnext : ∀ r op next, P r (.call op next) → ∀ ans, P r (next ans)) (hx : x.Each P)
    (h : PoolEffect exec handler x a y) : y.Each P := by
  intro j t ht
  cases h with
  | @accept i r hi =>
    rcases task_of_update ht with ⟨-, rfl⟩ | ⟨-, ht⟩
    · exact hstart r
    · exact hx j t ht
  | @run i e r op next hi =>
    rcases task_of_update ht with ⟨-, rfl⟩ | ⟨-, ht⟩
    · exact hnext r op next (hx i _ hi) _
    · exact hx j t ht

section Ensures

variable (exec) (G : σ → σ → Prop) (A : ρ → ε → σ → Op → Prop) (Q : ρ → α → σ → Prop)

/-- Every task ensures its postcondition. -/
def Pool.Ensures (x : Pool σ ρ Ans α) : Prop :=
  ∀ i t, x.tasks i = some t → t.program.Ensures exec G (A t.request) (Q t.request) x.shared

/-- The environment answers the access as `A` allows. -/
def Pool.Allows (x : Pool σ ρ Ans α) : PoolAction ρ ε → Prop
  | .accept _ _ => True
  | .run i e => ∀ r op next, x.tasks i = some ⟨r, .call op next⟩ → A r e x.shared op

variable {exec G A Q}

theorem ensures_step (hrefl : ∀ s, G s s) (htrans : ∀ s t u, G s t → G t u → G s u)
    (hQ : ∀ r a s t, G s t → Q r a s → Q r a t)
    (hspec : ∀ r s, (handler r).Ensures exec G (A r) (Q r) s) (hx : x.Ensures exec G A Q)
    (ha : x.Allows A a)
    (h : PoolEffect exec handler x a y) : y.Ensures exec G A Q ∧ G x.shared y.shared := by
  cases h with
  | @accept i r hi =>
    refine ⟨fun j t ht => ?_, hrefl _⟩
    rcases task_of_update ht with ⟨-, rfl⟩ | ⟨-, ht⟩
    · exact hspec r x.shared
    · exact hx j t ht
  | @run i e r op next hi =>
    obtain ⟨hG, hnext⟩ := hx i _ hi x.shared (hrefl _) e (ha r op next hi)
    refine ⟨fun j t ht => ?_, hG⟩
    rcases task_of_update ht with ⟨-, rfl⟩ | ⟨-, ht⟩
    · exact hnext
    · exact (hx j t ht).stable htrans (hQ t.request) hG

/-- The tasks in `N` ensure their postconditions, whatever the environment answers. -/
def Pool.EnsuresOn (exec : ε → σ → (op : Op) → Ans op × σ) (G : σ → σ → Prop)
    (Q : ρ → α → σ → Prop) (N : Nat → Prop) (x : Pool σ ρ Ans α) : Prop :=
  ∀ i t, N i → x.tasks i = some t →
    t.program.Ensures exec G (fun _ _ _ => True) (Q t.request) x.shared

variable {N : Nat → Prop} {init : σ} {as : List (PoolAction ρ ε)}

/-- Where every access keeps to `G`, the tasks outside `N` do not disturb those in `N`. -/
theorem ensuresOn_step (hrefl : ∀ s, G s s) (htrans : ∀ s t u, G s t → G t u → G s u)
    (hexec : ∀ e s op, G s (exec e s op).2)
    (hQ : ∀ r a s t, G s t → Q r a s → Q r a t)
    (hspec : ∀ r s, G x.shared s → (handler r).Ensures exec G (fun _ _ _ => True) (Q r) s)
    (hx : x.EnsuresOn exec G Q N) (h : PoolEffect exec handler x a y) :
    y.EnsuresOn exec G Q N ∧ G x.shared y.shared := by
  cases h with
  | @accept i r hi =>
    refine ⟨fun j t hj ht => ?_, hrefl _⟩
    rcases task_of_update ht with ⟨-, rfl⟩ | ⟨-, ht⟩
    · exact hspec r x.shared (hrefl _)
    · exact hx j t hj ht
  | @run i e r op next hi =>
    refine ⟨fun j t hj ht => ?_, hexec e x.shared op⟩
    rcases task_of_update ht with ⟨rfl, rfl⟩ | ⟨-, ht⟩
    · exact (hx j _ hj hi x.shared (hrefl _) e trivial).2
    · exact (hx j t hj ht).stable htrans (hQ t.request) (hexec e x.shared op)

/-- Along a run the tasks in `N` go on ensuring their postconditions. -/
theorem ensuresOn_run (hrefl : ∀ s, G s s) (htrans : ∀ s t u, G s t → G t u → G s u)
    (hexec : ∀ e s op, G s (exec e s op).2)
    (hQ : ∀ r a s t, G s t → Q r a s → Q r a t)
    (hspec : ∀ r s, G x.shared s → (handler r).Ensures exec G (fun _ _ _ => True) (Q r) s)
    (hx : x.EnsuresOn exec G Q N) (hrun : (pool exec handler init).run x as = some y) :
    y.EnsuresOn exec G Q N ∧ G x.shared y.shared := by
  induction as generalizing x with
  | nil =>
    simp only [Machine.run_nil, Option.some.injEq] at hrun
    exact hrun ▸ ⟨hx, hrefl _⟩
  | cons a as ih =>
    obtain ⟨x', hstep, hrest⟩ := (pool exec handler init).run_cons.mp hrun
    obtain ⟨hx', hG⟩ := ensuresOn_step hrefl htrans hexec hQ hspec hx (effect_of_stepPool hstep)
    obtain ⟨hy, hG'⟩ := ih (fun r s hs => hspec r s (htrans _ _ _ hG hs)) hx' hrest
    exact ⟨hy, htrans _ _ _ hG hG'⟩

end Ensures

/-! ## What holds at the accesses of a program among others -/

section Obeys

variable (exec : ε → σ → (op : Op) → Ans op × σ) (G : σ → σ → Prop)

/-- From `s`, while the others change the state by `G` only, the program makes an access
    only where `P` holds of it, of what follows and of the state. -/
def Obeys (P : (op : Op) → (Ans op → Program Ans α) → σ → Prop) : Program Ans α → σ → Prop
  | .done _, _ => True
  | .call op next, s => ∀ s', G s s' → P op next s' ∧
      ∀ e, (next (exec e s' op).1).Obeys P (exec e s' op).2

variable {exec G} {P : (op : Op) → (Ans op → Program Ans α) → σ → Prop} {p : Program Ans α}
  {s s' : σ}

theorem Obeys.stable (htrans : ∀ s t u, G s t → G t u → G s u) (h : p.Obeys exec G P s)
    (hs : G s s') : p.Obeys exec G P s' := by
  cases p with
  | done a => trivial
  | call op next => exact fun t ht => h t (htrans s s' t hs ht)

/-- What is true of the accesses themselves holds wherever they are made. -/
theorem Calls.obeys (h : p.Calls fun op next => ∀ s, P op next s) (s : σ) :
    p.Obeys exec G P s := by
  induction p generalizing s with
  | done a => trivial
  | call op next ih => exact fun s' _ => ⟨h.1 s', fun e => ih _ (h.2 _) _⟩

theorem Calls.bind_obeys {P : (op : Op) → (Ans op → Program Ans β) → σ → Prop}
    {f : α → Program Ans β} (hp : p.Calls fun op next => ∀ s, P op (fun r => next r >>= f) s)
    (hf : ∀ a s, (f a).Obeys exec G P s) (s : σ) : (p >>= f).Obeys exec G P s := by
  induction p generalizing s with
  | done a => exact hf a s
  | call op next ih => exact fun s' _ => ⟨hp.1 s', fun e => ih _ (hp.2 _) _⟩

end Obeys

/-! ## What a program can return -/

/-- Whatever the answers are, the program returns a result with `P`. -/
def Returns (P : α → Prop) : Program Ans α → Prop
  | .done a => P a
  | .call _ next => ∀ r, (next r).Returns P

theorem returns_true (p : Program Ans α) : p.Returns fun _ => True := by
  induction p with
  | done a => trivial
  | call op next ih => exact ih

theorem Returns.bind {P : α → Prop} {P' : β → Prop} {p : Program Ans α} {f : α → Program Ans β}
    (hp : p.Returns P) (hf : ∀ a, P a → (f a).Returns P') : (p >>= f).Returns P' := by
  induction p with
  | done a => exact hf a hp
  | call op next ih => exact fun r => ih r (hp r)

/-- Among accesses that all keep to `G`, a program ensures what it can only return. -/
theorem Returns.ensures {exec : ε → σ → (op : Op) → Ans op × σ} {G : σ → σ → Prop}
    {A : ε → σ → Op → Prop} {P : α → Prop} {Q : α → σ → Prop} {p : Program Ans α}
    (hp : p.Returns P) (hexec : ∀ e s op, G s (exec e s op).2) (hPQ : ∀ a s, P a → Q a s) (s : σ) :
    p.Ensures exec G A Q s := by
  induction p generalizing s with
  | done a => exact hPQ a s hp
  | call op next ih => exact fun s' _ e _ => ⟨hexec e s' op, ih _ (hp _) _⟩

end Program
