-- SUMMARY: Tables with a primary key and a second unique column, whose rows cannot violate either constraint.
import Mathlib.Data.List.Nodup

/-!
# Tables with two unique columns

An insert that would repeat a value of either column is rejected. So the table is a
partial function from the keys to the values of the other column, and an injective
one.
-/

/-- A table of rows with a primary key and a unique column. -/
structure UniqueTable {ρ κ ι : Type} (key : ρ → κ) (unique : ρ → ι) where
  rows : List ρ
  key_nodup : (rows.map key).Nodup
  unique_nodup : (rows.map unique).Nodup

namespace UniqueTable

variable {ρ κ ι : Type} [DecidableEq κ] [DecidableEq ι] {key : ρ → κ} {unique : ρ → ι}

def empty : UniqueTable key unique := ⟨[], List.nodup_nil, List.nodup_nil⟩

/-- A row with the key, or with the value of the unique column. -/
def Conflicts (t : UniqueTable key unique) (k : κ) (u : ι) : Prop :=
  ∃ r ∈ t.rows, key r = k ∨ unique r = u

instance (t : UniqueTable key unique) (k : κ) (u : ι) : Decidable (t.Conflicts k u) :=
  inferInstanceAs (Decidable (∃ r ∈ t.rows, _))

/-- Insert a row, unless it conflicts with another. -/
def insert (t : UniqueTable key unique) (r : ρ) : Option (UniqueTable key unique) :=
  if h : t.Conflicts (key r) (unique r) then none
  else
    some
      { rows := t.rows ++ [r]
        key_nodup := by
          rw [List.map_append, List.map_singleton, List.nodup_append]
          refine ⟨t.key_nodup, List.nodup_singleton _, fun a ha b hb => ?_⟩
          obtain ⟨r', hr', rfl⟩ := List.mem_map.mp ha
          obtain rfl := List.mem_singleton.mp hb
          exact fun heq => h ⟨r', hr', .inl heq⟩
        unique_nodup := by
          rw [List.map_append, List.map_singleton, List.nodup_append]
          refine ⟨t.unique_nodup, List.nodup_singleton _, fun a ha b hb => ?_⟩
          obtain ⟨r', hr', rfl⟩ := List.mem_map.mp ha
          obtain rfl := List.mem_singleton.mp hb
          exact fun heq => h ⟨r', hr', .inr heq⟩ }

/-- The row of a key. -/
def find (t : UniqueTable key unique) (k : κ) : Option ρ := t.rows.find? fun r => key r = k

/-- The row of a value of the unique column. -/
def findUnique (t : UniqueTable key unique) (u : ι) : Option ρ := t.rows.find? fun r => unique r = u

theorem insert_eq_none {t : UniqueTable key unique} {r : ρ} :
    t.insert r = none ↔ t.Conflicts (key r) (unique r) := by
  unfold insert
  split <;> simp_all

theorem rows_of_insert {t t' : UniqueTable key unique} {r : ρ} (h : t.insert r = some t') :
    t'.rows = t.rows ++ [r] := by
  unfold insert at h
  split at h
  · simp at h
  · exact Option.some.inj h ▸ rfl

omit [DecidableEq κ] [DecidableEq ι] in
theorem eq_of_key (t : UniqueTable key unique) {r r' : ρ} (hr : r ∈ t.rows) (hr' : r' ∈ t.rows)
    (h : key r = key r') : r = r' :=
  List.inj_on_of_nodup_map t.key_nodup hr hr' h

omit [DecidableEq κ] [DecidableEq ι] in
theorem eq_of_unique (t : UniqueTable key unique) {r r' : ρ} (hr : r ∈ t.rows) (hr' : r' ∈ t.rows)
    (h : unique r = unique r') : r = r' :=
  List.inj_on_of_nodup_map t.unique_nodup hr hr' h

omit [DecidableEq ι] in
theorem mem_of_find {t : UniqueTable key unique} {k : κ} {r : ρ} (h : t.find k = some r) :
    r ∈ t.rows ∧ key r = k :=
  ⟨List.mem_of_find?_eq_some h, by simpa using List.find?_some h⟩

end UniqueTable
