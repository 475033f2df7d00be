import Mathlib.Data.List.Basic
import Mathlib.Data.List.Nodup
import Mathlib.Data.List.Sort
import Mathlib.Algebra.GroupWithZero.Nat

/-!
# Keyed tables

A relational table as a list of rows addressed by an immutable primary key.  The
uniqueness of the key is a field of the table, so no sequence of insertions and
row updates can produce two rows with one key.

Main results:

- `Table.get_mapRows`: a bulk update acts on every row on its own.
- `Table.get_modify`: an update by key changes exactly that row.
-/

universe u v

/-- Rows of type `ρ` addressed by a primary key of type `κ`. -/
structure Table (κ : Type u) (ρ : Type v) where
  rows : List (κ × ρ)
  nodupKeys : (rows.map Prod.fst).Nodup

namespace Table

variable {κ : Type u} {ρ : Type v}

/-- The table without rows. -/
def empty : Table κ ρ where
  rows := []
  nodupKeys := List.nodup_nil

/-- Bulk update: every row is rewritten by a function of its key and content. -/
def mapRows (t : Table κ ρ) (f : κ → ρ → ρ) : Table κ ρ where
  rows := t.rows.map fun e => (e.1, f e.1 e.2)
  nodupKeys := by
    have hkeys : (t.rows.map fun e => (e.1, f e.1 e.2)).map Prod.fst = t.rows.map Prod.fst := by
      simp [Function.comp_def]
    rw [hkeys]
    exact t.nodupKeys

@[simp]
theorem rows_mapRows (t : Table κ ρ) (f : κ → ρ → ρ) :
    (t.mapRows f).rows = t.rows.map fun e => (e.1, f e.1 e.2) :=
  rfl

/-- The primary keys in row order. -/
def keys (t : Table κ ρ) : List κ :=
  t.rows.map Prod.fst

@[simp]
theorem keys_mapRows (t : Table κ ρ) (f : κ → ρ → ρ) : (t.mapRows f).keys = t.keys := by
  simp [keys, Function.comp_def]

variable [DecidableEq κ]

/-- Look a row up by its primary key. -/
def get (t : Table κ ρ) (k : κ) : Option ρ :=
  t.rows.lookup k

/-- Update the row with the given key, if there is one. -/
def modify (t : Table κ ρ) (k : κ) (f : ρ → ρ) : Table κ ρ :=
  t.mapRows fun k' r => if k' = k then f r else r

@[simp]
theorem keys_modify (t : Table κ ρ) (k : κ) (f : ρ → ρ) : (t.modify k f).keys = t.keys :=
  keys_mapRows t _

theorem mem_rows_iff (t : Table κ ρ) (k : κ) (r : ρ) :
    (k, r) ∈ t.rows ↔ t.get k = some r := by
  obtain ⟨rows, hnodup⟩ := t
  simp only [get]
  induction rows with
  | nil => simp
  | cons e es ih =>
    obtain ⟨k₀, r₀⟩ := e
    simp only [List.map_cons, List.nodup_cons] at hnodup
    have hrest := ih hnodup.2
    by_cases hk : k = k₀
    · subst k₀
      have hfresh : (k, r) ∉ es := fun hmem =>
        hnodup.1 (List.mem_map_of_mem (f := Prod.fst) hmem)
      simp only [List.mem_cons, Prod.mk.injEq, true_and, hfresh, or_false,
        List.lookup_cons, beq_self_eq_true, Option.some.injEq]
      exact eq_comm
    · have hbeq : (k == k₀) = false := by simpa using hk
      simp [List.lookup_cons, hbeq, hk, hrest]

@[simp]
theorem get_empty (k : κ) : (empty : Table κ ρ).get k = none :=
  rfl

@[simp]
theorem get_mapRows (t : Table κ ρ) (f : κ → ρ → ρ) (k : κ) :
    (t.mapRows f).get k = (t.get k).map (f k) := by
  simp only [get, rows_mapRows]
  induction t.rows with
  | nil => rfl
  | cons e es ih =>
    obtain ⟨k₀, r₀⟩ := e
    by_cases hk : k = k₀
    · subst k₀
      simp
    · have hbeq : (k == k₀) = false := by simpa using hk
      simp only [List.map_cons, List.lookup_cons, hbeq]
      exact ih

/-- An update by key changes the row with that key and no other. -/
theorem get_modify (t : Table κ ρ) (k k' : κ) (f : ρ → ρ) :
    (t.modify k f).get k' = if k' = k then (t.get k').map f else t.get k' := by
  rw [modify, get_mapRows]
  split_ifs with h <;> cases t.get k' <;> simp

@[simp]
theorem get_modify_self (t : Table κ ρ) (k : κ) (f : ρ → ρ) :
    (t.modify k f).get k = (t.get k).map f := by
  simp [get_modify]

variable {k : κ}

@[simp]
theorem get_modify_of_ne (t : Table κ ρ) {k' : κ} (h : k' ≠ k) (f : ρ → ρ) :
    (t.modify k f).get k' = t.get k' := by
  simp [get_modify, h]

/-- A key that no scanned row carries is not found. -/
theorem get_eq_none_iff (t : Table κ ρ) (k : κ) :
    t.get k = none ↔ k ∉ t.rows.map Prod.fst := by
  constructor
  · intro hnone hmem
    obtain ⟨⟨k₀, r⟩, hrow, rfl⟩ := List.mem_map.mp hmem
    rw [(t.mem_rows_iff k₀ r).mp hrow] at hnone
    exact absurd hnone (by simp)
  · intro hfresh
    cases hget : t.get k with
    | none => rfl
    | some r =>
      exact absurd (List.mem_map_of_mem (f := Prod.fst) ((t.mem_rows_iff k r).mpr hget)) hfresh

/-- Insert a row under a fresh key; `none` is a primary-key violation. -/
def insert (t : Table κ ρ) (k : κ) (r : ρ) : Option (Table κ ρ) :=
  if h : t.get k = none then
    some
      { rows := t.rows ++ [(k, r)]
        nodupKeys := by
          have hfresh := (t.get_eq_none_iff k).mp h
          rw [List.map_append, List.nodup_append]
          refine ⟨t.nodupKeys, by simp, ?_⟩
          intro a ha b hb hab
          simp only [List.map_cons, List.map_nil, List.mem_singleton] at hb
          subst hb
          subst hab
          exact hfresh ha }
  else
    none

/-- Insertion fails exactly on a key that is already used. -/
theorem insert_eq_none_iff (t : Table κ ρ) (k : κ) (r : ρ) :
    t.insert k r = none ↔ (t.get k).isSome := by
  unfold insert
  split_ifs with h
  · simp [h]
  · simpa [Option.ne_none_iff_isSome] using h

variable {t t' : Table κ ρ} {r : ρ}

/-- A successful insertion adds exactly the given row under a fresh key. -/
theorem get_of_insert (h : t.insert k r = some t') :
    t.get k = none ∧ ∀ k', t'.get k' = if k' = k then some r else t.get k' := by
  unfold insert at h
  split_ifs at h with hfresh
  refine ⟨hfresh, fun k' => ?_⟩
  cases h
  by_cases hk : k' = k
  · subst k'
    simp only [if_true]
    rw [← mem_rows_iff]
    simp
  · rw [if_neg hk]
    apply Option.ext
    intro r'
    rw [← mem_rows_iff, ← mem_rows_iff]
    simp [hk]

/-- Insert a row, or overwrite the row with the same key. -/
def upsert (t : Table κ ρ) (k : κ) (r : ρ) : Table κ ρ :=
  match t.insert k r with
  | some t' => t'
  | none => t.modify k fun _ => r

/-- Overwriting determines the row under its key and keeps the others. -/
theorem get_upsert (t : Table κ ρ) (k k' : κ) (r : ρ) :
    (t.upsert k r).get k' = if k' = k then some r else t.get k' := by
  unfold upsert
  cases hinsert : t.insert k r with
  | some t' => exact (get_of_insert hinsert).2 k'
  | none =>
    obtain ⟨r₀, hr₀⟩ := Option.isSome_iff_exists.mp ((t.insert_eq_none_iff k r).mp hinsert)
    by_cases hk : k' = k
    · subst k'
      simp [hr₀]
    · simp [hk]

/-- Delete the row with the given key. -/
def erase (t : Table κ ρ) (k : κ) : Table κ ρ where
  rows := t.rows.filter fun e => e.1 ≠ k
  nodupKeys := (List.filter_sublist.map Prod.fst).nodup t.nodupKeys

/-- Deleting takes away exactly the row with the key. -/
theorem get_erase (t : Table κ ρ) (k k' : κ) :
    (t.erase k).get k' = if k' = k then none else t.get k' := by
  apply Option.ext
  intro r
  rw [← mem_rows_iff]
  by_cases hk : k' = k
  · simp [erase, hk]
  · simp [erase, hk, mem_rows_iff]

/-- Keep the rows whose key has a property. -/
def restrict (t : Table κ ρ) (p : κ → Bool) : Table κ ρ where
  rows := t.rows.filter fun e => p e.1
  nodupKeys := (List.filter_sublist.map Prod.fst).nodup t.nodupKeys

/-- Restricting takes away exactly the rows whose key does not have the property. -/
theorem get_restrict (t : Table κ ρ) (p : κ → Bool) (k : κ) :
    (t.restrict p).get k = if p k then t.get k else none := by
  apply Option.ext
  intro r
  rw [← mem_rows_iff]
  by_cases hk : p k
  · simp [restrict, hk, mem_rows_iff]
  · simp [restrict, hk]

theorem rows_of_insert (h : t.insert k r = some t') :
    t'.rows = t.rows ++ [(k, r)] := by
  unfold insert at h
  split_ifs at h with hfresh
  cases h
  rfl

/-! ## Counting rows -/

/-- The keys of the rows with a property. -/
def keysWith (t : Table κ ρ) (p : ρ → Bool) : List κ :=
  (t.rows.filter fun e => p e.2).map Prod.fst

theorem mem_keysWith (t : Table κ ρ) (p : ρ → Bool) (k : κ) :
    k ∈ t.keysWith p ↔ ∃ r, t.get k = some r ∧ p r := by
  unfold keysWith
  constructor
  · intro hmem
    obtain ⟨⟨k₀, r⟩, hrow, rfl⟩ := List.mem_map.mp hmem
    obtain ⟨hrow, hp⟩ := List.mem_filter.mp hrow
    exact ⟨r, (t.mem_rows_iff k₀ r).mp hrow, hp⟩
  · rintro ⟨r, hget, hp⟩
    have hrow := (t.mem_rows_iff k r).mpr hget
    exact List.mem_map.mpr ⟨(k, r), List.mem_filter.mpr ⟨hrow, hp⟩, rfl⟩

omit [DecidableEq κ] in
theorem nodup_keysWith (t : Table κ ρ) (p : ρ → Bool) : (t.keysWith p).Nodup :=
  (List.filter_sublist.map Prod.fst).nodup t.nodupKeys

omit [DecidableEq κ] in
theorem length_keysWith (t : Table κ ρ) (p : ρ → Bool) :
    (t.keysWith p).length = t.rows.countP fun e => p e.2 := by
  rw [keysWith, List.length_map, List.countP_eq_length_filter]

variable {p : ρ → Bool}

/-- A table has no more rows with a property than another one that has it under the same keys. -/
theorem countP_le (h : ∀ k r', t'.get k = some r' → p r' → ∃ r, t.get k = some r ∧ p r) :
    t'.rows.countP (fun e => p e.2) ≤ t.rows.countP fun e => p e.2 := by
  rw [← length_keysWith, ← length_keysWith]
  apply (t'.nodup_keysWith p).length_le_of_subset
  intro k hk
  obtain ⟨r', hget, hp⟩ := (t'.mem_keysWith p k).mp hk
  exact (t.mem_keysWith p k).mpr (h k r' hget hp)

/-- One more key adds at most one row. -/
theorem countP_le_succ (k₀ : κ)
    (h : ∀ k r', k ≠ k₀ → t'.get k = some r' → p r' → ∃ r, t.get k = some r ∧ p r) :
    t'.rows.countP (fun e => p e.2) ≤ t.rows.countP (fun e => p e.2) + 1 := by
  rw [← length_keysWith, ← length_keysWith, ← List.length_cons (a := k₀)]
  apply (t'.nodup_keysWith p).length_le_of_subset
  intro k hk
  obtain ⟨r', hget, hp⟩ := (t'.mem_keysWith p k).mp hk
  by_cases hk₀ : k = k₀
  · simp [hk₀]
  · exact List.mem_cons_of_mem _ ((t.mem_keysWith p k).mpr (h k r' hk₀ hget hp))

/-! ## Sums over the rows -/

/-- The sum of the weights of the rows. -/
def total (t : Table κ ρ) (weight : ρ → Nat) : Nat :=
  (t.rows.map fun e => weight e.2).sum

theorem total_of_insert (h : t.insert k r = some t')
    (weight : ρ → Nat) : t'.total weight = t.total weight + weight r := by
  simp [total, rows_of_insert h]

theorem total_eq_zero {weight : ρ → Nat}
    (h : ∀ k r, t.get k = some r → weight r = 0) : t.total weight = 0 := by
  unfold total
  rw [List.sum_eq_zero_iff_forall_eq_nat]
  intro n hn
  obtain ⟨⟨k, r⟩, hmem, rfl⟩ := List.mem_map.mp hn
  exact h k r ((t.mem_rows_iff k r).mp hmem)

/-- An update exchanges the weight of the row with its key. -/
theorem total_modify (t : Table κ ρ) (hget : t.get k = some r) (f : ρ → ρ) (weight : ρ → Nat) :
    (t.modify k f).total weight + weight r = t.total weight + weight (f r) := by
  have hmem := (t.mem_rows_iff k r).mpr hget
  have hnodup := t.nodupKeys
  simp only [total, modify, rows_mapRows, List.map_map, Function.comp_def]
  generalize t.rows = rows at hmem hnodup
  induction rows with
  | nil => simp at hmem
  | cons e es ih =>
    simp only [List.map_cons, List.nodup_cons] at hnodup
    simp only [List.map_cons, List.sum_cons]
    rcases List.mem_cons.mp hmem with heq | hrest
    · subst heq
      have hsame : es.map (fun e => weight (if e.1 = k then f e.2 else e.2)) =
          es.map fun e => weight e.2 := by
        apply List.map_congr_left
        intro e he
        have hne : e.1 ≠ k := fun hek => hnodup.1 (List.mem_map.mpr ⟨e, he, hek⟩)
        rw [if_neg hne]
      rw [hsame, if_pos rfl]
      simp only
      omega
    · have hne : e.1 ≠ k := fun hek => hnodup.1 (List.mem_map.mpr ⟨(k, r), hrest, hek.symm⟩)
      have hsum := ih hrest hnodup.2
      rw [if_neg hne]
      omega

end Table
