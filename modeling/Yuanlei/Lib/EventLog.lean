import Mathlib.Data.List.Basic
import Mathlib.Order.Lattice

/-!
# Append-only logs

A log holds entries with strictly increasing ids.  A reader has a cursor and takes
the entries after it; what it has read so far is the part of the log between the
id it started from and its cursor.

Main results:

- `EventLog.between_append`: an append beyond the cursor leaves what has been read.
- `EventLog.lt_of_mem_take`: an entry in front of another one has a smaller id.
-/

universe u v

/-- Entries in the order of their ids. -/
structure EventLog (ι : Type u) (α : Type v) [LinearOrder ι] where
  entries : List (ι × α)
  sorted : entries.Pairwise fun e e' => e.1 < e'.1

namespace EventLog

variable {ι : Type u} {α : Type v} [LinearOrder ι]

def empty : EventLog ι α :=
  ⟨[], .nil⟩

/-- An id beyond all ids of the log. -/
def Fresh (log : EventLog ι α) (id : ι) : Prop :=
  ∀ e ∈ log.entries, e.1 < id

instance (log : EventLog ι α) (id : ι) : Decidable (log.Fresh id) :=
  inferInstanceAs (Decidable (∀ e ∈ log.entries, e.1 < id))

def append (log : EventLog ι α) (id : ι) (x : α) (h : log.Fresh id) : EventLog ι α where
  entries := log.entries ++ [(id, x)]
  sorted := by
    rw [List.pairwise_append]
    refine ⟨log.sorted, List.pairwise_singleton _ _, ?_⟩
    intro e he e' he'
    rw [List.mem_singleton.mp he']
    exact h e he

/-- The entries after a cursor. -/
def after (log : EventLog ι α) (cursor : ι) : List (ι × α) :=
  log.entries.filter fun e => cursor < e.1

/-- The entries after one id up to another one. -/
def between (log : EventLog ι α) (low high : ι) : List (ι × α) :=
  log.entries.filter fun e => low < e.1 ∧ e.1 ≤ high

variable {log : EventLog ι α} {e : ι × α} {cursor : ι}

theorem mem_after : e ∈ log.after cursor ↔ e ∈ log.entries ∧ cursor < e.1 := by
  simp [after]

variable {low high : ι}

theorem mem_between :
    e ∈ log.between low high ↔ e ∈ log.entries ∧ low < e.1 ∧ e.1 ≤ high := by
  simp [between]

theorem between_sorted (log : EventLog ι α) (low high : ι) :
    (log.between low high).Pairwise fun e e' => e.1 < e'.1 :=
  log.sorted.filter _

@[simp]
theorem between_self (log : EventLog ι α) (id : ι) : log.between id id = [] := by
  rw [between, List.filter_eq_nil_iff]
  intro e _
  simp

theorem entries_eq (log : EventLog ι α) (cursor : ι) :
    log.entries = (log.entries.filter fun e => e.1 ≤ cursor) ++ log.after cursor := by
  obtain ⟨entries, sorted⟩ := log
  simp only [after]
  induction entries with
  | nil => rfl
  | cons e entries ih =>
    obtain ⟨hhead, htail⟩ := List.pairwise_cons.mp sorted
    by_cases he : e.1 ≤ cursor
    · rw [List.filter_cons_of_pos (by simpa using he),
        List.filter_cons_of_neg (by simpa using he), List.cons_append, ← ih htail]
    · have hlt : cursor < e.1 := not_le.mp he
      have hnone : (entries.filter fun e => decide (e.1 ≤ cursor)) = [] := by
        rw [List.filter_eq_nil_iff]
        intro e' he'
        simpa using hlt.trans (hhead e' he')
      have hall : (entries.filter fun e => decide (cursor < e.1)) = entries := by
        rw [List.filter_eq_self]
        intro e' he'
        simpa using hlt.trans (hhead e' he')
      rw [List.filter_cons_of_neg (by simpa using hlt),
        List.filter_cons_of_pos (by simpa using hlt), hnone, hall, List.nil_append]

theorem between_next {rest : List (ι × α)}
    (hlow : low ≤ cursor) (h : log.after cursor = e :: rest) :
    log.between low e.1 = log.between low cursor ++ [e] ∧ log.after e.1 = rest := by
  have hsplit := log.entries_eq cursor
  rw [h] at hsplit
  have hnext : cursor < e.1 := (mem_after.mp (h ▸ List.mem_cons_self)).2
  have hrest : ∀ e' ∈ rest, e.1 < e'.1 := by
    have hsorted := log.sorted.filter fun e => decide (cursor < e.1)
    rw [← after, h] at hsorted
    exact (List.pairwise_cons.mp hsorted).1
  generalize hread : (log.entries.filter fun e => decide (e.1 ≤ cursor)) = read at hsplit
  have hle : ∀ e' ∈ read, e'.1 ≤ cursor := by
    intro e' he'
    rw [← hread] at he'
    simpa using (List.mem_filter.mp he').2
  have hsame : (read.filter fun e' => decide (low < e'.1 ∧ e'.1 ≤ e.1)) =
      read.filter fun e' => decide (low < e'.1 ∧ e'.1 ≤ cursor) := by
    refine List.filter_congr fun e' he' => ?_
    have hle' := hle e' he'
    simp [hle', hle'.trans hnext.le]
  refine ⟨?_, ?_⟩
  · unfold between
    rw [hsplit, List.filter_append, List.filter_append, hsame,
      List.filter_cons_of_pos (by simpa using hlow.trans_lt hnext),
      List.filter_cons_of_neg (by simpa using fun _ => hnext),
      (List.filter_eq_nil_iff (l := rest)).mpr (by simpa using fun a b hab _ => hrest (a, b) hab),
      (List.filter_eq_nil_iff (l := rest)).mpr
        (by simpa using fun a b hab _ => hnext.trans (hrest (a, b) hab)), List.append_nil]
  · unfold after
    rw [hsplit, List.filter_append, List.filter_cons_of_neg (by simp),
      (List.filter_eq_nil_iff (l := read)).mpr
        (by simpa using fun a b hab => (hle (a, b) hab).trans hnext.le), List.nil_append,
      List.filter_eq_self]
    simpa using fun a b hab => hrest (a, b) hab

variable {id : ι} {x : α}

theorem between_append (hfresh : log.Fresh id)
    (h : low = high ∨ high < id) : (log.append id x hfresh).between low high =
      log.between low high := by
  rcases h with rfl | hlt
  · rw [between_self, between_self]
  · unfold between append
    rw [List.filter_append, List.filter_cons_of_neg (by simpa using fun _ => hlt)]
    simp

theorem after_prefix_append (hfresh : log.Fresh id) : log.after cursor <+:
    (log.append id x hfresh).after cursor := by
  unfold after append
  rw [List.filter_append]
  exact List.prefix_append _ _

/-- An entry in front of another one has a smaller id. -/
theorem lt_of_mem_take {n : Nat} {e' : ι × α}
    (he : e ∈ log.entries.take n) (he' : e' ∈ log.entries.drop n) : e.1 < e'.1 := by
  have hsorted := log.sorted
  rw [← List.take_append_drop n log.entries, List.pairwise_append] at hsorted
  exact hsorted.2.2 e he e' he'

end EventLog
