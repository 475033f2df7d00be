import Mathlib.Data.Option.Basic
import Mathlib.Tactic.SplitIfs
import Mathlib.Logic.Function.Basic

/-!
# Sessions on one row

Database sessions that read, lock and rewrite one row.  A session keeps the attributes of the row
as it first read them: reading the row again, also under its lock, leaves them as they are, unless
the read asks to replace them.  A session that writes the row waits for its lock.

Main results:

- `Current`: a session that holds the lock has the attributes of the row.
- `current_lock`: locking with fresh attributes makes a session current.
-/

namespace RowSession

universe u v

variable {σ : Type u} {ρ : Type v} [DecidableEq σ]

/-- The committed row, the session that holds its lock, and what every session has loaded. -/
structure State (σ : Type u) (ρ : Type v) where
  row : ρ
  holder : Option σ
  loaded : σ → Option ρ

namespace State

/-- No other session holds the lock. -/
def free (st : State σ ρ) (s : σ) : Bool :=
  st.holder.all (· == s)

/-- A plain `select`. -/
def load (st : State σ ρ) (s : σ) : State σ ρ :=
  { st with loaded := Function.update st.loaded s (some ((st.loaded s).getD st.row)) }

/-- `select … for update`; `none` is a session that waits. -/
def lock (st : State σ ρ) (s : σ) (populateExisting : Bool) : Option (State σ ρ) :=
  if st.free s then
    let attributes := if populateExisting then st.row else (st.loaded s).getD st.row
    some
      { st with
        holder := some s
        loaded := Function.update st.loaded s (some attributes) }
  else none

/-- The end of a session that wrote nothing or is rolled back. -/
def close (st : State σ ρ) (s : σ) : State σ ρ where
  row := st.row
  holder := if st.holder = some s then none else st.holder
  loaded := Function.update st.loaded s none

/-- The end of a session that writes the row, if it does. -/
def commit (st : State σ ρ) (s : σ) : Option ρ → Option (State σ ρ)
  | none => some (st.close s)
  | some row => if st.free s then some { st.close s with row := row } else none

end State

variable {st : State σ ρ} {s t : σ}

theorem eq_of_free (hfree : st.free t) (hholder : st.holder = some s) : s = t := by
  unfold State.free at hfree
  rw [hholder] at hfree
  simpa using hfree

/-- If the session holds the lock, it has the attributes of the row. -/
def Current (st : State σ ρ) (s : σ) : Prop :=
  st.holder = some s → st.loaded s = some st.row

variable {st' : State σ ρ}

theorem current_lock (h : st.lock s true = some st') : Current st' s := by
  unfold State.lock at h
  split at h
  · cases h
    intro _
    simp
  · cases h

theorem Current.load (h : Current st s) (t : σ) : Current (st.load t) s := by
  intro hholder
  have hloaded := h hholder
  by_cases hst : s = t
  · subst hst
    simp [State.load, hloaded]
  · simp [State.load, Function.update_of_ne hst, hloaded]

variable {populateExisting : Bool}

theorem current_lock_of_ne (hst : s ≠ t) (hlock : st.lock t populateExisting = some st') :
    Current st' s := by
  unfold State.lock at hlock
  split at hlock
  · cases hlock
    intro hholder
    exact absurd (Option.some.inj hholder).symm hst
  · cases hlock

theorem Current.close (h : Current st s) (t : σ) : Current (st.close t) s := by
  intro hholder
  simp only [State.close] at hholder ⊢
  split_ifs at hholder with hheld
  have hst : s ≠ t := by
    rintro rfl
    exact hheld hholder
  rw [Function.update_of_ne hst]
  exact h hholder

theorem current_close_self (st : State σ ρ) (s : σ) : Current (st.close s) s := by
  intro hholder
  simp only [State.close] at hholder
  split_ifs at hholder with hheld
  exact absurd hholder hheld

variable {written : Option ρ}

/-- While a session holds the lock, no other one writes the row. -/
theorem Current.commit (h : Current st s) (hcommit : st.commit t written = some st') : Current st' s := by
  cases written with
  | none =>
    cases hcommit
    exact h.close t
  | some row =>
    unfold State.commit at hcommit
    split_ifs at hcommit with hfree
    cases hcommit
    intro hholder
    simp only [State.close] at hholder
    split_ifs at hholder with hheld
    exact absurd (eq_of_free hfree hholder ▸ hholder) hheld

theorem current_commit_self (hcommit : st.commit s written = some st') : Current st' s := by
  have hclosed : st'.holder = (st.close s).holder := by
    cases written with
    | none =>
      cases hcommit
      rfl
    | some row =>
      unfold State.commit at hcommit
      split_ifs at hcommit
      cases hcommit
      rfl
  intro hholder
  rw [hclosed, State.close] at hholder
  simp only at hholder
  split_ifs at hholder with hheld
  exact absurd hholder hheld

theorem row_of_commit (h : st.commit s written = some st') : st'.row = written.getD st.row := by
  cases written with
  | none =>
    cases h
    rfl
  | some row =>
    unfold State.commit at h
    split_ifs at h
    cases h
    rfl

theorem row_of_lock (h : st.lock s populateExisting = some st') : st'.row = st.row := by
  unfold State.lock at h
  split at h
  · cases h
    rfl
  · cases h

end RowSession
