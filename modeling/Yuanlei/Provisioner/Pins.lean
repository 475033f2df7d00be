import Mathlib.Data.Finset.Insert
import Mathlib.Data.Finset.Erase
import Yuanlei.Lib.Table

/-!
# Operation pins of the sandbox provisioner

The model of `SandboxOperationPins`.  Requests on a sandbox id hold a pin
while they run, and a deletion first marks the id, which keeps further requests
waiting, and then waits until the pin count is zero.  Every function below is one
critical section of the condition variable; a call that has to wait leaves the
pins as they are and is tried again.

Main results:

- `count_of_acquire`, `count_release`: what one critical
  section does to the pin counts.
- `acquire_eq_none_iff`: a request waits exactly while its id is marked.
-/

namespace Yuanlei.Provisioner

/-- The dict of active pins and the set of ids being deleted. -/
structure SandboxOperationPins where
  active : Table String Nat
  deleting : Finset String

namespace SandboxOperationPins

/-- The pins of a process that has just started. -/
def initial : SandboxOperationPins where
  active := Table.empty
  deleting := ∅

variable (pins : SandboxOperationPins) (sandboxId : String)

/-- `self._active.get(sandbox_id, 0)`. -/
def count : Nat :=
  (pins.active.get sandboxId).getD 0

/-- One test of `acquire`'s loop; `none` waits. -/
def acquire : Option SandboxOperationPins :=
  if sandboxId ∈ pins.deleting then
    none
  else
    some { pins with active := pins.active.upsert sandboxId (pins.count sandboxId + 1) }

/-- `release` drops the entry of the last pin. -/
def release : SandboxOperationPins :=
  if pins.count sandboxId ≤ 1 then
    { pins with active := pins.active.erase sandboxId }
  else
    { pins with active := pins.active.upsert sandboxId (pins.count sandboxId - 1) }

/-- The first statement of `begin_delete`. -/
def markDeleting : SandboxOperationPins :=
  { pins with deleting := insert sandboxId pins.deleting }

/-- One test of `begin_delete`'s loop. -/
def drained : Bool :=
  pins.count sandboxId == 0

/-- `end_delete` discards the mark whoever set it. -/
def endDelete : SandboxOperationPins :=
  { pins with deleting := pins.deleting.erase sandboxId }

@[simp]
theorem count_initial : initial.count sandboxId = 0 := by
  simp [initial, count]

variable (other : String)

@[simp]
theorem deleting_release : (pins.release sandboxId).deleting = pins.deleting := by
  unfold release
  split <;> rfl

theorem mem_deleting_markDeleting :
    other ∈ (pins.markDeleting sandboxId).deleting ↔ other = sandboxId ∨ other ∈ pins.deleting := by
  simp [markDeleting]

theorem mem_deleting_endDelete :
    other ∈ (pins.endDelete sandboxId).deleting ↔ other ≠ sandboxId ∧ other ∈ pins.deleting := by
  simp [endDelete]

/-- A request waits exactly while its id is marked. -/
theorem acquire_eq_none_iff : pins.acquire sandboxId = none ↔ sandboxId ∈ pins.deleting := by
  unfold acquire
  split <;> simp_all

theorem count_release : (pins.release sandboxId).count other =
      if other = sandboxId then pins.count sandboxId - 1 else pins.count other := by
  by_cases hid : other = sandboxId
  · subst hid
    unfold release
    split
    · rename_i hlast
      have hzero : pins.count other - 1 = 0 := by omega
      simp [count, Table.get_erase] at hzero ⊢
      omega
    · simp [count, Table.get_upsert]
  · unfold release
    split <;> simp [count, Table.get_erase, Table.get_upsert, hid]

section Acquired

variable {pins} {sandboxId} {pins' : SandboxOperationPins}

section

variable (h : pins.acquire sandboxId = some pins')
include h

theorem not_mem_of_acquire :
    sandboxId ∉ pins.deleting := by
  intro hmarked
  rw [(pins.acquire_eq_none_iff sandboxId).mpr hmarked] at h
  cases h

theorem eq_of_acquire :
    pins' = { pins with active := pins.active.upsert sandboxId (pins.count sandboxId + 1) } := by
  unfold acquire at h
  rw [if_neg (not_mem_of_acquire h)] at h
  exact (Option.some.inj h).symm

theorem deleting_of_acquire :
    pins'.deleting = pins.deleting := by
  rw [eq_of_acquire h]

theorem count_of_acquire (other : String) :
    pins'.count other =
      if other = sandboxId then pins.count sandboxId + 1 else pins.count other := by
  rw [eq_of_acquire h]
  by_cases hid : other = sandboxId
  · simp [count, Table.get_upsert, hid]
  · simp [count, Table.get_upsert, hid]

end

end Acquired

end SandboxOperationPins

end Yuanlei.Provisioner
