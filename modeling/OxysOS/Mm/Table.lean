import Mathlib.Data.List.Basic

/-!
# Growing tables

The tables of `kernel/mm/table.c`, whose first chunk is static and whose
further chunks are drawn zeroed from the heap.
-/

namespace OxysOS.Mm

def growingTableDirectoryCapacity : ℕ := 256

/-- A table of entries of which `chunkCount` chunks are installed, no chunk
being without entries. -/
structure GrowingTable (α : Type) where
  chunkEntries : ℕ
  nonempty : 0 < chunkEntries
  chunkCount : ℕ
  entry : ℕ → α

namespace GrowingTable

variable {α : Type}

/-- `GrowingTableCapacity` -/
def capacity (table : GrowingTable α) : ℕ := table.chunkCount * table.chunkEntries

def put (table : GrowingTable α) (index : ℕ) (value : α) : GrowingTable α :=
  { table with entry := Function.update table.entry index value }

/-- `GrowingTableGrow`, the heap having answered. -/
def grow (table : GrowingTable α) (zero : α) : GrowingTable α :=
  { table with
    chunkCount := table.chunkCount + 1,
    entry := fun index ↦ if index < table.capacity then table.entry index else zero }

def find (table : GrowingTable α) (test : α → Bool) : Option ℕ :=
  (List.range table.capacity).find? fun index ↦ test (table.entry index)

@[simp] theorem put_entry_self (table : GrowingTable α) (index : ℕ) (value : α) :
    (table.put index value).entry index = value := Function.update_self _ _ _

theorem put_entry_of_ne (table : GrowingTable α) {index i : ℕ} (value : α) (h : i ≠ index) :
    (table.put index value).entry i = table.entry i := Function.update_of_ne h _ _

theorem capacity_le_grow (table : GrowingTable α) (zero : α) :
    table.capacity ≤ (table.grow zero).capacity :=
  Nat.mul_le_mul_right _ (Nat.le_succ _)

theorem capacity_lt_grow (table : GrowingTable α) (zero : α) :
    table.capacity < (table.grow zero).capacity :=
  Nat.mul_lt_mul_of_pos_right (Nat.lt_succ_self _) table.nonempty

theorem grow_entry_of_lt (table : GrowingTable α) (zero : α) {i : ℕ} (h : i < table.capacity) :
    (table.grow zero).entry i = table.entry i := if_pos h

theorem grow_entry_of_le (table : GrowingTable α) (zero : α) {i : ℕ} (h : table.capacity ≤ i) :
    (table.grow zero).entry i = zero := if_neg (Nat.not_lt.mpr h)

theorem find_some {table : GrowingTable α} {test : α → Bool} {index : ℕ}
    (h : table.find test = some index) :
    index < table.capacity ∧ test (table.entry index) = true := by
  unfold find at h
  have htest := List.find?_some h
  exact ⟨List.mem_range.mp (List.mem_of_find?_eq_some h), htest⟩

theorem find_none {table : GrowingTable α} {test : α → Bool} (h : table.find test = none)
    {index : ℕ} (hindex : index < table.capacity) : test (table.entry index) = false := by
  simpa using List.find?_eq_none.mp h index (List.mem_range.mpr hindex)

end GrowingTable

end OxysOS.Mm
