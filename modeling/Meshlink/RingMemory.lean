import Mathlib

/-!
Byte memory as a total function, with block copies in and out of it, and the
circular addressing of a ring laid over its first `size` cells. A ring index
wraps at most once because offsets and indices stay within the ring.
-/
namespace Meshlink.RingMemory

variable {α : Type}

variable (mem : ℕ → α) (start : ℕ) (xs : List α)

/-- The memory after copying `xs` to consecutive cells from `start` on. -/
def blit (mem : ℕ → α) (start : ℕ) (xs : List α) : ℕ → α := fun i =>
  if start ≤ i then (xs[i - start]?).getD (mem i) else mem i

/-- The `n` cells from `start` on, in order. -/
def window (mem : ℕ → α) (start n : ℕ) : List α := (List.range n).map (fun i => mem (start + i))

/-- The cell that holds ring index `i` of a ring starting at `offset`. -/
def slot (size offset i : ℕ) : ℕ :=
  if offset + i < size then offset + i else offset + i - size

@[simp] theorem window_length (start n : ℕ) : (window mem start n).length = n := by
  simp [window]

@[simp] theorem window_zero : window mem start 0 = [] := rfl

variable (i : ℕ)

theorem window_getElem? (start n i : ℕ) (h : i < n) :
    (window mem start n)[i]? = some (mem (start + i)) := by
  simp [window, h]

theorem blit_from (h : start ≤ i) : blit mem start xs i = (xs[i - start]?).getD (mem i) := if_pos h

theorem blit_window (src : ℕ → α) (first n : ℕ) (h : start ≤ i) (hi : i < start + n) :
    blit mem start (window src first n) i = src (first + (i - start)) := by
  rw [blit_from _ _ _ _ h, window_getElem? _ _ _ _ (by omega)]
  rfl

theorem blit_below (h : i < start) : blit mem start xs i = mem i := by
  have hnot : ¬ start ≤ i := by omega
  simp [blit, hnot]

theorem blit_above (h : start + xs.length ≤ i) : blit mem start xs i = mem i := by
  have hnone : xs[i - start]? = none := List.getElem?_eq_none (by omega)
  simp [blit, hnone]

/-- The two cases of circular addressing, in the form arithmetic can use. -/
theorem slot_cases (size offset i : ℕ) :
    (offset + i < size ∧ slot size offset i = offset + i) ∨
      (size ≤ offset + i ∧ slot size offset i = offset + i - size) := by
  unfold slot
  split <;> omega

end Meshlink.RingMemory
