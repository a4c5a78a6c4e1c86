import Mathlib

/-!
Tables of objects that are referred to by handles, as a program refers to heap
objects by pointers. A handle finds at most one object; replacing, removing
and inserting an object leave what every other handle finds alone.
-/
namespace Meshlink.Handles

variable {α : Type}

def find : List (ℕ × α) → ℕ → Option α
  | [], _ => none
  | (k, a) :: rest, h => if k = h then some a else find rest h

/-- Replace the object behind a handle. -/
def put (t : List (ℕ × α)) (h : ℕ) (a : α) : List (ℕ × α) :=
  t.map (fun e => if e.1 = h then (e.1, a) else e)

def remove (t : List (ℕ × α)) (h : ℕ) : List (ℕ × α) := t.filter (fun e => decide (e.1 ≠ h))

/-- Every handle of the table is below `bound`, so `bound` is a new one. -/
def Below (t : List (ℕ × α)) (bound : ℕ) : Prop := ∀ e ∈ t, e.1 < bound

variable (t : List (ℕ × α)) (h bound : ℕ) (a : α)

theorem find_mem (hf : find t h = some a) : (h, a) ∈ t := by
  induction t with
  | nil => simp [find] at hf
  | cons e rest ih =>
    obtain ⟨k, b⟩ := e
    simp only [find] at hf
    split at hf
    · rename_i hk
      simp only [Option.some.injEq] at hf
      simp [hk, hf]
    · exact List.mem_cons_of_mem _ (ih hf)

theorem find_put_self (b : α) (hf : find t h = some b) : find (put t h a) h = some a := by
  induction t with
  | nil => simp [find] at hf
  | cons e rest ih =>
    obtain ⟨k, c⟩ := e
    simp only [find] at hf
    by_cases hk : k = h
    · simp [put, find, hk]
    · simp only [hk, ite_false] at hf
      simpa [put, find, hk] using ih hf

theorem find_put_ne (k : ℕ) (a : α) (hne : k ≠ h) : find (put t h a) k = find t k := by
  induction t with
  | nil => rfl
  | cons e rest ih =>
    obtain ⟨j, c⟩ := e
    by_cases hj : j = h
    · subst hj
      simpa [put, find, Ne.symm hne] using ih
    · by_cases hjk : j = k
      · simp [put, find, hjk, hne]
      · simpa [put, find, hj, hjk] using ih

theorem find_remove_ne (k : ℕ) (hne : k ≠ h) : find (remove t h) k = find t k := by
  induction t with
  | nil => rfl
  | cons e rest ih =>
    obtain ⟨j, c⟩ := e
    by_cases hj : j = h
    · subst hj
      simpa [remove, find, Ne.symm hne] using ih
    · by_cases hjk : j = k
      · simp [remove, find, hjk, hne]
      · simpa [remove, find, hj, hjk] using ih

theorem find_remove_self : find (remove t h) h = none := by
  induction t with
  | nil => rfl
  | cons e rest ih =>
    obtain ⟨j, c⟩ := e
    by_cases hj : j = h
    · simpa [remove, hj] using ih
    · simpa [remove, find, hj] using ih

theorem find_orderedInsert (r : ℕ × α → ℕ × α → Prop) [DecidableRel r]
    (t : List (ℕ × α)) (h k : ℕ) (a : α) (hfresh : ∀ e ∈ t, e.1 ≠ h) :
    find (t.orderedInsert r (h, a)) k = if k = h then some a else find t k := by
  induction t with
  | nil =>
    by_cases hk : k = h
    · simp [find, hk]
    · simp [find, hk, Ne.symm hk]
  | cons e rest ih =>
    obtain ⟨j, c⟩ := e
    have hj : j ≠ h := hfresh (j, c) (List.mem_cons_self ..)
    have ih' := ih (fun e he => hfresh e (List.mem_cons_of_mem _ he))
    by_cases hr : r (h, a) (j, c)
    · by_cases hk : k = h
      · simp [find, hr, hk]
      · simp [find, hr, hk, Ne.symm hk]
    by_cases hk : k = h
    · subst hk
      simpa [find, hr, hj] using ih'
    · simp only [List.orderedInsert_cons, hr, ite_false, find, hk, ih']

theorem put_below (a : α) (hb : Below t bound) : Below (put t h a) bound := by
  intro e he
  obtain ⟨e', he', rfl⟩ := List.mem_map.mp he
  split
  · exact hb e' he'
  · exact hb e' he'

theorem remove_below (hb : Below t bound) : Below (remove t h) bound :=
  fun e he => hb e (List.mem_of_mem_filter he)

theorem orderedInsert_below (r : ℕ × α → ℕ × α → Prop) [DecidableRel r]
    (t : List (ℕ × α)) (h : ℕ) (a : α) (hb : Below t h) :
    Below (t.orderedInsert r (h, a)) (h + 1) := by
  intro e he
  rcases (List.mem_orderedInsert r).mp he with heq | hmem
  · subst e
    exact Nat.lt_succ_self h
  · exact Nat.lt_succ_of_lt (hb e hmem)

theorem find_map (f : α → α) (h : ℕ) : find (t.map fun e => (e.1, f e.2)) h = (find t h).map f := by
  induction t with
  | nil => rfl
  | cons e rest ih =>
    obtain ⟨k, a⟩ := e
    by_cases hk : k = h
    · simp [find, hk]
    · simpa [find, hk] using ih

theorem map_below (f : α → α) (bound : ℕ) (hb : Below t bound) :
    Below (t.map fun e => (e.1, f e.2)) bound := by
  intro e he
  obtain ⟨e', he', rfl⟩ := List.mem_map.mp he
  exact hb e' he'

theorem find_below (h : ℕ) (a : α) (hb : Below t bound) (hf : find t h = some a) : h < bound :=
  hb (h, a) (find_mem t h a hf)

end Meshlink.Handles
