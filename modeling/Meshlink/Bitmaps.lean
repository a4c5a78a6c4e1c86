import Mathlib

/-!
Circular bitmaps: a fixed row of bytes in which bit `i` is bit `i % 8` of the
byte `i / 8`, counted around the row. Positions that agree modulo the number
of bits share a bit, all others are independent.
-/
namespace Meshlink.Bitmaps

def mask (i : ℕ) : UInt8 := 1 <<< UInt8.ofNat (i % 8)

theorem mask_toNat (i : ℕ) : (mask i).toNat = 2 ^ (i % 8) := by
  have hlt : i % 8 < 8 := Nat.mod_lt i (by decide)
  unfold mask
  generalize i % 8 = k at hlt
  interval_cases k <;> rfl

theorem and_mask_ne_zero (b : UInt8) (i : ℕ) :
    (b &&& mask i != 0) = b.toNat.testBit (i % 8) := by
  rw [Bool.eq_iff_iff, bne_iff_ne, ne_eq, ← UInt8.toNat_inj, UInt8.toNat_and, mask_toNat,
    Nat.and_two_pow]
  cases b.toNat.testBit (i % 8)
  · simp
  · simp

theorem testBit_or_mask (b : UInt8) (i k : ℕ) :
    (b ||| mask i).toNat.testBit k = (b.toNat.testBit k || decide (i % 8 = k)) := by
  rw [UInt8.toNat_or, Nat.testBit_or, mask_toNat, Nat.testBit_two_pow]

theorem testBit_and_not_mask (b : UInt8) (i k : ℕ) (hk : k < 8) :
    (b &&& ~~~mask i).toNat.testBit k = (b.toNat.testBit k && !decide (i % 8 = k)) := by
  have hnot : (~~~mask i).toNat.testBit k = !(mask i).toNat.testBit k := by
    change (~~~mask i).toBitVec.toNat.testBit k = !(mask i).toBitVec.toNat.testBit k
    rw [BitVec.testBit_toNat, BitVec.testBit_toNat, UInt8.toBitVec_not, BitVec.getLsbD_not]
    simp [hk]
  rw [UInt8.toNat_and, Nat.testBit_and, hnot, mask_toNat, Nat.testBit_two_pow]

/-- `n` bytes, `8 * n` bits. -/
abbrev Bitmap (n : ℕ) := Vector UInt8 n

variable {n : ℕ}

theorem get_set (b : Bitmap n) (c d : Fin n) (v : UInt8) :
    (b.set c v)[d] = if c = d then v else b[d] := by
  simp only [Fin.getElem_fin, Vector.getElem_set, Fin.ext_iff]

variable [NeZero n]

def cell (n : ℕ) [NeZero n] (i : ℕ) : Fin n := Fin.ofNat n (i / 8)

def test (b : Bitmap n) (i : ℕ) : Bool := b[cell n i] &&& mask i != 0

def mark (b : Bitmap n) (i : ℕ) : Bitmap n :=
  b.set (cell n i) (b[cell n i] ||| mask i)

def clear (b : Bitmap n) (i : ℕ) : Bitmap n :=
  b.set (cell n i) (b[cell n i] &&& ~~~mask i)

def full (n : ℕ) : Bitmap n := Vector.replicate n 255

/-- Mark `count` consecutive bits, from `first` on. -/
def markFrom (b : Bitmap n) (first count : ℕ) : Bitmap n :=
  (List.range count).foldl (fun b i => mark b (first + i)) b

theorem test_eq (b : Bitmap n) (i : ℕ) :
    test b i = b[cell n i].toNat.testBit (i % 8) :=
  and_mask_ne_zero _ i

/-- Two positions share a bit when they agree modulo the number of bits. -/
theorem position_eq_iff (i j : ℕ) :
    (cell n i = cell n j ∧ i % 8 = j % 8) ↔ i % (8 * n) = j % (8 * n) := by
  have hcell : cell n i = cell n j ↔ i / 8 % n = j / 8 % n := by
    simp [cell, Fin.ext_iff]
  rw [hcell, Nat.mod_mul, Nat.mod_mul]
  have hi : i % 8 < 8 := Nat.mod_lt i (by decide)
  have hj : j % 8 < 8 := Nat.mod_lt j (by decide)
  omega

theorem bit_eq_decide {i j : ℕ} (hcell : cell n i = cell n j) :
    decide (i % 8 = j % 8) = decide (i % (8 * n) = j % (8 * n)) :=
  decide_eq_decide.mpr ⟨fun h => (position_eq_iff i j).mp ⟨hcell, h⟩,
    fun h => ((position_eq_iff i j).mpr h).2⟩

theorem test_mark (b : Bitmap n) (i j : ℕ) :
    test (mark b i) j = (test b j || decide (i % (8 * n) = j % (8 * n))) := by
  rw [test_eq, test_eq, mark, get_set]
  by_cases hcell : cell n i = cell n j
  · rw [if_pos hcell, testBit_or_mask, bit_eq_decide hcell]
    simp only [hcell]
  · rw [if_neg hcell, decide_eq_false fun h => hcell ((position_eq_iff i j).mpr h).1,
      Bool.or_false]

theorem test_clear (b : Bitmap n) (i j : ℕ) :
    test (clear b i) j = (test b j && !decide (i % (8 * n) = j % (8 * n))) := by
  rw [test_eq, test_eq, clear, get_set]
  by_cases hcell : cell n i = cell n j
  · rw [if_pos hcell, testBit_and_not_mask _ _ _ (Nat.mod_lt j (by decide)),
      bit_eq_decide hcell]
    simp only [hcell]
  · rw [if_neg hcell, decide_eq_false fun h => hcell ((position_eq_iff i j).mpr h).1,
      Bool.not_false, Bool.and_true]

theorem test_full (i : ℕ) : test (full n) i = true := by
  have hlt : i % 8 < 8 := Nat.mod_lt i (by decide)
  have hget : (full n)[cell n i] = 255 := by
    simp [full]
  rw [test_eq, hget]
  change Nat.testBit (2 ^ 8 - 1) (i % 8) = true
  rw [Nat.testBit_two_pow_sub_one, decide_eq_true hlt]

theorem test_markFrom (b : Bitmap n) (first count j : ℕ) :
    test (markFrom b first count) j = true ↔
      test b j = true ∨ ∃ i < count, (first + i) % (8 * n) = j % (8 * n) := by
  induction count with
  | zero => simp [markFrom]
  | succ count ih =>
    have hstep : markFrom b first (count + 1) = mark (markFrom b first count) (first + count) := by
      simp [markFrom, List.range_succ]
    rw [hstep, test_mark, Bool.or_eq_true, ih, decide_eq_true_iff]
    constructor
    · rintro ((h | ⟨i, hi, h⟩) | h)
      · exact Or.inl h
      · exact Or.inr ⟨i, by omega, h⟩
      · exact Or.inr ⟨count, by omega, h⟩
    · rintro (h | ⟨i, hi, h⟩)
      · exact Or.inl (Or.inl h)
      · rcases Nat.lt_succ_iff_lt_or_eq.mp hi with hlt | rfl
        · exact Or.inl (Or.inr ⟨i, hlt, h⟩)
        · exact Or.inr h

end Meshlink.Bitmaps
