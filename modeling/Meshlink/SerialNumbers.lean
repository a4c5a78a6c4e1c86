import Mathlib

/-!
Serial numbers of 32 bits and their signed distance. A position in an
unbounded stream is written as a base number plus a natural offset; the
distance of two such numbers is the difference of the offsets whenever the
offsets are less than half of the number space apart.
-/
namespace Meshlink.SerialNumbers

/-- The value of a 32-bit word read as a two's complement integer. -/
def signed (x : UInt32) : Int :=
  if x.toNat < 2 ^ 31 then (x.toNat : Int) else (x.toNat : Int) - 2 ^ 32

/-- How far `a` is ahead of `b`, negative when it is behind. -/
def distance (a b : UInt32) : Int := signed (a - b)

/-- The serial number `n` places after `base`. -/
def place (base : UInt32) (n : ℕ) : UInt32 := base + UInt32.ofNat n

variable (x : UInt32)

theorem signed_upper : signed x < 2 ^ 31 := by
  have hx := x.toNat_lt
  unfold signed
  split <;> omega

theorem signed_eq_zero_iff : signed x = 0 ↔ x = 0 := by
  have hx := x.toNat_lt
  rw [← UInt32.toNat_inj]
  unfold signed
  simp only [UInt32.toNat_zero]
  split <;> omega

theorem signed_of_nonneg (h : 0 ≤ signed x) : signed x = x.toNat := by
  have hx := x.toNat_lt
  unfold signed at *
  split at h
  · rename_i hlt
    rw [ite_cond_eq_true _ _ (eq_true hlt)]
  · omega

@[simp] theorem place_zero (base : UInt32) : place base 0 = base := by
  simp [place]

theorem place_add (base : UInt32) (m n : ℕ) : place (place base m) n = place base (m + n) := by
  simp [place, UInt32.ofNat_add, UInt32.add_assoc]

theorem distance_eq_zero_iff (a b : UInt32) : distance a b = 0 ↔ a = b := by
  unfold distance
  rw [signed_eq_zero_iff]
  constructor
  · intro h
    have hab : a - b + b = 0 + b := by rw [h]
    simpa using hab
  · intro h
    simp [h]

/-- A nonnegative distance names the place it leads to. -/
theorem eq_place_of_distance (a b : UInt32) (h : 0 ≤ distance a b) :
    a = place b (distance a b).toNat := by
  have hd := signed_of_nonneg (a - b) h
  unfold distance at *
  rw [hd, Int.toNat_natCast]
  rw [place, UInt32.ofNat_toNat, UInt32.add_comm]
  exact (UInt32.sub_add_cancel a b).symm

theorem place_injective (base : UInt32) (m n : ℕ) (h : place base m = place base n)
    (hm : m < n + 2 ^ 32) (hn : n < m + 2 ^ 32) : m = n := by
  have hmod : m % 2 ^ 32 = n % 2 ^ 32 := by
    have hnat := congrArg UInt32.toNat h
    simp only [place, UInt32.toNat_add, UInt32.toNat_ofNat'] at hnat
    have hb := base.toNat_lt
    omega
  omega

theorem add_ofInt_neg_one : x + UInt32.ofInt (-1) = x - 1 := by
  rw [UInt32.sub_eq_add_neg]
  rfl

theorem sub_one_ne : x - 1 ≠ x := by
  intro h
  have hnat := congrArg UInt32.toNat h
  rw [UInt32.toNat_sub] at hnat
  have hlt := x.toNat_lt
  have hone : (1 : UInt32).toNat = 1 := rfl
  omega

end Meshlink.SerialNumbers
