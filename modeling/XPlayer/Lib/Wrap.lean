import Mathlib.Algebra.Order.Ring.Int

/-!
# Wrapping to a fixed width

The conversion of an integer to one of `m` consecutive values around zero, `Int.bmod`: which integers it keeps,
and when it keeps the order of two of them.
-/

namespace Wrap
variable {m : ℕ} {x y : ℤ}

/-- The position of `x` among the `m` values, counted from the least one. -/
theorem bmod_eq_shift (hm : 0 < m) (x : ℤ) : x.bmod m = (x + m / 2) % m - m / 2 := by
  have hx := Int.emod_nonneg x (b := m) (by omega)
  have hx' := Int.emod_lt_of_pos x (b := m) (by omega)
  rw [Int.bmod_eq_emod, ← Int.emod_add_emod]
  generalize x % m = r at *
  split
  · rw [← Int.sub_emod_right, Int.emod_eq_of_lt (by omega) (by omega)]
    omega
  · rw [Int.emod_eq_of_lt (by omega) (by omega)]
    omega

theorem bmod_eq_self_iff (hm : 0 < m) : x.bmod m = x ↔ -(m / 2 : ℤ) ≤ x ∧ x < (m + 1) / 2 := by
  rw [Int.bmod_eq_iff hm, sub_self]
  exact ⟨fun h => ⟨h.1, h.2.1⟩, fun h => ⟨h.1, h.2, Int.dvd_zero _⟩⟩

/-- The order is kept as long as the way from `x` to `y`, without full turns, does not pass the greatest
value. -/
theorem bmod_le_bmod_iff (hm : 0 < m) : x.bmod m ≤ y.bmod m ↔ (x + m / 2) % m + (y - x) % m < m := by
  have hy : (y + m / 2) % m = ((x + m / 2) % m + (y - x) % m) % m := by
    rw [← Int.add_emod]
    congr 1
    omega
  rw [bmod_eq_shift hm x, bmod_eq_shift hm y, hy]
  have h1 := Int.emod_nonneg (x + m / 2) (b := m) (by omega)
  have h2 := Int.emod_lt_of_pos (x + m / 2) (b := m) (by omega)
  have h3 := Int.emod_nonneg (y - x) (b := m) (by omega)
  have h4 := Int.emod_lt_of_pos (y - x) (b := m) (by omega)
  generalize (x + m / 2) % m = a at *
  generalize (y - x) % m = d at *
  rcases lt_or_ge (a + d) m with h | h
  · rw [Int.emod_eq_of_lt (by omega) h]
    omega
  · rw [← Int.sub_emod_right, Int.emod_eq_of_lt (by omega) (by omega)]
    omega

end Wrap
