import Mathlib.Data.Int.Order.Basic
import Mathlib.Tactic.Zify

/-!
# Rasters

Rows of bytes at a pitch, and images whose texels may be undefined: `patch` overwrites the texels of a region at the
corner, and does nothing if the region does not fit.
-/

/-- All bytes of `h` rows of `w` bytes at a pitch lie below `size` if and only if the end of the last row does. -/
theorem rows_lt_iff {w h pitch : ℕ} {size : ℤ} :
    (∀ y < h, ∀ x < w, ((y * pitch + x : ℕ) : ℤ) < size) ↔
      w = 0 ∨ h = 0 ∨ (((h - 1) * pitch + w : ℕ) : ℤ) ≤ size := by
  constructor
  · intro hs
    rcases Nat.eq_zero_or_pos w with hw | hw
    · exact .inl hw
    rcases Nat.eq_zero_or_pos h with hh | hh
    · exact .inr (.inl hh)
    have hlast := hs (h - 1) (by omega) (w - 1) (by omega)
    have heq : (h - 1) * pitch + w = (h - 1) * pitch + (w - 1) + 1 := by omega
    rw [heq]
    exact .inr (.inr (by omega))
  · rintro hs y hy x hx
    have hrow : y * pitch ≤ (h - 1) * pitch := Nat.mul_le_mul_right _ (by omega)
    rcases hs with rfl | rfl | hs
    · omega
    · omega
    · omega

structure Raster (α : Type*) where
  width : ℕ
  height : ℕ
  texel : ℕ → ℕ → Option α

namespace Raster
variable {α : Type*}

/-- New storage. -/
def blank (w h : ℕ) : Raster α := ⟨w, h, fun _ _ => none⟩

def patch (r : Raster α) (w h : ℕ) (f : ℕ → ℕ → α) : Raster α :=
  if w ≤ r.width ∧ h ≤ r.height then
    { r with texel := fun x y => if x < w ∧ y < h then some (f x y) else r.texel x y }
  else r

/-- What is defined satisfies `p`. -/
def All (p : α → Prop) (r : Raster α) : Prop := ∀ x y, ∀ a ∈ r.texel x y, p a

section
variable {r : Raster α} {w h x y : ℕ} {f : ℕ → ℕ → α} {p : α → Prop}

@[simp] theorem patch_width : (r.patch w h f).width = r.width := by
  unfold patch
  split <;> rfl

@[simp] theorem patch_height : (r.patch w h f).height = r.height := by
  unfold patch
  split <;> rfl

theorem patch_refused (hr : ¬ (w ≤ r.width ∧ h ≤ r.height)) : r.patch w h f = r := if_neg hr

theorem patch_inside (hr : w ≤ r.width ∧ h ≤ r.height) (hx : x < w) (hy : y < h) :
    (r.patch w h f).texel x y = some (f x y) := by
  unfold patch
  rw [if_pos hr]
  exact if_pos ⟨hx, hy⟩

theorem patch_outside (ho : ¬ (x < w ∧ y < h)) : (r.patch w h f).texel x y = r.texel x y := by
  unfold patch
  split
  · exact if_neg ho
  · rfl

theorem all_blank : (blank w h : Raster α).All p := fun _ _ _ ha => absurd ha (Option.not_mem_none _)

theorem All.patch (hr : r.All p) (hf : ∀ x y, p (f x y)) : (r.patch w h f).All p := by
  unfold Raster.patch
  split
  · intro x y a ha
    simp only at ha
    split at ha
    · cases ha
      exact hf x y
    · exact hr x y a ha
  · exact hr

/-- A texel that changes had to be in the region, and the region fits. -/
theorem of_patch_ne (hne : (r.patch w h f).texel x y ≠ r.texel x y) :
    (w ≤ r.width ∧ h ≤ r.height) ∧ x < w ∧ y < h := by
  constructor
  · by_contra hr
    exact hne (by rw [patch_refused hr])
  · by_contra ho
    exact hne (patch_outside ho)

end

end Raster
