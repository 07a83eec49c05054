import Mathlib.Logic.Function.Basic
import Mathlib.Data.List.Basic

/-!
# Objects behind pointers

Objects of several kinds that a program allocates and frees through one pointer for each kind `κ`. `live` are the
objects that are not freed; an allocation overwrites the pointer, whatever it is. `Tight k` says that the pointer still
reaches every object of the kind, so that there is at most one and none once the pointer is null; it is kept as long as
nothing is allocated over a pointer that is not null.
-/

structure Slots (κ : Type*) where
  ptr : κ → Option ℕ := fun _ => none
  live : κ → List ℕ := fun _ => []
  /-- The next object. -/
  fresh : ℕ := 0

namespace Slots
variable {κ : Type*} {m : Slots κ} {j k : κ}

/-- The pointer reaches all objects of the kind. -/
def Tight (k : κ) (m : Slots κ) : Prop := m.live k = (m.ptr k).toList

theorem Tight.length_le (h : Tight k m) : (m.live k).length ≤ 1 := by
  rw [h]
  exact Option.length_toList_le

theorem Tight.nil (h : Tight k m) (hp : m.ptr k = none) : m.live k = [] := by
  rw [h, hp]
  rfl

variable [DecidableEq κ]

def alloc (k : κ) (m : Slots κ) : Slots κ where
  ptr := Function.update m.ptr k (some m.fresh)
  live := Function.update m.live k (m.fresh :: m.live k)
  fresh := m.fresh + 1

/-- `if (p) free(&p)`. -/
def free (k : κ) (m : Slots κ) : Slots κ :=
  match m.ptr k with
  | none => m
  | some x => { m with ptr := Function.update m.ptr k none, live := Function.update m.live k ((m.live k).erase x) }

@[simp] theorem alloc_self : (m.alloc k).ptr k = some m.fresh := Function.update_self ..

theorem alloc_ne (h : j ≠ k) : (m.alloc k).ptr j = m.ptr j := Function.update_of_ne h ..

@[simp] theorem free_self : (m.free k).ptr k = none := by
  unfold free
  split
  · assumption
  · exact Function.update_self ..

theorem free_ne (h : j ≠ k) : (m.free k).ptr j = m.ptr j := by
  unfold free
  split
  · rfl
  · exact Function.update_of_ne h ..

theorem free_none (h : m.ptr j = none) : (m.free k).ptr j = none := by
  by_cases hj : j = k
  · rw [hj, free_self]
  · rw [free_ne hj, h]

@[simp] theorem alloc_live_self : (m.alloc k).live k = m.fresh :: m.live k := Function.update_self ..

theorem alloc_live_ne (h : j ≠ k) : (m.alloc k).live j = m.live j := Function.update_of_ne h ..

theorem free_live_ne (h : j ≠ k) : (m.free k).live j = m.live j := by
  unfold free
  split
  · rfl
  · exact Function.update_of_ne h ..

theorem Tight.alloc (h : Tight j m) (hk : j = k → m.ptr k = none) : Tight j (m.alloc k) := by
  unfold Tight
  by_cases hj : j = k
  · subst hj
    have hl : m.live j = [] := by rw [h, hk rfl]; rfl
    rw [alloc_self, alloc_live_self, hl]
    rfl
  · rw [alloc_ne hj, alloc_live_ne hj]
    exact h

theorem Tight.free (h : Tight j m) : Tight j (m.free k) := by
  unfold Tight
  by_cases hj : j = k
  · subst hj
    rw [free_self]
    unfold Slots.free
    split
    · rename_i hp
      rw [h, hp]
    · rename_i x hp
      show Function.update m.live j _ j = _
      rw [Function.update_self, h, hp]
      exact List.erase_cons_head ..
  · rw [free_ne hj, free_live_ne hj]
    exact h

end Slots
