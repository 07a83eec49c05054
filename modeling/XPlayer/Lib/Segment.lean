import Mathlib.Data.List.Basic

/-!
# Segments of a list

`Segment xs p ys` says that `ys` is found in `xs` from the position `p` on. It is how a buffer relates to what it
was filled from: a segment is cut and continued at its ends (`append_iff`), and the position and the length determine
it (`eq_take`).
-/

/-- `xs` has `ys` from the position `p` on. -/
def Segment {α : Type*} (xs : List α) (p : ℕ) (ys : List α) : Prop := ys <+: xs.drop p

namespace Segment
variable {α : Type*} {xs ys zs : List α} {p n : ℕ}

@[simp] theorem nil : Segment xs p [] := List.nil_prefix

theorem append_iff : Segment xs p (ys ++ zs) ↔ Segment xs p ys ∧ Segment xs (p + ys.length) zs := by
  rw [Segment, Segment, Segment, ← List.drop_drop]
  constructor
  · rintro ⟨ws, h⟩
    rw [List.append_assoc] at h
    exact ⟨⟨_, h⟩, ⟨ws, by rw [← h, List.drop_left]⟩⟩
  · rintro ⟨⟨us, h⟩, ⟨ws, h'⟩⟩
    rw [← h, List.drop_left] at h'
    exact ⟨ws, by rw [List.append_assoc, h', h]⟩

theorem append (h : Segment xs p ys) (h' : Segment xs (p + ys.length) zs) : Segment xs p (ys ++ zs) :=
  append_iff.mpr ⟨h, h'⟩

/-- A segment is its first part and the rest. -/
theorem cut (h : Segment xs p ys) (hn : n ≤ ys.length) :
    Segment xs p (ys.take n) ∧ Segment xs (p + n) (ys.drop n) := by
  have := append_iff.mp ((List.take_append_drop n ys).symm ▸ h)
  rwa [List.length_take, Nat.min_eq_left hn] at this

theorem take (h : Segment xs p ys) (n : ℕ) : Segment xs p (ys.take n) := (List.take_prefix n ys).trans h

theorem drop (h : Segment xs p ys) (hn : n ≤ ys.length) : Segment xs (p + n) (ys.drop n) := (h.cut hn).2

theorem eq_take (h : Segment xs p ys) : ys = (xs.drop p).take ys.length := List.prefix_iff_eq_take.mp h

theorem length_le (h : Segment xs p ys) (hy : ys ≠ []) : p + ys.length ≤ xs.length := by
  have h1 := List.IsPrefix.length_le h
  have h2 := List.length_pos_iff.mpr hy
  rw [List.length_drop] at h1
  omega

theorem getElem? (h : Segment xs p ys) {a : α} (ha : ys[n]? = some a) : xs[p + n]? = some a := by
  obtain ⟨zs, hz⟩ := h
  rw [← List.getElem?_drop, ← hz, List.getElem?_append_left (List.getElem?_eq_some_iff.mp ha).1, ha]

theorem eq_drop (h : Segment xs p ys) (hl : xs.length ≤ p + ys.length) : ys = xs.drop p := by
  rw [h.eq_take, List.take_of_length_le]
  rw [List.length_drop]
  omega

end Segment
