import Mathlib.Data.List.Pairwise
import Mathlib.Order.Lattice
import Mathlib.Data.Int.Order.Basic

/-!
# Searching a table by position

A table lists positions with a value for each, and both go up. It is not at hand as a whole: one reads the first entry
from a position on (`first`). A search for a value keeps an entry on each side of it and a limit, behind which there is
nothing before the later entry (`Around`). Reading between the two brings them closer (`Around.narrow`), and once they
have met, both are nearest to the value (`Around.nearest`).
-/

namespace Scan
variable {τ : Type*} [LinearOrder τ]

def Ordered (T : List (ℤ × τ)) : Prop := T.Pairwise fun x y => x.1 < y.1 ∧ x.2 ≤ y.2

/-- The first entry from `p` on. -/
def first (T : List (ℤ × τ)) (p : ℤ) : Option (ℤ × τ) := T.find? fun x => p ≤ x.1

/-- An entry on the wanted side of `w` with no other one between them, or the last one on the other side. -/
def Nearest (T : List (ℤ × τ)) (w : τ) (backward : Bool) (x : ℤ × τ) : Prop :=
  x ∈ T ∧ if backward then
      (x.2 ≤ w ∧ ∀ y ∈ T, y.2 ≤ w → y.2 ≤ x.2) ∨ ∀ y ∈ T, w < y.2 ∧ x.2 ≤ y.2
    else (w ≤ x.2 ∧ ∀ y ∈ T, w ≤ y.2 → x.2 ≤ y.2) ∨ ∀ y ∈ T, y.2 < w ∧ y.2 ≤ x.2

/-- A bound to begin with: an entry that is not after `w`, or the first one. -/
structure Lower (T : List (ℤ × τ)) (w : τ) (x : ℤ × τ) : Prop where
  mem : x ∈ T
  value : x.2 ≤ w ∨ ∀ y ∈ T, x.2 ≤ y.2

/-- One that is not before `w`, or the last one. -/
structure Upper (T : List (ℤ × τ)) (w : τ) (x : ℤ × τ) (limit : ℤ) : Prop where
  mem : x ∈ T
  free : ∀ y ∈ T, limit < y.1 → x.1 ≤ y.1
  limit_le : limit ≤ x.1
  value : w ≤ x.2 ∨ ∀ y ∈ T, y.2 ≤ x.2

/-- `lo` and `hi` are around `w`, or both are at it. -/
structure Around (T : List (ℤ × τ)) (w : τ) (lo hi : ℤ × τ) (limit : ℤ) : Prop where
  lo_mem : lo ∈ T
  hi_mem : hi ∈ T
  free : ∀ x ∈ T, limit < x.1 → hi.1 ≤ x.1
  limit_le : limit ≤ hi.1
  sides : lo.2 < w ∧ w < hi.2 ∨ lo.2 = w ∧ hi.2 = w ∧ limit < lo.1

variable {T : List (ℤ × τ)} {w : τ} {lo hi x y : ℤ × τ} {limit p : ℤ}

theorem Ordered.cases (hT : Ordered T) (hx : x ∈ T) (hy : y ∈ T) :
    x = y ∨ (x.1 < y.1 ∧ x.2 ≤ y.2) ∨ (y.1 < x.1 ∧ y.2 ≤ x.2) := by
  obtain ⟨i, hi, rfl⟩ := List.getElem_of_mem hx
  obtain ⟨j, hj, rfl⟩ := List.getElem_of_mem hy
  have h := List.pairwise_iff_getElem.mp hT
  rcases Nat.lt_trichotomy i j with hij | rfl | hij
  · exact .inr (.inl (h i j hi hj hij))
  · exact .inl rfl
  · exact .inr (.inr (h j i hj hi hij))

theorem Ordered.le (hT : Ordered T) (hx : x ∈ T) (hy : y ∈ T) (h : x.1 ≤ y.1) : x.2 ≤ y.2 := by
  rcases hT.cases hx hy with rfl | ⟨-, hle⟩ | ⟨hlt, -⟩
  · exact le_rfl
  · exact hle
  · omega

theorem first_some (hT : Ordered T) (h : first T p = some x) : x ∈ T ∧ p ≤ x.1 ∧ ∀ y ∈ T, y.1 < x.1 → y.1 < p := by
  obtain ⟨hp, l, r, rfl, hl⟩ := List.find?_eq_some_iff_append.mp h
  refine ⟨List.mem_append_right _ List.mem_cons_self, by simpa using hp, ?_⟩
  intro y hy hlt
  have hr := (List.pairwise_cons.mp (List.pairwise_append.mp hT).2.1).1
  rcases List.mem_append.mp hy with hy | hy
  · simpa using hl y hy
  · rcases List.mem_cons.mp hy with rfl | hy
    · omega
    · have := (hr y hy).1
      omega

omit [LinearOrder τ] in
theorem first_none (h : first T p = none) (hy : y ∈ T) : y.1 < p := by
  have := List.find?_eq_none.mp h y hy
  simpa using this

omit [LinearOrder τ] in
theorem exists_first (hy : y ∈ T) (h : p ≤ y.1) : ∃ x, first T p = some x := by
  cases hf : first T p with
  | some x => exact ⟨x, rfl⟩
  | none =>
    have := first_none hf hy
    omega

theorem Lower.nearest (h : Lower T w x) (hw : w ≤ x.2) (backward : Bool) : Nearest T w backward x := by
  refine ⟨h.mem, ?_⟩
  split_ifs
  · rcases hw.lt_or_eq with hlt | rfl
    · have hall := h.value.resolve_left (not_le.mpr hlt)
      exact .inr fun y hy => ⟨hlt.trans_le (hall y hy), hall y hy⟩
    · exact .inl ⟨le_rfl, fun y _ hle => hle⟩
  · refine .inl ⟨hw, fun y hy hle => ?_⟩
    rcases h.value with hv | hv
    · exact hv.trans hle
    · exact hv y hy

theorem Upper.nearest (h : Upper T w x limit) (hw : x.2 ≤ w) (backward : Bool) : Nearest T w backward x := by
  refine ⟨h.mem, ?_⟩
  split_ifs
  · refine .inl ⟨hw, fun y hy hle => ?_⟩
    rcases h.value with hv | hv
    · exact hle.trans hv
    · exact hv y hy
  · rcases hw.lt_or_eq with hlt | rfl
    · have hall := h.value.resolve_left (not_le.mpr hlt)
      exact .inr fun y hy => ⟨(hall y hy).trans_lt hlt, hall y hy⟩
    · exact .inl ⟨le_rfl, fun y _ hle => hle⟩

theorem Lower.around (hl : Lower T w lo) (hu : Upper T w hi limit) (hlo : lo.2 < w) (hhi : w < hi.2) :
    Around T w lo hi limit :=
  ⟨hl.mem, hu.mem, hu.free, hu.limit_le, .inl ⟨hlo, hhi⟩⟩

namespace Around

/-- Before the limit is reached the entries are apart. -/
theorem apart (h : Around T w lo hi limit) (hlt : lo.1 < limit) : lo.2 < w ∧ w < hi.2 := by
  rcases h.sides with hs | ⟨-, -, hs⟩
  · exact hs
  · omega

/-- The entry that is read from a position between `lo` and the limit replaces one of the two, or both. -/
theorem narrow (hT : Ordered T) (h : Around T w lo hi limit) (hp : lo.1 < p) (hl : p ≤ limit) :
    ∃ x, first T p = some x ∧
      Around T w (if x.2 ≤ w then x else lo) (if w ≤ x.2 then x else hi) (if w ≤ x.2 then p - 1 else limit) := by
  have hle := h.limit_le
  obtain ⟨x, hx⟩ := exists_first h.hi_mem (hl.trans hle)
  obtain ⟨hmem, hpx, hbefore⟩ := first_some hT hx
  obtain ⟨hlo, hhi⟩ := h.apart (hp.trans_le hl)
  refine ⟨x, hx, ?_⟩
  by_cases hw : w ≤ x.2
  · have hfree : ∀ y ∈ T, p - 1 < y.1 → x.1 ≤ y.1 := by
      intro y hy hlt
      by_contra hc
      have := hbefore y hy (by omega)
      omega
    rw [if_pos hw, if_pos hw]
    split_ifs with hxw
    · exact ⟨hmem, hmem, hfree, by omega, .inr ⟨le_antisymm hxw hw, le_antisymm hxw hw, by omega⟩⟩
    · exact ⟨h.lo_mem, hmem, hfree, by omega, .inl ⟨hlo, not_le.mp hxw⟩⟩
  · rw [if_neg hw, if_neg hw, if_pos (not_le.mp hw).le]
    exact ⟨hmem, h.hi_mem, h.free, hle, .inl ⟨not_le.mp hw, hhi⟩⟩

/-- With nothing left between them, both entries are nearest. -/
theorem nearest (hT : Ordered T) (h : Around T w lo hi limit) (hstop : limit ≤ lo.1) (backward : Bool) :
    Nearest T w backward (if backward then lo else hi) := by
  rcases h.sides with ⟨hlo, hhi⟩ | ⟨hlo, hhi, -⟩
  · have hsplit : ∀ y ∈ T, y.2 ≤ lo.2 ∨ hi.2 ≤ y.2 := by
      intro y hy
      rcases le_or_gt y.1 lo.1 with hle | hlt
      · exact .inl (hT.le hy h.lo_mem hle)
      · exact .inr (hT.le h.hi_mem hy (h.free y hy (by omega)))
    cases backward with
    | true =>
      refine ⟨h.lo_mem, .inl ⟨hlo.le, fun y hy hle => ?_⟩⟩
      exact (hsplit y hy).resolve_right fun hge => absurd (hhi.trans_le hge) (not_lt.mpr hle)
    | false =>
      refine ⟨h.hi_mem, .inl ⟨hhi.le, fun y hy hle => ?_⟩⟩
      exact (hsplit y hy).resolve_left fun hge => absurd (hge.trans_lt hlo) (not_lt.mpr hle)
  · cases backward with
    | true => exact Lower.nearest ⟨h.lo_mem, .inl hlo.le⟩ hlo.ge true
    | false => exact Lower.nearest ⟨h.hi_mem, .inl hhi.le⟩ hhi.ge false

end Around
end Scan
