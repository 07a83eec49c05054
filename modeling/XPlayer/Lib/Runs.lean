import Mathlib.Data.List.Basic

/-!
# Run-length coded sequences

A table of runs `(n, a)` stands for the sequence in which each `a` comes `n` times. `at` is its `k`-th value.
A reader keeps a `Cursor`, the run it is in and how much of it is behind; `step` moves it on by one and `find`
looks it up for a position. `Located` says that a cursor belongs to a position: `step` keeps this for the next
position, `find` establishes it within the table, and the cursor then shows the value (`Located.value_eq`).
-/

/-- A table of runs. -/
abbrev Runs (α : Type*) := List (ℕ × α)

namespace Runs
variable {α : Type*} {rs : Runs α} {k : ℕ}

/-- The length of the sequence. -/
def total : Runs α → ℕ
  | [] => 0
  | (n, _) :: rs => n + total rs

/-- The value at a position. -/
def «at» : Runs α → ℕ → Option α
  | [], _ => none
  | (n, a) :: rs, k => if k < n then some a else «at» rs (k - n)

/-- No run is empty. -/
def Positive (rs : Runs α) : Prop := ∀ r ∈ rs, 0 < r.1

/-- The run a reader is in, and how many of it are behind. -/
structure Cursor where
  index : ℕ := 0
  sample : ℕ := 0
  deriving DecidableEq

/-- The cursor `c` belongs to the position `k`. -/
def Located : Runs α → Cursor → ℕ → Prop
  | [], _, _ => True
  | (n, _) :: _, ⟨0, s⟩, k => s = k ∧ k < n
  | (n, _) :: rs, ⟨i + 1, s⟩, k => n ≤ k ∧ Located rs ⟨i, s⟩ (k - n)

def value (rs : Runs α) (c : Cursor) : Option α := (rs[c.index]?).map Prod.snd

/-- One position further, and on to the next run at the end of this one. -/
def step (rs : Runs α) (c : Cursor) : Cursor :=
  match rs[c.index]? with
  | none => c
  | some r => if r.1 = c.sample + 1 then ⟨c.index + 1, 0⟩ else ⟨c.index, c.sample + 1⟩

/-- The cursor for the position `k`: the first run that ends after it. -/
def find : Runs α → ℕ → Option Cursor
  | [], _ => none
  | (n, _) :: rs, k => if k < n then some ⟨0, k⟩ else (find rs (k - n)).map fun c => ⟨c.index + 1, c.sample⟩

@[simp] theorem total_nil : total ([] : Runs α) = 0 := rfl

@[simp] theorem total_cons (r : ℕ × α) (rs : Runs α) : total (r :: rs) = r.1 + total rs := rfl

theorem Located.value_eq {c : Cursor} (h : Located rs c k) : rs.value c = rs.at k := by
  induction rs generalizing c k with
  | nil => rfl
  | cons r rs ih =>
    obtain ⟨n, a⟩ := r
    obtain ⟨_ | i, s⟩ := c
    · obtain ⟨rfl, hk⟩ := h
      simp [value, «at», hk]
    · obtain ⟨hn, h⟩ := h
      rw [«at», if_neg (by omega), ← ih h]
      rfl

theorem located_start (hp : rs.Positive) : Located rs {} 0 := by
  cases rs with
  | nil => trivial
  | cons r rs => exact ⟨rfl, hp r List.mem_cons_self⟩

theorem Located.step (hp : rs.Positive) {c : Cursor} (h : Located rs c k) : Located rs (rs.step c) (k + 1) := by
  induction rs generalizing c k with
  | nil => trivial
  | cons r rs ih =>
    obtain ⟨n, a⟩ := r
    obtain ⟨_ | i, s⟩ := c
    · obtain ⟨rfl, hk⟩ := h
      simp only [Runs.step, List.getElem?_cons_zero]
      split_ifs with hn
      · refine ⟨by omega, ?_⟩
        rw [hn, Nat.sub_self]
        exact located_start fun r hr => hp r (List.mem_cons_of_mem _ hr)
      · exact ⟨rfl, by omega⟩
    · obtain ⟨hn, h⟩ := h
      have hstep : Runs.step ((n, a) :: rs) ⟨i + 1, s⟩ =
          ⟨(Runs.step rs ⟨i, s⟩).index + 1, (Runs.step rs ⟨i, s⟩).sample⟩ := by
        simp only [Runs.step, List.getElem?_cons_succ]
        rcases rs[i]? with _ | r
        · rfl
        · dsimp only
          split_ifs <;> rfl
      rw [hstep]
      refine ⟨by omega, ?_⟩
      rw [show k + 1 - n = k - n + 1 by omega]
      exact ih (fun r hr => hp r (List.mem_cons_of_mem _ hr)) h

theorem find_located {c : Cursor} (h : rs.find k = some c) : Located rs c k := by
  induction rs generalizing c k with
  | nil => trivial
  | cons r rs ih =>
    obtain ⟨n, a⟩ := r
    unfold find at h
    split_ifs at h with hk
    · cases h
      exact ⟨rfl, hk⟩
    · obtain ⟨c', hc', rfl⟩ := Option.map_eq_some_iff.mp h
      exact ⟨by omega, ih hc'⟩

theorem find_none : rs.find k = none ↔ rs.total ≤ k := by
  induction rs generalizing k with
  | nil => simp [find]
  | cons r rs ih =>
    obtain ⟨n, a⟩ := r
    unfold find
    rw [total_cons]
    split_ifs with hk
    · simp only [false_iff]
      omega
    · rw [Option.map_eq_none_iff, ih]
      omega

/-- Beyond the table a cursor belongs to a position if and only if it has left the table. -/
theorem located_beyond (hk : rs.total ≤ k) {c : Cursor} : Located rs c k ↔ rs.length ≤ c.index := by
  induction rs generalizing c k with
  | nil => simp [Located]
  | cons r rs ih =>
    obtain ⟨n, a⟩ := r
    rw [total_cons] at hk
    obtain ⟨_ | i, s⟩ := c
    · simp only [Located, List.length_cons]
      omega
    · simp only [Located, List.length_cons]
      rw [ih (by omega)]
      simp only
      omega

theorem Located.index_lt {c : Cursor} (h : Located rs c k) (hk : k < rs.total) : c.index < rs.length := by
  by_contra hge
  induction rs generalizing c k with
  | nil => simp at hk
  | cons r rs ih =>
    obtain ⟨n, a⟩ := r
    rw [total_cons] at hk
    obtain ⟨_ | i, s⟩ := c
    · simp at hge
    · obtain ⟨hn, h⟩ := h
      exact ih h (by omega) (by simpa using hge)

/-- At the end of the last run the sequence ends. -/
theorem Located.total_eq {c : Cursor} (h : Located rs c k) (hc : c.index + 1 = rs.length) {r : ℕ × α}
    (hr : rs[c.index]? = some r) (hs : r.1 = c.sample + 1) : rs.total = k + 1 := by
  induction rs generalizing c k with
  | nil => cases hr
  | cons q rs ih =>
    obtain ⟨n, a⟩ := q
    rw [total_cons]
    obtain ⟨_ | i, s⟩ := c
    · obtain ⟨rfl, -⟩ := h
      obtain rfl : rs = [] := by simpa using hc
      cases hr
      simpa using hs
    · obtain ⟨hn, h⟩ := h
      have := ih h (by simpa using hc) hr hs
      dsimp only
      omega

end Runs
