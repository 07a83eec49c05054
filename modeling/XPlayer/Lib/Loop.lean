import Mathlib.Data.Nat.Notation
import Mathlib.Data.Sum.Basic

/-!
# Loops with a rank

A `Loop S R` is the body of a `while` loop on states `S`: a turn goes on with another state or leaves the
loop with a result. The rank falls in every turn that goes on, so the loop ends, and `run` is its result.
`run` recurses on the rank, so that a loop on concrete data can be evaluated.

A loop is unfolded with `run_eq`; a fact about its result comes from an invariant (`run_inv`), or from an
induction over its turns (`run_induct`). `trace` lists what the turns put out.
-/

/-- The body of a loop. -/
structure Loop (S R : Type*) where
  turn : S → S ⊕ R
  rank : S → ℕ
  turn_lt : ∀ s s', turn s = .inl s' → rank s' < rank s

namespace Loop
variable {S R : Type*} (L : Loop S R) {s s' : S} {r : R}

/-- The loop in at most `n` turns. -/
def runN : (n : ℕ) → (s : S) → L.rank s < n → R
  | 0, _, h => absurd h (Nat.not_lt_zero _)
  | n + 1, s, h =>
    match e : L.turn s with
    | .inl s' => runN n s' (Nat.lt_of_lt_of_le (L.turn_lt s s' e) (Nat.le_of_lt_succ h))
    | .inr r => r

/-- The result of the loop. -/
def run (s : S) : R := L.runN (L.rank s + 1) s (Nat.lt_succ_self _)

theorem runN_stop {n : ℕ} (h : L.rank s < n) (e : L.turn s = .inr r) : L.runN n s h = r := by
  cases n with
  | zero => exact absurd h (Nat.not_lt_zero _)
  | succ n =>
    rw [runN]
    split <;> rename_i he <;> rw [e] at he
    · cases he
    · exact (Sum.inr.inj he).symm

theorem runN_turn {n : ℕ} (h : L.rank s < n + 1) (e : L.turn s = .inl s') :
    L.runN (n + 1) s h = L.runN n s' (Nat.lt_of_lt_of_le (L.turn_lt s s' e) (Nat.le_of_lt_succ h)) := by
  rw [runN]
  split <;> rename_i he <;> rw [e] at he
  · cases he
    rfl
  · cases he

/-- The bound on the turns does not matter. -/
theorem runN_eq {m n : ℕ} (hm : L.rank s < m) (hn : L.rank s < n) : L.runN m s hm = L.runN n s hn := by
  induction m generalizing n s with
  | zero => exact absurd hm (Nat.not_lt_zero _)
  | succ m ih =>
    obtain ⟨n, rfl⟩ : ∃ k, n = k + 1 := ⟨n - 1, by omega⟩
    rcases e : L.turn s with s' | r
    · rw [L.runN_turn hm e, L.runN_turn hn e]
      exact ih _ _
    · rw [L.runN_stop hm e, L.runN_stop hn e]

theorem run_stop (e : L.turn s = .inr r) : L.run s = r := L.runN_stop _ e

theorem run_turn (e : L.turn s = .inl s') : L.run s = L.run s' := by
  rw [run, L.runN_turn _ e]
  exact L.runN_eq _ _

theorem run_eq (s : S) : L.run s = (L.turn s).elim L.run id := by
  rcases e : L.turn s with s' | r
  · exact L.run_turn e
  · exact L.run_stop e

/-- Induction over the turns: what holds where the loop stops, and before a turn if it holds after it,
holds of every state and the result of the loop from there. -/
theorem run_induct {P : S → R → Prop} (stop : ∀ s r, L.turn s = .inr r → P s r)
    (turn : ∀ s s', L.turn s = .inl s' → P s' (L.run s') → P s (L.run s')) (s : S) : P s (L.run s) := by
  induction h : L.rank s using Nat.strongRecOn generalizing s with
  | _ n ih =>
    rcases e : L.turn s with s' | r
    · rw [L.run_turn e]
      exact turn s s' e (ih _ (h ▸ L.turn_lt s s' e) s' rfl)
    · rw [L.run_stop e]
      exact stop s r e

theorem run_inv {I : S → Prop} {Q : R → Prop} (turn : ∀ s s', I s → L.turn s = .inl s' → I s')
    (stop : ∀ s r, I s → L.turn s = .inr r → Q r) (hI : I s) : Q (L.run s) :=
  L.run_induct (P := fun s r => I s → Q r) (fun s r e hs => stop s r hs e)
    (fun s s' e ih hs => ih (turn s s' hs e)) s hI

/-! ### Output -/

section Output
variable {O : Type*} (out : S → List O)

/-- The output of at most `n` turns, where the turn at `s` puts out `out s`. -/
def traceN : ℕ → S → List O
  | 0, _ => []
  | n + 1, s =>
    out s ++ match L.turn s with
      | .inl s' => traceN n s'
      | .inr _ => []

/-- The output of the whole loop. -/
def trace (s : S) : List O := L.traceN out (L.rank s + 1) s

theorem traceN_eq {m n : ℕ} (hm : L.rank s < m) (hn : L.rank s < n) : L.traceN out m s = L.traceN out n s := by
  induction m generalizing n s with
  | zero => exact absurd hm (Nat.not_lt_zero _)
  | succ m ih =>
    obtain ⟨n, rfl⟩ : ∃ k, n = k + 1 := ⟨n - 1, by omega⟩
    simp only [traceN]
    rcases e : L.turn s with s' | r
    · have hlt := L.turn_lt s s' e
      simp only [ih (show L.rank s' < m by omega) (show L.rank s' < n by omega)]
    · rfl

theorem trace_stop (e : L.turn s = .inr r) : L.trace out s = out s := by
  simp only [trace, traceN, e, List.append_nil]

theorem trace_turn (e : L.turn s = .inl s') : L.trace out s = out s ++ L.trace out s' := by
  have h : L.traceN out (L.rank s) s' = L.trace out s' :=
    L.traceN_eq out (L.turn_lt s s' e) (Nat.lt_succ_self _)
  rw [trace, traceN]
  simp only [e, h]

end Output

end Loop
