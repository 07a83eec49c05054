import XPlayer.Lib.System
import Mathlib.Logic.Function.Basic
import Mathlib.Order.Defs.Unbundled

/-!
# Locking code and the order of its mutexes

`Code M` is the locking skeleton of a piece of code: its critical sections and the choices and loops
around them. Threads that run such code are the system `locks`: each has the code it has still to run
(`todo`) and the mutexes it holds, and a mutex is taken only when nobody holds it.

`Code.Ordered lt held c` says that `c`, started with the mutexes `held`, requests a mutex only when it
is above all that are held. It is a static check of the code, and it is enough for the same to hold in
every reachable state (`requests_above`) and for waiting not to be cyclic (`not_waits_cyclic`).
-/

namespace Locks

/-- The locking skeleton of a piece of code. -/
inductive Code (M : Type)
  | skip
  /-- `m.lock(); body; m.unlock()`. -/
  | sec (m : M) (body : Code M)
  /-- `m.lock()`, and the mutex is never unlocked. -/
  | leak (m : M)
  | seq (c d : Code M)
  | choose (f : ℕ → Code M)
  | loop (c : Code M)

variable {M T : Type}

/-- Either of two branches. -/
def Code.alt (c d : Code M) : Code M := .choose fun n => if n = 0 then c else d

/-- Maybe. -/
def Code.opt (c : Code M) : Code M := .alt c .skip

/-- What a thread has still to do. -/
inductive Item (M : Type)
  | run (c : Code M)
  | release (m : M)

structure State (T M : Type) where
  todo : T → List (Item M)
  held : T → List M
  owner : M → Option T

section
variable [DecidableEq T] [DecidableEq M]

/-- One step of the thread `t`; `n` resolves a choice, a loop ends when it is `0`. -/
def step : T × ℕ → State T M → Option (State T M)
  | (t, n), s =>
    let go (k : List (Item M)) := { s with todo := Function.update s.todo t k }
    let lock (m : M) (k : List (Item M)) :=
      if s.owner m = none then
        some { go k with held := Function.update s.held t (m :: s.held t),
                         owner := Function.update s.owner m (some t) }
      else none
    match s.todo t with
    | [] => none
    | .run .skip :: k => some (go k)
    | .run (.sec m body) :: k => lock m (.run body :: .release m :: k)
    | .run (.leak m) :: k => lock m k
    | .run (.seq c d) :: k => some (go (.run c :: .run d :: k))
    | .run (.choose f) :: k => some (go (.run (f n) :: k))
    | .run (.loop c) :: k => some (go (if n = 0 then k else .run c :: .run (.loop c) :: k))
    | .release m :: k =>
      some { go k with held := Function.update s.held t ((s.held t).erase m),
                       owner := Function.update s.owner m none }

/-- Threads that run the code `code`. -/
def locks (code : T → Code M) : Sys (State T M) (T × ℕ) where
  init s := s = { todo := fun t => [.run (code t)], held := fun _ => [], owner := fun _ => none }
  step := step

end

/-- The thread `t` is about to lock `m`. -/
def State.Requests (s : State T M) (t : T) (m : M) : Prop :=
  (∃ body k, s.todo t = .run (.sec m body) :: k) ∨ ∃ k, s.todo t = .run (.leak m) :: k

/-- `t` requests a mutex that `t'` holds. -/
def State.Waits (s : State T M) (t t' : T) : Prop := ∃ m, s.Requests t m ∧ m ∈ s.held t'

section
variable (lt : M → M → Prop)

/-- The code `c`, started with the mutexes `held`, requests each mutex above all that are held, and
unlocks what it locks. -/
def Code.Ordered (held : List M) : Code M → Prop
  | .skip => True
  | .sec m body => (∀ h ∈ held, lt h m) ∧ body.Ordered (m :: held)
  | .leak _ => False
  | .seq c d => c.Ordered held ∧ d.Ordered held
  | .choose f => ∀ n, (f n).Ordered held
  | .loop c => c.Ordered held

/-- The same for what a thread has still to do. -/
def OrderedTodo : List M → List (Item M) → Prop
  | _, [] => True
  | held, .run c :: k => c.Ordered lt held ∧ OrderedTodo held k
  | held, .release m :: k => ∃ held', held = m :: held' ∧ OrderedTodo held' k

variable {lt}

@[simp] theorem Code.ordered_alt {held : List M} {c d : Code M} :
    (Code.alt c d).Ordered lt held ↔ c.Ordered lt held ∧ d.Ordered lt held := by
  simp only [Code.alt, Code.Ordered]
  refine ⟨fun h => ⟨by simpa using h 0, by simpa using h 1⟩, fun h n => ?_⟩
  split
  · exact h.1
  · exact h.2

@[simp] theorem Code.ordered_opt {held : List M} {c : Code M} :
    (Code.opt c).Ordered lt held ↔ c.Ordered lt held := by
  simp [Code.opt, Code.Ordered]

variable [DecidableEq T] [DecidableEq M]

theorem ordered_step {s s' : State T M} {t : T} {n : ℕ} (hs : step (t, n) s = some s')
    (h : ∀ t, OrderedTodo lt (s.held t) (s.todo t)) (t' : T) : OrderedTodo lt (s'.held t') (s'.todo t') := by
  have ht := h t
  simp only [step] at hs
  -- the thread `t` goes on with `k` and holds `hd`
  have hgo : ∀ {k : List (Item M)} {hd : List M}, OrderedTodo lt hd k →
      OrderedTodo lt (Function.update s.held t hd t') (Function.update s.todo t k t') := by
    intro k hd hk
    by_cases he : t' = t
    · subst he; simpa using hk
    · simpa [he] using h t'
  have hstay : ∀ {k : List (Item M)}, OrderedTodo lt (s.held t) k →
      OrderedTodo lt (s.held t') (Function.update s.todo t k t') := by
    intro k hk
    have := hgo hk
    rwa [Function.update_eq_self] at this
  split at hs
  · cases hs
  · rename_i k hk
    rw [hk] at ht
    cases hs
    exact hstay ht.2
  · rename_i m body k hk
    rw [hk] at ht
    split at hs <;> cases hs
    exact hgo ⟨ht.1.2, _, rfl, ht.2⟩
  · rename_i m k hk
    rw [hk] at ht
    exact ht.1.elim
  · rename_i c d k hk
    rw [hk] at ht
    cases hs
    exact hstay ⟨ht.1.1, ht.1.2, ht.2⟩
  · rename_i f k hk
    rw [hk] at ht
    cases hs
    exact hstay ⟨ht.1 n, ht.2⟩
  · rename_i c k hk
    rw [hk] at ht
    cases hs
    refine hstay ?_
    split
    · exact ht.2
    · exact ⟨ht.1, ht.1, ht.2⟩
  · rename_i m k hk
    rw [hk] at ht
    cases hs
    obtain ⟨hd, he, hk'⟩ := ht
    rw [he, List.erase_cons_head]
    exact hgo hk'

/-- Where all code is ordered, every request is above all mutexes held, in every reachable state. -/
theorem requests_above {code : T → Code M} (hc : ∀ t, (code t).Ordered lt []) {s : State T M}
    (hs : (locks code).Reach Sys.any s) (t : T) (m : M) (hr : s.Requests t m) : ∀ h ∈ s.held t, lt h m := by
  have hI : ∀ t, OrderedTodo lt (s.held t) (s.todo t) := by
    refine Sys.Reach.inv (I := fun s : State T M => ∀ t, OrderedTodo lt (s.held t) (s.todo t)) hs ?_ ?_
    · rintro _ rfl t
      exact ⟨hc t, trivial⟩
    · exact fun a s s' h _ hs => ordered_step hs h
  have ht := hI t
  rcases hr with ⟨body, k, hk⟩ | ⟨k, hk⟩
  · rw [hk] at ht
    exact ht.1.1
  · rw [hk] at ht
    exact ht.1.elim

omit [DecidableEq T] [DecidableEq M] in
/-- Where requests are above what is held, no thread waits for itself through others. -/
theorem not_waits_cyclic [IsStrictOrder M lt] {s : State T M}
    (h : ∀ t m, s.Requests t m → ∀ h ∈ s.held t, lt h m) (t : T) : ¬ Relation.TransGen s.Waits t t := by
  -- along the waiting threads the requested mutexes grow
  have hchain : ∀ {a b : T}, Relation.TransGen s.Waits a b →
      ∃ m m', s.Requests a m ∧ m' ∈ s.held b ∧ (m = m' ∨ lt m m') := by
    intro a b hab
    induction hab with
    | single hw =>
      obtain ⟨m, hr, hm⟩ := hw
      exact ⟨m, m, hr, hm, .inl rfl⟩
    | tail _ hw ih =>
      obtain ⟨m, m', hr, hm', hle⟩ := ih
      obtain ⟨m₂, hr₂, hm₂⟩ := hw
      have hlt := h _ _ hr₂ m' hm'
      refine ⟨m, m₂, hr, hm₂, .inr ?_⟩
      rcases hle with rfl | hle
      · exact hlt
      · exact IsTrans.trans _ _ _ hle hlt
  intro hc
  obtain ⟨m, m', hr, hm', hle⟩ := hchain hc
  have hlt := h t m hr m' hm'
  rcases hle with rfl | hle
  · exact irrefl _ hlt
  · exact irrefl _ (IsTrans.trans _ _ _ hlt hle)

end

end Locks
