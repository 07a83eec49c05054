import Mathlib.Logic.Relation
import Mathlib.Data.List.Basic

/-!
# Labelled transition systems with a computable step

`Sys σ α` is a system with states `σ` and actions `α`: `step a s` is the state after the action `a`,
`none` where `a` is not enabled. `Run ok` are the finite runs whose every step satisfies the
condition `ok` on the action and the state before it, so that "in every run whose steps all meet the
condition" is a statement about `Reach ok`. `exec` runs a list of actions, `Run.inv` is the induction
rule, `Completes` says that one thread gets to its end in all interleavings, and `Sim` carries the runs of one
system over to another.
-/

/-- A transition system: initial states and a partial step function. -/
structure Sys (σ α : Type*) where
  init : σ → Prop
  step : α → σ → Option σ

namespace Sys
variable {σ α τ β : Type*} {M : Sys σ α}

/-- No condition on the steps of a run. -/
def any : α → σ → Prop := fun _ _ => True

/-- The runs of `M` from `s` whose steps satisfy `ok`. -/
inductive Run (M : Sys σ α) (ok : α → σ → Prop) (s : σ) : σ → Prop
  | refl : Run M ok s s
  | snoc {t u : σ} (a : α) : Run M ok s t → ok a t → M.step a t = some u → Run M ok s u

/-- `t` is reached by a run from an initial state whose steps satisfy `ok`. -/
def Reach (M : Sys σ α) (ok : α → σ → Prop) (t : σ) : Prop := ∃ s, M.init s ∧ M.Run ok s t

namespace Run
variable {ok ok' : α → σ → Prop} {s t u : σ}

theorem single {a : α} (ha : ok a s) (h : M.step a s = some t) : M.Run ok s t := .snoc a .refl ha h

theorem trans (h₁ : M.Run ok s t) (h₂ : M.Run ok t u) : M.Run ok s u := by
  induction h₂ with
  | refl => exact h₁
  | snoc a _ ha hs ih => exact ih.snoc a ha hs

theorem cons {a : α} (ha : ok a s) (hs : M.step a s = some t) (h : M.Run ok t u) : M.Run ok s u :=
  (single ha hs).trans h

theorem mono (h : M.Run ok s t) (hok : ∀ a s, ok a s → ok' a s) : M.Run ok' s t := by
  induction h with
  | refl => exact .refl
  | snoc a _ ha hs ih => exact ih.snoc a (hok a _ ha) hs

/-- What every step of a run preserves holds at its end. -/
theorem inv {I : σ → Prop} (h : M.Run ok s t) (h₀ : I s)
    (hI : ∀ a s t, I s → ok a s → M.step a s = some t → I t) : I t := by
  induction h with
  | refl => exact h₀
  | snoc a _ ha hs ih => exact hI a _ _ ih ha hs

/-- A run that has left `s` took a first step there. -/
theorem head_cases (h : M.Run ok s t) :
    t = s ∨ ∃ a u, ok a s ∧ M.step a s = some u ∧ M.Run ok u t := by
  induction h with
  | refl => exact .inl rfl
  | snoc a _ ha hs ih =>
    rcases ih with rfl | ⟨b, v, hb, hv, h⟩
    · exact .inr ⟨a, _, ha, hs, .refl⟩
    · exact .inr ⟨b, v, hb, hv, h.snoc a ha hs⟩

end Run

namespace Reach
variable {ok ok' : α → σ → Prop} {s t : σ}

theorem of_init (h : M.init s) : M.Reach ok s := ⟨s, h, .refl⟩

theorem run (h : M.Reach ok s) (hr : M.Run ok s t) : M.Reach ok t :=
  let ⟨s₀, h₀, h⟩ := h; ⟨s₀, h₀, h.trans hr⟩

theorem mono (h : M.Reach ok s) (hok : ∀ a s, ok a s → ok' a s) : M.Reach ok' s :=
  let ⟨s₀, h₀, h⟩ := h; ⟨s₀, h₀, h.mono hok⟩

/-- An invariant: it holds initially and every step preserves it. -/
theorem inv {I : σ → Prop} (h : M.Reach ok t) (h₀ : ∀ s, M.init s → I s)
    (hI : ∀ a s t, I s → ok a s → M.step a s = some t → I t) : I t :=
  let ⟨_, hi, h⟩ := h; h.inv (h₀ _ hi) hI

end Reach

/-! ### Running a list of actions -/

/-- Execute the actions of a list in order; `none` if one is not enabled. -/
def exec (M : Sys σ α) : List α → σ → Option σ
  | [], s => some s
  | a :: as, s => (M.step a s).bind (M.exec as)

theorem exec_append (as bs : List α) (s : σ) :
    M.exec (as ++ bs) s = (M.exec as s).bind (M.exec bs) := by
  induction as generalizing s with
  | nil => rfl
  | cons a as ih =>
    simp only [List.cons_append, exec]
    cases M.step a s with
    | none => rfl
    | some t => exact ih t

theorem exec_trans (as : List α) {bs : List α} {s t u : σ} (h : M.exec as s = some t) (h' : M.exec bs t = some u) :
    M.exec (as ++ bs) s = some u := by
  rw [exec_append, h]
  exact h'

theorem Run.of_exec {ok : α → σ → Prop} {as : List α} {s t : σ} (hok : ∀ a ∈ as, ∀ s, ok a s)
    (h : M.exec as s = some t) : M.Run ok s t := by
  induction as generalizing s with
  | nil => cases h; exact .refl
  | cons a as ih =>
    obtain ⟨u, hu, h⟩ := Option.bind_eq_some_iff.mp h
    exact .cons (hok a (by simp) s) hu (ih (fun b hb => hok b (by simp [hb])) h)

theorem Run.of_exec_any {as : List α} {s t : σ} (h : M.exec as s = some t) : M.Run any s t :=
  .of_exec (fun _ _ _ => trivial) h

section
variable (M) (ok : α → σ → Prop) [∀ a s, Decidable (ok a s)]

/-- `exec`, as long as every step satisfies `ok`. -/
def execIf : List α → σ → Option σ
  | [], s => some s
  | a :: as, s => if ok a s then (M.step a s).bind (execIf as) else none

end

theorem Run.of_execIf {ok : α → σ → Prop} [∀ a s, Decidable (ok a s)] {as : List α} {s t : σ}
    (h : M.execIf ok as s = some t) : M.Run ok s t := by
  induction as generalizing s with
  | nil => cases h; exact .refl
  | cons a as ih =>
    simp only [execIf] at h
    split at h
    · obtain ⟨u, hu, h⟩ := Option.bind_eq_some_iff.mp h
      exact .cons ‹_› hu (ih h)
    · cases h

/-- Every step of the execution of a list of actions satisfies `ok`. -/
def Along (M : Sys σ α) (ok : α → σ → Prop) : List α → σ → Prop
  | [], _ => True
  | a :: as, s => ok a s ∧ ∀ t, M.step a s = some t → M.Along ok as t

theorem along_congr {ok ok' : α → σ → Prop} {I : σ → Prop} (hI : ∀ a s t, I s → M.step a s = some t → I t)
    (h : ∀ a s, I s → (ok a s ↔ ok' a s)) (as : List α) {s : σ} (hs : I s) : M.Along ok as s ↔ M.Along ok' as s := by
  induction as generalizing s with
  | nil => exact Iff.rfl
  | cons a as ih => exact and_congr (h a s hs) (forall_congr' fun t => imp_congr_right fun ht => ih (hI a s t hs ht))

/-- All states of an execution are good if and only if its steps are `ok`, when a step from a good state leads to a
good one exactly if it is `ok`. -/
theorem along_good_iff {good I : σ → Prop} {ok : α → σ → Prop} (hn : ∀ a s, I s → M.step a s = none → ok a s)
    (h : ∀ a s t, I s → good s → M.step a s = some t → I t ∧ (good t ↔ ok a s)) (as : List α) {s : σ} (hs : I s)
    (hg : good s) : M.Along (fun a s => ∀ t, M.step a s = some t → good t) as s ↔ M.Along ok as s := by
  induction as generalizing s with
  | nil => exact Iff.rfl
  | cons a as ih =>
    rcases ht : M.step a s with _ | t
    · simp only [Along, ht, reduceCtorEq, false_implies, implies_true, and_self, and_true, true_iff]
      exact hn a s hs ht
    · obtain ⟨hI, hiff⟩ := h a s t hs hg ht
      simp only [Along, ht, Option.some.injEq, forall_eq']
      rw [← hiff]
      exact and_congr_right fun hgt => ih hI hgt

/-! ### Completion -/

/-- The actions `p` bring the system to `done` whatever the other actions of `ok` do meanwhile: in all runs their
number is bounded, and until `done` one of them is enabled, if need be after some steps of one other action. -/
def Completes (M : Sys σ α) (ok : α → Prop) (p : α → Bool) (done : σ → Prop) (s : σ) : Prop :=
  ∃ N, ∀ as t, (∀ a ∈ as, ok a) → M.exec as s = some t → as.countP p ≤ N ∧
    (done t ∨ ∃ b k u a, ok b ∧ M.exec (List.replicate k b) t = some u ∧ ok a ∧ p a = true ∧ (M.step a u).isSome)

section
variable {ok : α → Prop} {p : α → Bool} {done : σ → Prop} {s t : σ}

/-- With an invariant under which `done` or an action of `p` can be reached so, and a measure that no action raises and
those of `p` lower. -/
theorem Completes.of_measure {I : σ → Prop} (μ : σ → ℕ)
    (hI : ∀ a s t, I s → ok a → M.step a s = some t → I t ∧ μ t + (if p a then 1 else 0) ≤ μ s)
    (hp : ∀ s, I s → done s ∨ ∃ b k u a, ok b ∧ M.exec (List.replicate k b) s = some u ∧ ok a ∧ p a = true ∧
      (M.step a u).isSome) (h : I s) : M.Completes ok p done s := by
  have hcount : ∀ as s t, I s → (∀ a ∈ as, ok a) → M.exec as s = some t → I t ∧ μ t + as.countP p ≤ μ s := by
    intro as
    induction as with
    | nil =>
      intro s t h _ he
      cases he
      exact ⟨h, Nat.le_refl _⟩
    | cons a as ih =>
      intro s t h hok he
      obtain ⟨u, hu, he⟩ := Option.bind_eq_some_iff.mp he
      obtain ⟨h1, h2⟩ := hI a s u h (hok a List.mem_cons_self) hu
      obtain ⟨h3, h4⟩ := ih u t h1 (fun b hb => hok b (List.mem_cons_of_mem _ hb)) he
      refine ⟨h3, ?_⟩
      rw [List.countP_cons]
      omega
  refine ⟨μ s, fun as t hok he => ?_⟩
  obtain ⟨h1, h2⟩ := hcount as s t h hok he
  exact ⟨by omega, hp t h1⟩

/-- Some run leads to `done`. -/
theorem Completes.exec (h : M.Completes ok p done s) :
    ∃ as t, (∀ a ∈ as, ok a) ∧ M.exec as s = some t ∧ done t := by
  obtain ⟨N, h⟩ := h
  by_contra hno
  have hlong : ∀ n, ∃ as t, (∀ a ∈ as, ok a) ∧ n ≤ as.countP p ∧ M.exec as s = some t := by
    intro n
    induction n with
    | zero => exact ⟨[], s, fun _ ha => absurd ha List.not_mem_nil, Nat.le_refl 0, rfl⟩
    | succ n ih =>
      obtain ⟨as, t, hok, hl, he⟩ := ih
      rcases (h as t hok he).2 with hd | ⟨b, k, u, a, hb, hk, ha, hp, hs⟩
      · exact absurd ⟨as, t, hok, he, hd⟩ hno
      · obtain ⟨v, hv⟩ := Option.isSome_iff_exists.mp hs
        refine ⟨as ++ (List.replicate k b ++ [a]), v, fun c hc => ?_, ?_, ?_⟩
        · rw [List.mem_append, List.mem_append, List.mem_singleton] at hc
          rcases hc with hc | hc | rfl
          · exact hok c hc
          · exact List.eq_of_mem_replicate hc ▸ hb
          · exact ha
        · rw [List.countP_append, List.countP_append, List.countP_singleton, if_pos hp]
          omega
        · exact exec_trans _ he (exec_trans _ hk (by rw [Sys.exec, hv]; rfl))
  obtain ⟨as, t, hok, hl, he⟩ := hlong (N + 1)
  have hcount := (h as t hok he).1
  omega

/-- It goes on to complete along every run. -/
theorem Completes.after (h : M.Completes ok p done s) {as : List α} (hok : ∀ a ∈ as, ok a)
    (he : M.exec as s = some t) : M.Completes ok p done t := by
  obtain ⟨N, h⟩ := h
  refine ⟨N, fun bs u hbs hu => ?_⟩
  obtain ⟨h1, h2⟩ := h (as ++ bs) u (fun a ha => (List.mem_append.mp ha).elim (hok a) (hbs a)) (exec_trans _ he hu)
  rw [List.countP_append] at h1
  exact ⟨by omega, h2⟩

end

/-! ### Forward simulation -/

/-- `R` simulates `M` in `N`: a step of `M` that satisfies `ok` is matched by a run of `N`. -/
structure Sim (M : Sys σ α) (N : Sys τ β) (ok : α → σ → Prop) (R : σ → τ → Prop) : Prop where
  init : ∀ s, M.init s → ∃ t, N.init t ∧ R s t
  step : ∀ a s s' t, R s t → ok a s → M.step a s = some s' → ∃ t', N.Run any t t' ∧ R s' t'

theorem Sim.reach {N : Sys τ β} {ok : α → σ → Prop} {R : σ → τ → Prop} (hS : Sim M N ok R) {s : σ}
    (h : M.Reach ok s) : ∃ t, N.Reach any t ∧ R s t := by
  obtain ⟨s₀, h₀, h⟩ := h
  induction h with
  | refl =>
    obtain ⟨t, ht, hR⟩ := hS.init s₀ h₀
    exact ⟨t, .of_init ht, hR⟩
  | snoc a _ ha hs ih =>
    obtain ⟨t, ht, hR⟩ := ih
    obtain ⟨t', ht', hR'⟩ := hS.step a _ _ t hR ha hs
    exact ⟨t', ht.run ht', hR'⟩

end Sys
