import Mathlib.Logic.Function.Basic
import Mathlib.Data.List.Nodup

/-!
# Custody of tokens

Tokens `T` that are held at slots `S`: a token is first taken, then passed from slot to slot and used
there, and at last freed. `ledger` replays a history (newest event first) and fails on an event of a
token that is not where the event says. So a history with a ledger has all the ownership facts one
wants: nothing happens to a token after it is freed (`ledger_free`), it is freed at most once
(`freed_nodup`), and where the slots have a rank that every pass raises, it enters the slots of one
rank at most once (`entered_nodup`).
-/

namespace Custody
variable {T S : Type*}

/-- Where a token is. -/
inductive Place (S : Type*)
  | fresh
  | held (s : S)
  | gone
  deriving DecidableEq

/-- An event of the token `t` at the slot `s`. -/
inductive Ev (T S : Type*)
  | take (t : T) (s : S)
  | pass (t : T) (s s' : S)
  | use (t : T) (s : S)
  | free (t : T) (s : S)

/-- The token of an event. -/
def Ev.token : Ev T S → T
  | .take t _ | .pass t _ _ | .use t _ | .free t _ => t

/-- The token an event frees. -/
def Ev.freed : Ev T S → Option T
  | .free t _ => some t
  | _ => none

/-- The token an event passes to a slot of rank `n`. -/
def Ev.entered (r : S → ℕ) (n : ℕ) : Ev T S → Option T
  | .pass t _ s' => if r s' = n then some t else none
  | _ => none

/-- Every pass raises the rank. -/
def Raises (r : S → ℕ) (es : List (Ev T S)) : Prop :=
  ∀ t s s', Ev.pass t s s' ∈ es → r s < r s'

theorem freed_token {e : Ev T S} {t : T} (h : e.freed = some t) : e.token = t := by
  cases e <;> simp_all [Ev.freed, Ev.token]

variable [DecidableEq T] [DecidableEq S]

/-- The places after an event; `none` if the token is not where the event says. -/
def Ev.step : Ev T S → (T → Place S) → Option (T → Place S)
  | .take t s, p => if p t = .fresh then some (Function.update p t (.held s)) else none
  | .pass t s s', p => if p t = .held s then some (Function.update p t (.held s')) else none
  | .use t s, p => if p t = .held s then some p else none
  | .free t s, p => if p t = .held s then some (Function.update p t .gone) else none

/-- The places after a history, newest event first. -/
def ledger : List (Ev T S) → Option (T → Place S)
  | [] => some fun _ => .fresh
  | e :: older => (ledger older).bind e.step

@[simp] theorem ledger_nil : ledger ([] : List (Ev T S)) = some fun _ => .fresh := rfl

theorem ledger_cons {e : Ev T S} {es : List (Ev T S)} {p p' : T → Place S}
    (h : ledger es = some p) (he : e.step p = some p') : ledger (e :: es) = some p' := by
  simp [ledger, h, he]

section
variable {p p' : T → Place S} {e : Ev T S}

theorem step_other (h : e.step p = some p') {t : T} (ht : t ≠ e.token) : p' t = p t := by
  cases e <;> simp only [Ev.step] at h <;> split at h <;> cases h <;>
    first | exact Function.update_of_ne ht _ _ | rfl

theorem step_gone (h : e.step p = some p') {t : T} (ht : p t = .gone) : p' t = .gone ∧ t ≠ e.token := by
  by_cases he : t = e.token
  · subst he
    cases e <;> simp [Ev.step, Ev.token] at h ht <;> simp [ht] at h
  · exact ⟨(step_other h he).trans ht, he⟩

theorem step_pass {t : T} {s s' : S} (h : p t = .held s) :
    (Ev.pass t s s').step p = some (Function.update p t (.held s')) := by simp [Ev.step, h]

theorem step_free {t : T} {s : S} (h : p t = .held s) :
    (Ev.free t s).step p = some (Function.update p t .gone) := by simp [Ev.step, h]

theorem step_take {t : T} {s : S} (h : p t = .fresh) :
    (Ev.take t s).step p = some (Function.update p t (.held s)) := by simp [Ev.step, h]

theorem step_use {t : T} {s : S} (h : p t = .held s) : (Ev.use t s).step p = some p := by
  simp [Ev.step, h]

end

theorem ledger_suffix {es es' : List (Ev T S)} {p : T → Place S} (h : ledger (es' ++ es) = some p) :
    ∃ q, ledger es = some q := by
  induction es' generalizing p with
  | nil => exact ⟨p, h⟩
  | cons e es' ih =>
    obtain ⟨q, hq, -⟩ := Option.bind_eq_some_iff.mp h
    exact ih hq

/-- A token that is gone stays gone, and nothing more happens to it. -/
theorem gone_append {es es' : List (Ev T S)} {p q : T → Place S} {t : T}
    (h : ledger (es' ++ es) = some p) (hq : ledger es = some q) (ht : q t = .gone) :
    p t = .gone ∧ ∀ e ∈ es', e.token ≠ t := by
  induction es' generalizing p with
  | nil => rw [List.nil_append, hq] at h; cases h; exact ⟨ht, by simp⟩
  | cons e es' ih =>
    obtain ⟨p', hp', hs⟩ := Option.bind_eq_some_iff.mp h
    obtain ⟨hg, hn⟩ := ih hp'
    obtain ⟨hg', hne⟩ := step_gone hs hg
    exact ⟨hg', by simpa using ⟨hne.symm, hn⟩⟩

theorem ledger_free_gone {es : List (Ev T S)} {t : T} {s : S} {p : T → Place S}
    (h : ledger (.free t s :: es) = some p) : p t = .gone := by
  obtain ⟨q, -, hs⟩ := Option.bind_eq_some_iff.mp h
  simp only [Ev.step] at hs
  split at hs <;> cases hs
  exact Function.update_self ..

/-- Nothing happens to a token after it is freed. -/
theorem ledger_free {es es' : List (Ev T S)} {t : T} {s : S} {p : T → Place S}
    (h : ledger (es' ++ .free t s :: es) = some p) : ∀ e ∈ es', e.token ≠ t := by
  obtain ⟨q, hq⟩ := ledger_suffix h
  exact (gone_append h hq (ledger_free_gone hq)).2

/-- A token is freed at most once. -/
theorem freed_nodup {es : List (Ev T S)} {p : T → Place S} (h : ledger es = some p) :
    (es.filterMap Ev.freed).Nodup := by
  induction es generalizing p with
  | nil => simp
  | cons e es ih =>
    obtain ⟨q, hq, hs⟩ := Option.bind_eq_some_iff.mp h
    rcases hf : e.freed with _ | t
    · simpa [hf] using ih hq
    · refine List.filterMap_cons_some hf ▸ List.nodup_cons.mpr ⟨fun hmem => ?_, ih hq⟩
      -- freed before, so gone before this event
      obtain ⟨e', he', ht'⟩ := List.mem_filterMap.mp hmem
      obtain ⟨es₁, es₂, rfl⟩ := List.append_of_mem he'
      cases e' <;> simp only [Ev.freed, reduceCtorEq, Option.some.injEq] at ht'
      subst ht'
      exact ledger_free (show ledger ((e :: es₁) ++ _) = some p from h) e (by simp) (freed_token hf)

/-- The rank of the slot a token has reached: `0` before it is taken. -/
def reached (r : S → ℕ) : Place S → ℕ
  | .held s => r s + 1
  | _ => 0

/-- A token enters the slots of one rank at most once, when every pass raises the rank. -/
theorem entered_nodup (r : S → ℕ) (n : ℕ) {es : List (Ev T S)} {p : T → Place S}
    (h : ledger es = some p) (hr : Raises r es) : (es.filterMap (Ev.entered r n)).Nodup := by
  -- a token that has entered rank `n` is held at a rank of at least `n`, or gone
  suffices H : (es.filterMap (Ev.entered r n)).Nodup ∧
      ∀ t ∈ es.filterMap (Ev.entered r n), p t = .gone ∨ n < reached r (p t) from H.1
  induction es generalizing p with
  | nil => simp
  | cons e es ih =>
    obtain ⟨q, hq, hs⟩ := Option.bind_eq_some_iff.mp h
    obtain ⟨hnd, hpl⟩ := ih hq fun t s s' hm => hr t s s' (List.mem_cons_of_mem _ hm)
    -- the places of the tokens that entered before
    have hold : ∀ t ∈ es.filterMap (Ev.entered r n), p t = .gone ∨ n < reached r (p t) := by
      intro t ht
      by_cases he : t = e.token
      · subst he
        rcases hpl _ ht with hg | hlt
        · exact absurd rfl (step_gone hs hg).2
        · cases e with
          | take t s => simp only [Ev.step] at hs; split at hs <;> cases hs; simp_all [Ev.token, reached]
          | pass t s s' =>
            have := hr t s s' (by simp)
            simp only [Ev.step] at hs; split at hs <;> cases hs
            simp_all [Ev.token, reached]; omega
          | use t s => simp only [Ev.step] at hs; split at hs <;> cases hs; exact .inr hlt
          | free t s => simp only [Ev.step] at hs; split at hs <;> cases hs; simp [Ev.token]
      · rw [step_other hs he]; exact hpl t ht
    rcases hf : e.entered r n with _ | t
    · simpa [hf] using ⟨hnd, by simpa using hold⟩
    · rw [List.filterMap_cons_some hf]
      cases e with
      | pass t' s s' =>
        simp only [Ev.entered] at hf
        split at hf <;> cases hf
        have hlt := hr t s s' (by simp)
        simp only [Ev.step] at hs; split at hs <;> cases hs
        rename_i hn hp
        refine ⟨List.nodup_cons.mpr ⟨fun hm => ?_, hnd⟩, fun u hu => ?_⟩
        · rcases hpl t hm with hg | hlt'
          · rw [hp] at hg; cases hg
          · rw [hp] at hlt'; simp only [reached] at hlt'; omega
        · rcases List.mem_cons.mp hu with rfl | hu
          · right; simp only [Function.update_self, reached]; omega
          · exact hold u hu
      | _ => simp [Ev.entered] at hf

end Custody
