import Mathlib.Data.List.Infix

/-!
# Histories

A history is a list of events, newest first. `Since M P` says that an event with `P` is newer than every
event with `M`; `Always P` says that `P` holds of each event and the history before it; `Grows P` relates a
history to a later one whose new events all satisfy `P`.
-/

namespace History
variable {α : Type*} {M P : α → Prop} {log new old : List α}

def Since (M P : α → Prop) (log : List α) : Prop :=
  ∃ new e old, log = new ++ e :: old ∧ P e ∧ ∀ a ∈ new, ¬ M a

theorem Since.append (h : Since M P log) (hn : ∀ a ∈ new, ¬ M a) : Since M P (new ++ log) := by
  obtain ⟨new', e, old, rfl, he, hM⟩ := h
  refine ⟨new ++ new', e, old, (List.append_assoc ..).symm, he, fun a ha => ?_⟩
  exact (List.mem_append.mp ha).elim (hn a) (hM a)

theorem Since.of_mem {e : α} (hm : e ∈ new) (he : P e) (hn : ∀ a ∈ new, ¬ M a) : Since M P (new ++ log) := by
  obtain ⟨l₁, l₂, rfl⟩ := List.append_of_mem hm
  exact ⟨l₁, e, l₂ ++ log, by simp, he, fun a ha => hn a (List.mem_append_left _ ha)⟩

/-- The event is newer than the mark `m`. -/
theorem Since.exists_mem {m : α} (h : Since M P (new ++ m :: old)) (hm : M m) (hP : ¬ P m) : ∃ e ∈ new, P e := by
  obtain ⟨new', e, old', heq, he, hM⟩ := h
  rcases List.append_eq_append_iff.mp heq with ⟨c, rfl, hc⟩ | ⟨c, rfl, hc⟩
  · rcases c with _ | ⟨b, c⟩
    · obtain ⟨rfl, -⟩ := List.cons.inj hc
      exact absurd he hP
    · obtain ⟨rfl, -⟩ := List.cons.inj hc
      exact absurd hm (hM _ (by simp))
  · rcases c with _ | ⟨b, c⟩
    · obtain ⟨rfl, -⟩ := List.cons.inj hc
      exact absurd he hP
    · obtain ⟨rfl, -⟩ := List.cons.inj hc
      exact ⟨e, by simp, he⟩

/-- If the events of `new` do not satisfy `P`, none of them is a mark. -/
theorem Since.not_mem {p : α} (h : Since M P (new ++ p :: old)) (hn : ∀ e ∈ new, ¬ P e) : ∀ a ∈ new, ¬ M a := by
  obtain ⟨new', e, old', heq, he, hM⟩ := h
  rcases List.append_eq_append_iff.mp heq with ⟨c, rfl, -⟩ | ⟨c, rfl, hc⟩
  · exact fun a ha => hM a (List.mem_append_left _ ha)
  · rcases c with _ | ⟨b, c⟩
    · simpa using hM
    · obtain ⟨rfl, -⟩ := List.cons.inj hc
      exact absurd he (hn e (by simp))

def Always (P : α → List α → Prop) (log : List α) : Prop := ∀ e old, e :: old <:+ log → P e old

theorem always_nil {P : α → List α → Prop} : Always P [] := fun _ _ h => by simp at h

theorem always_cons {P : α → List α → Prop} {e : α} : Always P (e :: log) ↔ P e log ∧ Always P log := by
  constructor
  · exact fun h => ⟨h e log List.suffix_rfl, fun a old ha => h a old (ha.trans (List.suffix_cons ..))⟩
  · rintro ⟨he, h⟩ a old ha
    rcases List.suffix_cons_iff.mp ha with hae | ha
    · cases hae
      exact he
    · exact h a old ha

theorem Always.suffix {P : α → List α → Prop} (h : Always P log) (ho : old <:+ log) : Always P old :=
  fun e l he => h e l (he.trans ho)

theorem Always.append {P : α → List α → Prop} (h : Always P log)
    (hn : ∀ e mid, e :: mid <:+ new → P e (mid ++ log)) : Always P (new ++ log) := by
  induction new with
  | nil => exact h
  | cons a new ih =>
    intro e old hs
    rcases List.suffix_cons_iff.mp hs with he | hs
    · cases he
      exact hn a new List.suffix_rfl
    · exact ih (fun e mid hm => hn e mid (hm.trans (List.suffix_cons ..))) e old hs

/-- `log'` is `log` with newer events that satisfy `P`. -/
def Grows (P : α → Prop) (log log' : List α) : Prop := ∃ new, log' = new ++ log ∧ ∀ e ∈ new, P e

theorem Grows.refl (P : α → Prop) (log : List α) : Grows P log log := ⟨[], rfl, by simp⟩

theorem Grows.trans {l₁ l₂ l₃ : List α} (h : Grows P l₁ l₂) (h' : Grows P l₂ l₃) : Grows P l₁ l₃ := by
  obtain ⟨new, rfl, hn⟩ := h
  obtain ⟨new', rfl, hn'⟩ := h'
  exact ⟨new' ++ new, (List.append_assoc ..).symm, List.forall_mem_append.mpr ⟨hn', hn⟩⟩

theorem grows_append : Grows P log (new ++ log) ↔ ∀ e ∈ new, P e := by
  constructor
  · rintro ⟨new', he, hn⟩
    rwa [List.append_cancel_right he]
  · exact fun hn => ⟨new, rfl, hn⟩

theorem Grows.suffix {l l' : List α} (h : Grows P l l') : l <:+ l' := h.imp fun _ hn => hn.1.symm

theorem grows_trans_iff {l₁ l₂ l₃ : List α} (h : l₁ <:+ l₂) (h' : Grows P l₂ l₃) : Grows P l₁ l₃ ↔ Grows P l₁ l₂ := by
  refine ⟨fun hg => ?_, fun hg => hg.trans h'⟩
  obtain ⟨new, rfl⟩ := h
  obtain ⟨new', rfl, -⟩ := h'
  rw [← List.append_assoc, grows_append] at hg
  exact grows_append.mpr fun e he => hg e (List.mem_append_right _ he)

/-- The new events are all `i`'s if and only if the histories of all others are the same. -/
theorem grows_iff_filter {ι : Type*} [DecidableEq ι] {f : α → ι} {i : ι} {l l' : List α} (h : l <:+ l') :
    Grows (fun e => f e = i) l l' ↔ ∀ j, j ≠ i → l'.filter (fun e => f e = j) = l.filter (fun e => f e = j) := by
  obtain ⟨new, rfl⟩ := h
  simp only [grows_append, List.filter_append, List.append_left_eq_self, List.filter_eq_nil_iff, decide_eq_true_eq]
  constructor
  · intro hn j hj e he hf
    exact hj (hf.symm.trans (hn e he))
  · intro hn e he
    by_contra hne
    exact hn (f e) hne e he rfl

end History
