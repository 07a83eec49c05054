import Mathlib.Data.Set.Insert
import Mathlib.Tactic.Tauto

/-!
# Functions that unlock what they lock

`Stmt M G O` is the body of a function: its calls of `lock` and `unlock` on mutexes `M`, the tests `G` that its
control flow depends on, and the calls of functions `O`. `Exec` is its execution on the set of mutexes that the
thread holds, where `may g b` says that the test `g` may come out as `b`.

`Stmt.wp` checks a body on the list of the mutexes it has locked itself, and takes the functions it calls to hold
on return what they held on entry. If every body passes this check from the empty list to the empty list, then
every function does hold on return what it held on entry (`Exec.balanced`). `Asks` are the requests in an execution, and
`Asks.above` says that they are above what the thread holds where every body `Obeys` the order.
-/

namespace Balance

inductive Stmt (M G O : Type)
  | skip
  | lock (m : M)
  | unlock (m : M)
  | seq (p q : Stmt M G O)
  | ite (g : G) (p q : Stmt M G O)
  /-- `while (g)`. -/
  | loop (g : G) (p : Stmt M G O)
  | brk
  | cont
  | ret
  /-- A call of one of the functions. -/
  | call (f : Set O)

/-- How a statement ends. -/
inductive Flow
  | norm
  | brk
  | cont
  | ret
  deriving DecidableEq

variable {M G O : Type}

namespace Stmt

/-- An `if` without `else`. -/
def when (g : G) (p : Stmt M G O) : Stmt M G O := .ite g p .skip

/-- One statement after the other. -/
def block : List (Stmt M G O) → Stmt M G O
  | [] => .skip
  | [p] => p
  | p :: ps => .seq p (block ps)

end Stmt

section
variable (may : G → Bool → Prop) (body : O → Stmt M G O)

/-- Executions: the mutexes held before, how the statement ends, and the mutexes held then. A mutex that the
thread holds cannot be locked again. -/
inductive Exec : Stmt M G O → Set M → Flow → Set M → Prop
  | skip {H} : Exec .skip H .norm H
  | lock {m H} (h : m ∉ H) : Exec (.lock m) H .norm (insert m H)
  | unlock {m H} : Exec (.unlock m) H .norm (H \ {m})
  | seq {p q H H' H'' f} (h : Exec p H .norm H') (h' : Exec q H' f H'') : Exec (.seq p q) H f H''
  | leave {p q H H' f} (h : Exec p H f H') (hf : f ≠ .norm) : Exec (.seq p q) H f H'
  | ite {g b p q H H' f} (hg : may g b) (h : Exec (if b then p else q) H f H') : Exec (.ite g p q) H f H'
  | done {g p H} (hg : may g false) : Exec (.loop g p) H .norm H
  | again {g p H H' H'' f e} (hg : may g true) (h : Exec p H e H') (he : e = .norm ∨ e = .cont)
    (h' : Exec (.loop g p) H' f H'') : Exec (.loop g p) H f H''
  | brokenOff {g p H H'} (hg : may g true) (h : Exec p H .brk H') : Exec (.loop g p) H .norm H'
  | returned {g p H H'} (hg : may g true) (h : Exec p H .ret H') : Exec (.loop g p) H .ret H'
  | brk {H} : Exec .brk H .brk H
  | cont {H} : Exec .cont H .cont H
  | ret {H} : Exec .ret H .ret H
  | call {F o H H' f} (ho : o ∈ F) (h : Exec (body o) H f H') : Exec (.call F) H .norm H'

/-- The weakest precondition on the list of the mutexes that the function has locked, newest first. A loop body
has to end with the list it began with. -/
def Stmt.wp : Stmt M G O → (Flow → List M → Prop) → List M → Prop
  | .skip, Q, l => Q .norm l
  | .lock m, Q, l => Q .norm (m :: l)
  | .unlock m, Q, l => ∃ l', l = m :: l' ∧ Q .norm l'
  | .seq p q, Q, l => p.wp (fun f l' => if f = .norm then q.wp Q l' else Q f l') l
  | .ite g p q, Q, l => (may g true → p.wp Q l) ∧ (may g false → q.wp Q l)
  | .loop g p, Q, l =>
    (may g true → p.wp (fun f l' => if f = .norm ∨ f = .cont then l' = l
      else Q (if f = .brk then .norm else .ret) l') l) ∧ Q .norm l
  | .brk, Q, l => Q .brk l
  | .cont, Q, l => Q .cont l
  | .ret, Q, l => Q .ret l
  | .call _, Q, l => Q .norm l

/-- The function holds on return what it held on entry. -/
def Balanced (o : O) : Prop := ∀ H f H', Exec may body (body o) H f H' → H' = H

/-- What the check asks of a function. -/
def Checked (o : O) : Prop := (body o).wp may (fun _ l => l = []) []

end

/-- The mutexes held are those of before, `H₀`, and the list `l`. -/
structure Holding (H₀ : Set M) (l : List M) (H : Set M) : Prop where
  eq : ∀ m, m ∈ H ↔ m ∈ H₀ ∨ m ∈ l
  fresh : ∀ m ∈ l, m ∉ H₀
  nodup : l.Nodup

namespace Holding
variable {H₀ H : Set M} {l : List M} {m : M}

theorem nil (H : Set M) : Holding H [] H := ⟨fun m => by simp, fun _ hm => by simp at hm, List.nodup_nil⟩

theorem eq_of_nil (h : Holding H₀ [] H) : H = H₀ := Set.ext fun m => by simpa using h.eq m

theorem lock (h : Holding H₀ l H) (hm : m ∉ H) : Holding H₀ (m :: l) (insert m H) := by
  have hn : m ∉ H₀ ∧ m ∉ l := not_or.mp ((not_congr (h.eq m)).mp hm)
  refine ⟨fun a => ?_, fun a ha => ?_, List.nodup_cons.mpr ⟨hn.2, h.nodup⟩⟩
  · rw [Set.mem_insert_iff, h.eq, List.mem_cons]
    tauto
  · rcases List.mem_cons.mp ha with rfl | ha
    · exact hn.1
    · exact h.fresh a ha

theorem unlock (h : Holding H₀ (m :: l) H) : Holding H₀ l (H \ {m}) := by
  obtain ⟨hnl, hnd⟩ := List.nodup_cons.mp h.nodup
  have hn := h.fresh m (List.mem_cons_self ..)
  refine ⟨fun a => ?_, fun a ha => h.fresh a (List.mem_cons_of_mem _ ha), hnd⟩
  rw [Set.mem_sdiff, Set.mem_singleton_iff, h.eq, List.mem_cons]
  constructor
  · rintro ⟨h1, h2⟩
    tauto
  · rintro (h1 | h1)
    · exact ⟨.inl h1, fun he => hn (he ▸ h1)⟩
    · exact ⟨.inr (.inr h1), fun he => hnl (he ▸ h1)⟩

end Holding

variable {may : G → Bool → Prop} {body : O → Stmt M G O}

/-- The check is sound: from mutexes that match the list, a statement ends with mutexes that match a list of its
postcondition. -/
theorem Exec.wp (hbody : ∀ o, Checked may body o) {p : Stmt M G O} {H H' : Set M} {f : Flow}
    (h : Exec may body p H f H') :
    ∀ {Q : Flow → List M → Prop} {l : List M} {H₀ : Set M}, p.wp may Q l → Holding H₀ l H →
      ∃ l', Q f l' ∧ Holding H₀ l' H' := by
  induction h with
  | skip | brk | cont | ret => exact fun hw hl => ⟨_, hw, hl⟩
  | lock hm => exact fun hw hl => ⟨_, hw, hl.lock hm⟩
  | unlock =>
    rintro Q l H₀ ⟨l', rfl, hw⟩ hl
    exact ⟨l', hw, hl.unlock⟩
  | seq _ _ ih ih' =>
    intro Q l H₀ hw hl
    obtain ⟨l', hw', hl'⟩ := ih hw hl
    exact ih' hw' hl'
  | leave _ hf ih =>
    intro Q l H₀ hw hl
    obtain ⟨l', hw', hl'⟩ := ih hw hl
    rw [if_neg hf] at hw'
    exact ⟨l', hw', hl'⟩
  | @ite g b p q H H' f hg _ ih =>
    rintro Q l H₀ ⟨hw, hw'⟩ hl
    cases b
    · exact ih (hw' hg) hl
    · exact ih (hw hg) hl
  | done hg => exact fun hw hl => ⟨_, hw.2, hl⟩
  | again hg _ he _ ih ih' =>
    -- the turn ends with the list it began with
    intro Q l H₀ hw hl
    obtain ⟨l', hw', hl'⟩ := ih (hw.1 hg) hl
    rw [if_pos he] at hw'
    subst hw'
    exact ih' hw hl'
  | brokenOff hg _ ih | returned hg _ ih =>
    intro Q l H₀ hw hl
    obtain ⟨l', hw', hl'⟩ := ih (hw.1 hg) hl
    exact ⟨l', by simpa using hw', hl'⟩
  | call ho _ ih =>
    -- the function that is called starts with a list of its own
    intro Q l H₀ hw hl
    obtain ⟨l', rfl, hl'⟩ := ih (hbody _) (.nil _)
    rw [hl'.eq_of_nil]
    exact ⟨l, hw, hl⟩

theorem Stmt.wp_mono {p : Stmt M G O} {Q Q' : Flow → List M → Prop} {l : List M} (h : p.wp may Q l)
    (hQ : ∀ f l, Q f l → Q' f l) : p.wp may Q' l := by
  induction p generalizing Q Q' l with
  | skip | lock | brk | cont | ret | call => exact hQ _ _ h
  | unlock m =>
    obtain ⟨l', rfl, h⟩ := h
    exact ⟨l', rfl, hQ _ _ h⟩
  | seq p q ihp ihq =>
    refine ihp h fun f l' h => ?_
    split at h
    · rw [if_pos ‹_›]
      exact ihq h hQ
    · rw [if_neg ‹_›]
      exact hQ _ _ h
  | ite g p q ihp ihq => exact ⟨fun hg => ihp (h.1 hg) hQ, fun hg => ihq (h.2 hg) hQ⟩
  | loop g p ih =>
    refine ⟨fun hg => ih (h.1 hg) fun f l' h => ?_, hQ _ _ h.2⟩
    split at h
    · rw [if_pos ‹_›]
      exact h
    · rw [if_neg ‹_›]
      exact hQ _ _ h

/-- Two postconditions at once. -/
theorem Stmt.wp_and {p : Stmt M G O} {Q Q' : Flow → List M → Prop} {l : List M} (h : p.wp may Q l)
    (h' : p.wp may Q' l) : p.wp may (fun f l' => Q f l' ∧ Q' f l') l := by
  induction p generalizing Q Q' l with
  | skip | lock | brk | cont | ret | call => exact ⟨h, h'⟩
  | unlock m =>
    obtain ⟨l', rfl, h⟩ := h
    obtain ⟨l'', he, h'⟩ := h'
    cases he
    exact ⟨l', rfl, h, h'⟩
  | seq p q ihp ihq =>
    refine Stmt.wp_mono (p := p) (ihp h h') fun f l' h => ?_
    split
    · rw [if_pos ‹_›, if_pos ‹_›] at h
      exact ihq h.1 h.2
    · rw [if_neg ‹_›, if_neg ‹_›] at h
      exact h
  | ite g p q ihp ihq => exact ⟨fun hg => ihp (h.1 hg) (h'.1 hg), fun hg => ihq (h.2 hg) (h'.2 hg)⟩
  | loop g p ih =>
    refine ⟨fun hg => Stmt.wp_mono (ih (h.1 hg) (h'.1 hg)) fun f l' h => ?_, h.2, h'.2⟩
    by_cases hf : f = .norm ∨ f = .cont
    · rw [if_pos hf] at h ⊢
      exact h.1
    · rw [if_neg hf, if_neg hf] at h
      rw [if_neg hf]
      exact h

theorem Exec.balanced (hbody : ∀ o, Checked may body o) (o : O) : Balanced may body o := by
  intro H f H' h
  obtain ⟨l, rfl, hl⟩ := h.wp hbody (hbody o) (.nil H)
  exact hl.eq_of_nil

/-! ### The mutexes held at a request -/

section
variable (may : G → Bool → Prop) (body : O → Stmt M G O)

/-- A statement that starts with the mutexes `H` comes to request `m` while the thread holds `K`. -/
inductive Asks : Stmt M G O → Set M → M → Set M → Prop
  | lock {m H} : Asks (.lock m) H m H
  | first {p q H m K} (h : Asks p H m K) : Asks (.seq p q) H m K
  | second {p q H H' m K} (h : Exec may body p H .norm H') (h' : Asks q H' m K) : Asks (.seq p q) H m K
  | ite {g b p q H m K} (hg : may g b) (h : Asks (if b then p else q) H m K) : Asks (.ite g p q) H m K
  | turn {g p H m K} (hg : may g true) (h : Asks p H m K) : Asks (.loop g p) H m K
  | again {g p H H' e m K} (hg : may g true) (h : Exec may body p H e H') (he : e = .norm ∨ e = .cont)
    (h' : Asks (.loop g p) H' m K) : Asks (.loop g p) H m K
  | call {F o H m K} (ho : o ∈ F) (h : Asks (body o) H m K) : Asks (.call F) H m K

/-- The mutexes that a statement leaves locked, if it ends normally. -/
def Stmt.after : Stmt M G O → List M → Option (List M)
  | .lock m, l => some (m :: l)
  | .unlock _, l => some l.tail
  | .seq p q, l => (p.after l).bind q.after
  | .ite _ p q, l => (p.after l).or (q.after l)
  | .brk, _ | .cont, _ | .ret, _ => none
  | _, l => some l

variable (lt : M → M → Prop) (S : O → List M → Prop)

/-- A statement of a function that was called with the mutexes `held` and has locked `l` requests mutexes only above
all of these, and calls functions only with mutexes that they may be called with, `S`. -/
def Stmt.Obeys (held : List M) : Stmt M G O → List M → Prop
  | .lock m, l => ∀ h ∈ l ++ held, lt h m
  | .seq p q, l => p.Obeys held l ∧ p.wp may (fun f l' => f = .norm → p.after l = some l') l ∧
    ∀ l', p.after l = some l' → q.Obeys held l'
  | .ite g p q, l => (may g true → p.Obeys held l) ∧ (may g false → q.Obeys held l)
  | .loop g p, l => may g true → p.Obeys held l
  | .call F, l => ∀ o ∈ F, S o (l ++ held)
  | _, _ => True

end

theorem Holding.mem_append {held l : List M} {H : Set M} (h : Holding {m | m ∈ held} l H) (m : M) :
    m ∈ H ↔ m ∈ l ++ held := by
  rw [h.eq, List.mem_append, or_comm]
  exact Iff.rfl

/-- If every body obeys the order from the mutexes that its function may be called with, every request is above all
mutexes that the thread holds. -/
theorem Asks.above {lt : M → M → Prop} {S : O → List M → Prop} (hbody : ∀ o, Checked may body o)
    (hS : ∀ o held, S o held → (body o).Obeys may lt S held []) {p : Stmt M G O} {H K : Set M} {m : M}
    (h : Asks may body p H m K) : ∀ {Q : Flow → List M → Prop} {held l : List M}, p.wp may Q l →
      p.Obeys may lt S held l → Holding {a | a ∈ held} l H → ∀ a ∈ K, lt a m := by
  induction h with
  | lock => exact fun _ ho hl a ha => ho a ((hl.mem_append a).mp ha)
  | first _ ih => exact fun hw ho hl => ih hw ho.1 hl
  | second he _ ih =>
    intro Q held l hw ho hl
    obtain ⟨l', ⟨hw', ha⟩, hl'⟩ := he.wp hbody (Stmt.wp_and hw ho.2.1) hl
    exact ih hw' (ho.2.2 l' (ha rfl)) hl'
  | @ite g b p q H m K hg _ ih =>
    intro Q held l hw ho hl
    cases b
    · exact ih (hw.2 hg) (ho.2 hg) hl
    · exact ih (hw.1 hg) (ho.1 hg) hl
  | turn hg _ ih => exact fun hw ho hl => ih (hw.1 hg) (ho hg) hl
  | again hg he hf _ ih =>
    -- the turn ends with the list it began with
    intro Q held l hw ho hl
    obtain ⟨l', hw', hl'⟩ := he.wp hbody (hw.1 hg) hl
    rw [if_pos hf] at hw'
    subst hw'
    exact ih hw ho hl'
  | @call F o H m K hF _ ih =>
    -- the function that is called starts with a list of its own
    intro Q held l _ ho hl
    refine ih (hbody o) (hS o _ (ho o hF)) ?_
    have hH : H = {a | a ∈ l ++ held} := Set.ext hl.mem_append
    exact hH ▸ .nil _

end Balance
