import XPlayer.Lib.History
import Mathlib.Data.List.Nodup
import Mathlib.Data.List.Count

/-!
# Life cycles

A program creates, uses and destroys objects; `act e` says which of this an event `e` of its history (newest first)
is. `live` are the objects that are created and not destroyed. `Sound` is the invariant of a program that uses and
destroys only live objects: `ok a y` says which live objects `y` there may be when `a` is done, and `key` numbers the
objects in the order of their creation, so that no object is created twice. One rule for each kind of event keeps it.
-/

namespace Lifecycle
open History
variable {ε α : Type*}

inductive Ev (α : Type*)
  | create (x : α)
  | use (x : α)
  | destroy (x : α)
  | other

def Ev.created : Ev α → Option α
  | .create x => some x
  | _ => none

def Ev.destroyed : Ev α → Option α
  | .destroy x => some x
  | _ => none

def created (act : ε → Ev α) (log : List ε) : List α := log.filterMap fun e => (act e).created

def destroyed (act : ε → Ev α) (log : List ε) : List α := log.filterMap fun e => (act e).destroyed

variable [DecidableEq α] {act : ε → Ev α}

/-- The objects that are created and not destroyed, newest first. -/
def live (act : ε → Ev α) : List ε → List α
  | [] => []
  | e :: old =>
    match act e with
    | .create x => x :: live act old
    | .destroy x => (live act old).erase x
    | _ => live act old

/-- Only live objects are used and destroyed. -/
def Held (act : ε → Ev α) (e : ε) (old : List ε) : Prop :=
  match act e with
  | .use x | .destroy x => x ∈ live act old
  | _ => True

variable {ok : Ev α → α → Prop} {key : α → ℕ} {n : ℕ} {e : ε} {log : List ε} {l : List α} {x : α}

/-- What is created is destroyed or live. -/
theorem created_perm (h : Always (Held act) log) :
    (created act log).Perm (destroyed act log ++ live act log) := by
  induction log with
  | nil => exact .nil
  | cons e log ih =>
    obtain ⟨he, h⟩ := always_cons.mp h
    have ih := ih h
    unfold created destroyed at ih ⊢
    unfold Held at he
    rcases ha : act e with x | x | x | _
    · simp only [live, ha, Ev.created, Ev.destroyed, List.filterMap_cons]
      exact (ih.cons x).trans List.perm_middle.symm
    · simpa only [live, ha, Ev.created, Ev.destroyed, List.filterMap_cons] using ih
    · simp only [ha] at he
      simp only [live, ha, Ev.created, Ev.destroyed, List.filterMap_cons, List.cons_append]
      exact ih.trans (((List.perm_cons_erase he).append_left _).trans List.perm_middle)
    · simpa only [live, ha, Ev.created, Ev.destroyed, List.filterMap_cons] using ih

/-- The history `log` of a program whose live objects are `l` and whose next object has the key `n`. -/
structure Sound (act : ε → Ev α) (ok : Ev α → α → Prop) (key : α → ℕ) (n : ℕ) (log : List ε) (l : List α) :
    Prop where
  held : Always (Held act) log
  ok : Always (fun e old => ∀ y ∈ live act old, ok (act e) y) log
  live : (live act log).Perm l
  keys : ((created act log).map key).Nodup
  below : ∀ x ∈ created act log, key x < n

namespace Sound

theorem nil : Sound act ok key n [] [] := ⟨always_nil, always_nil, .nil, .nil, by simp [created]⟩

theorem perm {l' : List α} (h : Sound act ok key n log l) (hl : l.Perm l') : Sound act ok key n log l' :=
  { h with live := h.live.trans hl }

theorem mem_live (h : Sound act ok key n log l) : x ∈ Lifecycle.live act log ↔ x ∈ l := h.live.mem_iff

/-! ### One more event -/

theorem always_ok (h : Sound act ok key n log l) (hok : ∀ y ∈ l, ok (act e) y) :
    Always (fun e old => ∀ y ∈ Lifecycle.live act old, ok (act e) y) (e :: log) :=
  always_cons.mpr ⟨fun y hy => hok y (h.mem_live.mp hy), h.ok⟩

theorem create (h : Sound act ok key n log l) (ha : act e = .create x) (hx : key x = n)
    (hok : ∀ y ∈ l, ok (.create x) y) : Sound act ok key (n + 1) (e :: log) (x :: l) where
  held := always_cons.mpr ⟨by simp [Held, ha], h.held⟩
  ok := h.always_ok (by rwa [ha])
  live := by simpa only [Lifecycle.live, ha] using h.live.cons x
  keys := by
    have hc : created act (e :: log) = x :: created act log := by simp [created, ha, Ev.created]
    rw [hc, List.map_cons, List.nodup_cons, hx]
    refine ⟨fun hm => ?_, h.keys⟩
    obtain ⟨y, hy, hn⟩ := List.mem_map.mp hm
    exact absurd (h.below y hy) (by omega)
  below := by
    have hc : created act (e :: log) = x :: created act log := by simp [created, ha, Ev.created]
    rw [hc, List.forall_mem_cons]
    exact ⟨by omega, fun y hy => Nat.lt_succ_of_lt (h.below y hy)⟩

theorem use (h : Sound act ok key n log l) (ha : act e = .use x) (hx : x ∈ l) (hok : ∀ y ∈ l, ok (.use x) y) :
    Sound act ok key n (e :: log) l where
  held := always_cons.mpr ⟨by simpa [Held, ha] using h.mem_live.mpr hx, h.held⟩
  ok := h.always_ok (by rwa [ha])
  live := by simpa only [Lifecycle.live, ha] using h.live
  keys := by simpa [created, ha, Ev.created] using h.keys
  below := by simpa [created, ha, Ev.created] using h.below

theorem destroy (h : Sound act ok key n log (x :: l)) (ha : act e = .destroy x)
    (hok : ∀ y ∈ x :: l, ok (.destroy x) y) : Sound act ok key n (e :: log) l where
  held := always_cons.mpr ⟨by simp only [Held, ha]; exact h.mem_live.mpr (by simp), h.held⟩
  ok := h.always_ok (by rwa [ha])
  live := by simpa only [Lifecycle.live, ha, List.erase_cons_head] using h.live.erase x
  keys := by simpa [created, ha, Ev.created] using h.keys
  below := by simpa [created, ha, Ev.created] using h.below

theorem other (h : Sound act ok key n log l) (ha : act e = .other) (hok : ∀ y ∈ l, ok .other y) :
    Sound act ok key n (e :: log) l where
  held := always_cons.mpr ⟨by simp [Held, ha], h.held⟩
  ok := h.always_ok (by rwa [ha])
  live := by simpa only [Lifecycle.live, ha] using h.live
  keys := by simpa [created, ha, Ev.created] using h.keys
  below := by simpa [created, ha, Ev.created] using h.below

theorem use_toList {o : Option α} {f : α → ε} (h : Sound act ok key n log l) (ha : ∀ x, act (f x) = .use x)
    (ho : ∀ x ∈ o, x ∈ l ∧ ∀ y ∈ l, ok (.use x) y) : Sound act ok key n (o.toList.map f ++ log) l := by
  cases o with
  | none => exact h
  | some x => exact h.use (ha x) (ho x rfl).1 (ho x rfl).2

theorem destroy_toList {o : Option α} {f : α → ε} (h : Sound act ok key n log (o.toList ++ l))
    (ha : ∀ x, act (f x) = .destroy x) (ho : ∀ x ∈ o, ∀ y ∈ x :: l, ok (.destroy x) y) :
    Sound act ok key n (o.toList.map f ++ log) l := by
  cases o with
  | none => exact h
  | some x => exact h.destroy (ha x) (ho x rfl)

/-- The objects of a list are destroyed one after the other. -/
theorem destroy_list {xs : List α} {f : α → ε} (h : Sound act ok key n log (xs ++ l))
    (ha : ∀ x, act (f x) = .destroy x) (hok : ∀ x y, ok (.destroy x) y) :
    Sound act ok key n ((xs.reverse.map f) ++ log) l := by
  induction xs generalizing log with
  | nil => exact h
  | cons x xs ih =>
    have hx : Sound act ok key n (f x :: log) (xs ++ l) := h.destroy (ha x) fun y _ => hok x y
    simpa using ih hx

/-! ### What it is good for -/

theorem suffix {old : List ε} (h : Sound act ok key n log l) (ho : old <:+ log) :
    Sound act ok key n old (Lifecycle.live act old) where
  held := h.held.suffix ho
  ok := h.ok.suffix ho
  live := .refl _
  keys := h.keys.sublist ((ho.sublist.filterMap _).map _)
  below := fun x hx => h.below x ((ho.sublist.filterMap _).subset hx)

theorem created_nodup (h : Sound act ok key n log l) : (created act log).Nodup := .of_map _ h.keys

theorem eq_of_key {y : α} (h : Sound act ok key n log l) (hx : x ∈ created act log) (hy : y ∈ created act log)
    (hk : key x = key y) : x = y := List.inj_on_of_nodup_map h.keys hx hy hk

theorem destroyed_created (h : Sound act ok key n log l) (hx : x ∈ destroyed act log) : x ∈ created act log :=
  (created_perm h.held).mem_iff.mpr (List.mem_append_left _ hx)

theorem destroyed_nodup (h : Sound act ok key n log l) : (destroyed act log).Nodup :=
  (List.nodup_append.mp ((created_perm h.held).nodup_iff.mp h.created_nodup)).1

theorem mem_destroyed (h : Sound act ok key n log l) (hx : x ∈ created act log) (hl : x ∉ l) : x ∈ destroyed act log :=
  (List.mem_append.mp ((created_perm h.held).mem_iff.mp hx)).resolve_right fun hm => hl (h.mem_live.mp hm)

/-- What is destroyed is destroyed once: among the objects with `q` it is the only one, if they all have its key. -/
theorem filter_destroyed (h : Sound act ok key n log l) (hx : x ∈ destroyed act log) {q : α → Bool} (hq : q x)
    (hk : ∀ y, q y → key y = key x) : (destroyed act log).filter q = [x] := by
  have hall : ∀ y ∈ (destroyed act log).filter q, y = x := by
    intro y hy
    obtain ⟨hy, hqy⟩ := List.mem_filter.mp hy
    exact h.eq_of_key (h.destroyed_created hy) (h.destroyed_created hx) (hk y hqy)
  have hnd := h.destroyed_nodup.filter q
  have hlen := List.length_pos_of_mem (List.mem_filter.mpr ⟨hx, hq⟩)
  rw [List.eq_replicate_of_mem hall] at hnd ⊢
  rw [le_antisymm (List.nodup_replicate.mp hnd) hlen]
  rfl

/-- No two live objects are of one kind, if none is created while one of its kind is live. -/
theorem kinds {κ : Type*} (h : Sound act ok key n log l) (kind : α → κ)
    (hk : ∀ x y, ok (.create x) y → kind y ≠ kind x) : ((Lifecycle.live act log).map kind).Nodup := by
  have hok := h.ok
  clear h
  induction log with
  | nil => exact .nil
  | cons e log ih =>
    obtain ⟨he, hok⟩ := always_cons.mp hok
    have ih := ih hok
    rcases ha : act e with x | x | x | _
    · simp only [Lifecycle.live, ha, List.map_cons, List.nodup_cons, List.mem_map, not_exists, not_and]
      exact ⟨fun y hy => hk x y (ha ▸ he y hy), ih⟩
    · simpa only [Lifecycle.live, ha] using ih
    · simpa only [Lifecycle.live, ha] using ih.sublist (List.erase_sublist.map _)
    · simpa only [Lifecycle.live, ha] using ih

theorem kind_le_one {κ : Type*} [DecidableEq κ] (h : Sound act ok key n log l) (kind : α → κ)
    (hk : ∀ x y, ok (.create x) y → kind y ≠ kind x) (k : κ) :
    ((Lifecycle.live act log).filter (fun y => kind y = k)).length ≤ 1 := by
  have hle := List.nodup_iff_count_le_one.mp (h.kinds kind hk) k
  rwa [List.count_eq_countP, List.countP_map, List.countP_eq_length_filter] at hle

end Sound

/-- If every operation only adds to the history, a run does. -/
theorem foldl_suffix {σ ο : Type*} {step : σ → ο → σ} {log : σ → List ε} (h : ∀ s o, log s <:+ log (step s o)) (s : σ)
    (ops : List ο) : log s <:+ log (ops.foldl step s) := by
  induction ops generalizing s with
  | nil => exact List.suffix_rfl
  | cons o ops ih => exact (h s o).trans (ih _)

end Lifecycle
