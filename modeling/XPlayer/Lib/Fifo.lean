import Mathlib.Data.List.Basic

/-!
# Histories of a queue

`Queued l q` says that `q` is the content of a queue with the history `l` (newest first) of insertions, removals
and clears, from an empty queue. What has left the queue and what is in it are, in this order, what was
inserted (`Queued.exits`): everything leaves at most once, in the order of insertion. A clear starts a new
history (`Queued.since_clear`).
-/

namespace Fifo
variable {α : Type*}

inductive Op (α : Type*)
  | put (x : α)
  | get (x : α)
  /-- The content was removed. -/
  | clear (xs : List α)

/-- How an element has left the queue. -/
inductive Exit (α : Type*)
  | got (x : α)
  | cleared (x : α)

def Exit.val : Exit α → α
  | .got x | .cleared x => x

def Exit.taken : Exit α → Option α
  | .got x => some x
  | .cleared _ => none

/-- The elements inserted, oldest first. -/
def puts : List (Op α) → List α
  | [] => []
  | .put x :: l => puts l ++ [x]
  | .get _ :: l | .clear _ :: l => puts l

/-- The elements taken, oldest first. -/
def gets : List (Op α) → List α
  | [] => []
  | .get x :: l => gets l ++ [x]
  | .put _ :: l | .clear _ :: l => gets l

/-- What has left the queue, oldest first. -/
def exits : List (Op α) → List (Exit α)
  | [] => []
  | .put _ :: l => exits l
  | .get x :: l => exits l ++ [.got x]
  | .clear xs :: l => exits l ++ xs.map .cleared

/-- `q` is the content after the history `l`. -/
inductive Queued : List (Op α) → List α → Prop
  | nil : Queued [] []
  | put {l q} (x : α) (h : Queued l q) : Queued (.put x :: l) (q ++ [x])
  | get {l q} {x : α} (h : Queued l (x :: q)) : Queued (.get x :: l) q
  | clear {l q} (h : Queued l q) : Queued (.clear q :: l) []

theorem map_val_cleared (xs : List α) : (xs.map Exit.cleared).map Exit.val = xs := by
  rw [List.map_map]
  exact List.map_id xs

theorem taken_cleared (xs : List α) : (xs.map Exit.cleared).filterMap Exit.taken = [] := by
  rw [List.filterMap_map]
  exact List.filterMap_none xs

theorem gets_eq (l : List (Op α)) : gets l = (exits l).filterMap Exit.taken := by
  induction l with
  | nil => rfl
  | cons o l ih =>
    cases o with
    | put => exact ih
    | get x => rw [gets, exits, List.filterMap_append, ih]; rfl
    | clear xs => rw [gets, exits, List.filterMap_append, taken_cleared, List.append_nil, ih]

theorem gets_sublist_exits (l : List (Op α)) : (gets l).Sublist ((exits l).map Exit.val) := by
  rw [gets_eq]
  induction exits l with
  | nil => exact .slnil
  | cons e es ih =>
    cases e with
    | got x => exact ih.cons_cons x
    | cleared x => exact ih.cons x

namespace Queued
variable {l : List (Op α)} {q : List α}

/-- What has left the queue, and then what is in it, is what was inserted. -/
theorem exits (h : Queued l q) : (exits l).map Exit.val ++ q = puts l := by
  induction h with
  | nil => rfl
  | put x h ih => rw [puts, ← ih, List.append_assoc, Fifo.exits]
  | get h ih => rw [puts, ← ih, Fifo.exits, List.map_append, List.append_assoc]; rfl
  | clear h ih => rw [puts, ← ih, Fifo.exits, List.map_append, map_val_cleared, List.append_nil]

/-- Elements are taken in the order of insertion. -/
theorem gets_sublist (h : Queued l q) : (gets l).Sublist (puts l) := by
  rw [← h.exits]
  exact (gets_sublist_exits l).trans (List.sublist_append_left ..)

/-- From a clear on, the history is that of an empty queue. -/
theorem since_clear {new old : List (Op α)} {xs : List α} (h : Queued (new ++ .clear xs :: old) q) :
    Queued new q := by
  induction new generalizing q with
  | nil => cases h; exact .nil
  | cons o new ih =>
    cases h with
    | put x h => exact (ih h).put x
    | get h => exact (ih h).get
    | clear h => exact (ih h).clear

end Queued

end Fifo
