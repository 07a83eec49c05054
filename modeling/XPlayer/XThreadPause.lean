import XPlayer.Lib.System

/-!
# The pause handshake of an `XThread`

`SetPause` by one controller and `IsPause` by the single worker, whose `Main` is a loop as in
`IDemux::Main` and `IDecode::Main`: it tests `isExit`, calls `IsPause` and goes on to the loop body only
if that returns false. `IsPause` reads `isPause` twice, around its write of `isPausing`; each access of a
flag is one step, and the bounded wait of `SetPause` may expire.

The handshake fails when `isPausing` still holds the value of an earlier pause: `Acknowledged` is the
condition under which it holds (`pause_quiescent`).
-/

namespace XPlayer

/-- Where the worker is. -/
inductive LoopPc
  | none
  | exitTest
  /-- `IsPause`, before `isPausing = isPause` reads `isPause`. -/
  | read
  /-- `IsPause`, before the write of `b` to `isPausing`. -/
  | write (b : Bool)
  /-- `IsPause`, before `return isPause`. -/
  | return
  | body
  | done
  deriving DecidableEq

structure Pause where
  isExit : Bool := false
  isPause : Bool := false
  isPausing : Bool := false
  worker : LoopPc := .none
  /-- In the wait of `SetPause(isP)`. -/
  waiting : Option Bool := none
  /-- A `SetPause(true)` has returned because it saw `isPausing == true`, and neither `SetPause(false)` nor
  `Start` has been called since. -/
  paused : Bool := false

inductive PauseAct
  | start
  | stop
  | setPause (isP : Bool)
  /-- `SetPause` compares `isPausing` with `isP`. -/
  | poll
  | expire
  | worker
  deriving DecidableEq

namespace Pause

def stepWorker (s : Pause) : Option Pause :=
  match s.worker with
  | .none | .done => none
  | .exitTest => some { s with worker := if s.isExit then .done else .read }
  | .read => some { s with worker := .write s.isPause }
  | .write b => some { s with isPausing := b, worker := .return }
  | .return => some { s with worker := if s.isPause then .exitTest else .body }
  | .body => some { s with worker := .exitTest }

def step : PauseAct → Pause → Option Pause
  | .start, s =>
    if s.waiting = none ∧ (s.worker = .none ∨ s.worker = .done) then
      some { s with isExit := false, isPause := false, worker := .exitTest, paused := false }
    else none
  | .stop, s => if s.waiting = none then some { s with isExit := true } else none
  | .setPause isP, s =>
    if s.waiting = none then
      some { s with isPause := isP, waiting := some isP, paused := s.paused && isP }
    else none
  | .poll, s =>
    s.waiting.map fun isP =>
      if s.isPausing = isP then { s with waiting := none, paused := s.paused || isP } else s
  | .expire, s => s.waiting.map fun _ => { s with waiting := none }
  | .worker, s => s.stepWorker

/-- While paused, the worker is not inside its loop body. -/
def Quiescent (s : Pause) : Prop := s.paused = true → s.worker ≠ .body

/-- The condition on the steps of a run: no `SetPause(true)` finds the worker in its loop body while
`isPausing` is still true from an earlier pause. -/
def Acknowledged (a : PauseAct) (s : Pause) : Prop :=
  a = .setPause true → s.isPausing = true → s.worker ≠ .body

instance (a : PauseAct) (s : Pause) : Decidable (Acknowledged a s) :=
  inferInstanceAs (Decidable (_ → _ → _))

/-- What keeps the worker out of the loop body once `isPausing` has been seen. -/
structure Inv (s : Pause) : Prop where
  waiting : s.waiting = some true → s.isPause = true ∧ (s.isPausing = true → s.worker ≠ .body)
  paused : s.paused = true → s.isPause = true ∧ s.worker ≠ .body

variable {s s' : Pause}

theorem Inv.stepWorker (h : Inv s) (hs : s.stepWorker = some s') : Inv s' := by
  unfold Pause.stepWorker at hs
  split at hs
  · cases hs
  · cases hs
  · cases hs
    exact ⟨fun hw => ⟨(h.waiting hw).1, fun _ => by show ite _ _ _ ≠ _; split <;> simp⟩,
      fun hp => ⟨(h.paused hp).1, by show ite _ _ _ ≠ _; split <;> simp⟩⟩
  · cases hs
    exact ⟨fun hw => ⟨(h.waiting hw).1, by simp⟩, fun hp => ⟨(h.paused hp).1, by simp⟩⟩
  · cases hs
    exact ⟨fun hw => ⟨(h.waiting hw).1, by simp⟩, fun hp => ⟨(h.paused hp).1, by simp⟩⟩
  · -- the second read sees the `isPause` of this pause
    cases hs
    exact ⟨fun hw => ⟨(h.waiting hw).1, by simp [(h.waiting hw).1]⟩,
      fun hp => ⟨(h.paused hp).1, by simp [(h.paused hp).1]⟩⟩
  · cases hs
    exact ⟨fun hw => ⟨(h.waiting hw).1, by simp⟩, fun hp => ⟨(h.paused hp).1, by simp⟩⟩

theorem Inv.step (h : Inv s) {a : PauseAct} (ha : Acknowledged a s) (hs : Pause.step a s = some s') :
    Inv s' := by
  cases a with
  | start =>
    simp only [Pause.step] at hs
    split at hs <;> cases hs
    rename_i hc
    exact ⟨fun hw => absurd hw (by simp [hc.1]), by simp⟩
  | stop =>
    simp only [Pause.step] at hs
    split at hs <;> cases hs
    exact ⟨h.waiting, h.paused⟩
  | setPause isP =>
    simp only [Pause.step] at hs
    split at hs <;> cases hs
    refine ⟨fun hw => ?_, fun hp => ?_⟩
    · obtain rfl : isP = true := by simpa using hw
      exact ⟨rfl, ha rfl⟩
    · obtain ⟨hq, rfl⟩ : s.paused = true ∧ isP = true := by simpa using hp
      exact ⟨rfl, (h.paused hq).2⟩
  | poll =>
    obtain ⟨isP, hw, rfl⟩ := Option.map_eq_some_iff.mp hs
    split
    · rename_i hb
      refine ⟨by simp, fun hp => ?_⟩
      rcases Bool.eq_false_or_eq_true s.paused with hp' | hp'
      · exact h.paused hp'
      · obtain rfl : isP = true := by simpa [hp'] using hp
        exact ⟨(h.waiting hw).1, (h.waiting hw).2 hb⟩
    · exact h
  | expire =>
    obtain ⟨isP, -, rfl⟩ := Option.map_eq_some_iff.mp hs
    exact ⟨by simp, h.paused⟩
  | worker => exact h.stepWorker hs

end Pause

/-- An `XThread` that has not been started. -/
def pause : Sys Pause PauseAct where
  init s := s = {}
  step := Pause.step

open Pause

/-- In every run in which no `SetPause(true)` finds the worker in its loop body with `isPausing` still
true, a `SetPause(true)` that saw `isPausing == true` has stopped the worker. -/
theorem pause_quiescent {s : Pause} (h : pause.Reach Acknowledged s) : s.Quiescent := by
  have hI : Inv s := h.inv (fun _ hs => hs ▸ ⟨by simp, by simp⟩) fun a s t hi ha hs => hi.step ha hs
  exact fun hp => (hI.paused hp).2

/-- A pause that the worker acknowledges. -/
theorem pause_quiescent_once : ∃ s : Pause, s.paused = true ∧ s.Quiescent := by
  have hr : (pause.execIf Acknowledged [.start, .worker, .worker, .setPause true, .worker, .worker, .worker,
      .worker, .worker, .worker, .poll] {}).map Pause.paused = some true := rfl
  obtain ⟨s, hs, hp⟩ := Option.map_eq_some_iff.mp hr
  exact ⟨s, hp, pause_quiescent ⟨{}, rfl, .of_execIf hs⟩⟩

/-- The worker reads `isPause` in a first pause and writes `isPausing` after its release: the next
`SetPause(true)` returns at once with the worker in its loop body. -/
theorem pause_stale : ¬ ∀ s, pause.Reach Sys.any s → s.Quiescent := by
  intro h
  have hr : (pause.exec [.start, .setPause true, .worker, .worker, .expire, .setPause false, .poll, .worker,
      .worker, .setPause true, .poll] {}).map (fun s => (s.paused, s.worker)) = some (true, .body) := rfl
  obtain ⟨s, hs, he⟩ := Option.map_eq_some_iff.mp hr
  simp only [Prod.mk.injEq] at he
  exact h s ⟨{}, rfl, .of_exec_any hs⟩ he.1 he.2

end XPlayer
