import XPlayer.Lib.System

/-!
# The workers of an `XThread`

`Start`, `Stop` and `ThreadMain` of one `XThread` object, with one controller that calls `Stop` before
each further `Start`, and the detached workers it has spawned. Each access of `isExit` and `isRunning`
is one step. `guarded` says that the loop body takes a mutex the controller may hold (`IPlayer::Main`
takes the mutex that `IPlayer::Close` and `IPlayer::Start` hold); the bounded wait of `Stop` may expire
at any poll.

A worker that has not yet set `isRunning`, or that outlives the wait, is not seen by `Stop`; the next
`Start` re-arms `isExit` under it. `life_one_worker` is what holds when no earlier worker is alive at
any `Start`.
-/

namespace XPlayer

/-- Where a worker is in `ThreadMain`. -/
inductive WorkerPc
  | unborn
  /-- Spawned, before `isRunning = true`. -/
  | born
  /-- In `Main`, at the test `while (!isExit)`. -/
  | top
  /-- In `Main`, in the loop body. -/
  | body
  /-- `Main` has returned, before `isRunning = false`. -/
  | leaving
  | done
  deriving DecidableEq

def WorkerPc.inMain : WorkerPc → Bool
  | .top | .body => true
  | _ => false

def WorkerPc.alive : WorkerPc → Bool
  | .unborn | .done => false
  | _ => true

/-- Where the controller is. -/
inductive CtlPc
  | idle
  /-- In `Start`, before the thread is created. -/
  | starting
  /-- In the wait loop of `Stop`. -/
  | stopping
  deriving DecidableEq

structure Life where
  isExit : Bool := false
  isRunning : Bool := false
  isPause : Bool := false
  ctl : CtlPc := .idle
  /-- The controller holds the mutex that a guarded loop body takes. -/
  muxHeld : Bool := false
  /-- `Stop` has returned since the last `Start`, or there was none. -/
  mayStart : Bool := true
  /-- The last `Stop` returned because it saw `isRunning == false`, and no `Start` has begun since. -/
  sawStopped : Bool := false
  workers : ℕ → WorkerPc := fun _ => .unborn
  spawned : ℕ := 0

inductive LifeAct
  | lock
  | unlock
  /-- `Start`: `isExit = false; isPause = false`. -/
  | start
  /-- `Start`: the detached thread is created. -/
  | spawn
  /-- `Stop`: `isExit = true`. -/
  | stop
  /-- `Stop`: one test of `isRunning`. -/
  | poll
  /-- `Stop`: the wait is over. -/
  | expire
  /-- One step of a worker. -/
  | worker (n : ℕ)

namespace Life

def setWorker (l : Life) (n : ℕ) (pc : WorkerPc) : Life :=
  { l with workers := Function.update l.workers n pc }

/-- One step of worker `n` in `ThreadMain` and `Main`. -/
def stepWorker (guarded : Bool) (n : ℕ) (l : Life) : Option Life :=
  match l.workers n with
  | .unborn | .done => none
  | .born => some { l.setWorker n .top with isRunning := true }
  | .top => some (l.setWorker n (if l.isExit then .leaving else .body))
  | .body => if guarded && l.muxHeld then none else some (l.setWorker n .top)
  | .leaving => some { l.setWorker n .done with isRunning := false }

def step (guarded : Bool) : LifeAct → Life → Option Life
  | .lock, l => if l.ctl = .idle ∧ l.muxHeld = false then some { l with muxHeld := true } else none
  | .unlock, l => if l.ctl = .idle ∧ l.muxHeld = true then some { l with muxHeld := false } else none
  | .start, l =>
    if l.ctl = .idle ∧ l.mayStart = true then
      some { l with ctl := .starting, isExit := false, isPause := false, mayStart := false,
                    sawStopped := false }
    else none
  | .spawn, l =>
    if l.ctl = .starting then
      some { l.setWorker l.spawned .born with ctl := .idle, spawned := l.spawned + 1 }
    else none
  | .stop, l => if l.ctl = .idle then some { l with ctl := .stopping, isExit := true } else none
  | .poll, l =>
    if l.ctl = .stopping then
      some (if l.isRunning then l else { l with ctl := .idle, mayStart := true, sawStopped := true })
    else none
  | .expire, l => if l.ctl = .stopping then some { l with ctl := .idle, mayStart := true } else none
  | .worker n, l => l.stepWorker guarded n

/-- At most one worker is inside `Main`. -/
def OneInMain (l : Life) : Prop :=
  ∀ m n, (l.workers m).inMain = true → (l.workers n).inMain = true → m = n

/-- After a `Stop` that saw the worker stopped, no loop body is executed. -/
def Quiet (l : Life) : Prop := l.sawStopped = true → ∀ n, l.workers n ≠ .body

/-- `Start` is called only when no worker spawned earlier is alive. -/
def StartsAlone (a : LifeAct) (l : Life) : Prop :=
  match a with
  | .start => ∀ n, (l.workers n).alive = false
  | _ => True

end Life

/-- An `XThread` object with its workers, from its construction. -/
def life (guarded : Bool) : Sys Life LifeAct where
  init l := l = {}
  step := Life.step guarded

namespace Life

/-- What a run in which every `Start` finds no worker alive keeps. -/
structure Inv (l : Life) : Prop where
  unborn : ∀ n, l.spawned ≤ n → l.workers n = .unborn
  alone : ∀ m n, (l.workers m).alive = true → (l.workers n).alive = true → m = n
  starting : l.ctl = .starting → ∀ n, (l.workers n).alive = false
  /-- While `isRunning` is false the only live worker has not entered `Main`. -/
  running : l.isRunning = false → ∀ n, (l.workers n).alive = true → l.workers n = .born
  stopping : l.ctl = .stopping → l.isExit = true
  quiet : l.sawStopped = true → l.isExit = true ∧ ∀ n, l.workers n ≠ .body

theorem alive_of_inMain {pc : WorkerPc} (h : pc.inMain = true) : pc.alive = true := by
  cases pc <;> first | rfl | cases h

theorem Inv.init : Inv {} where
  unborn _ _ := rfl
  alone m n h := by cases h
  starting h := by cases h
  running _ n h := by cases h
  stopping h := by cases h
  quiet h := by cases h

variable {l l' : Life}

theorem Inv.frame (h : Inv l) (hw : l'.workers = l.workers) (hs : l'.spawned = l.spawned)
    (hr : l'.isRunning = l.isRunning)
    (hst : l'.ctl = .starting → ∀ n, (l.workers n).alive = false)
    (hsp : l'.ctl = .stopping → l'.isExit = true)
    (hq : l'.sawStopped = true → l'.isExit = true ∧ ∀ n, l.workers n ≠ .body) : Inv l' where
  unborn := by rw [hw, hs]; exact h.unborn
  alone := by rw [hw]; exact h.alone
  starting := by rw [hw]; exact hst
  running := by rw [hw, hr]; exact h.running
  stopping := hsp
  quiet := by rw [hw]; exact hq

/-- A live worker moves on to `pc`; the others are not alive. -/
theorem Inv.moveWorker (h : Inv l) {n : ℕ} (hn : (l.workers n).alive = true) (pc : WorkerPc) (r : Bool)
    (hr : r = false → pc.alive = true → pc = .born) (hb : pc = .body → l.isExit = false) :
    Inv { l.setWorker n pc with isRunning := r } := by
  have hothers : ∀ m, m ≠ n → (l.workers m).alive = false := fun m hm => by
    rcases hma : (l.workers m).alive with _ | _
    · rfl
    · exact absurd (h.alone m n hma hn) hm
  refine ⟨fun m hm => ?_, fun m k hm hk => ?_, fun hst => ?_, fun hf m hm => ?_, h.stopping, fun hq => ?_⟩
  · have hmn : m ≠ n := by
      rintro rfl
      rw [h.unborn m hm] at hn
      cases hn
    simpa [setWorker, Function.update_of_ne hmn] using h.unborn m hm
  · have key : ∀ j, (Function.update l.workers n pc j).alive = true → j = n := fun j hj => by
      by_contra hjn
      rw [Function.update_of_ne hjn, hothers j hjn] at hj
      cases hj
    rw [key m hm, key k hk]
  · have := h.starting hst n
    rw [hn] at this
    cases this
  · have hmn : m = n := by
      by_contra hmn
      simp only [setWorker, Function.update_of_ne hmn, hothers m hmn] at hm
      cases hm
    subst hmn
    simp only [setWorker, Function.update_self] at hm ⊢
    exact hr hf hm
  · obtain ⟨hx, hnb⟩ := h.quiet hq
    refine ⟨hx, fun m => ?_⟩
    by_cases hmn : m = n
    · subst hmn
      simp only [setWorker, Function.update_self]
      intro hpc
      rw [hb hpc] at hx
      cases hx
    · simpa [setWorker, Function.update_of_ne hmn] using hnb m

theorem Inv.stepWorker (h : Inv l) {guarded : Bool} {n : ℕ} (hs : l.stepWorker guarded n = some l') :
    Inv l' := by
  unfold Life.stepWorker at hs
  have hrun := h.running
  split at hs
  · cases hs
  · cases hs
  · rename_i hpc
    cases hs
    exact h.moveWorker (by rw [hpc]; rfl) .top true (by simp) (by simp)
  · rename_i hpc
    cases hs
    have hr : l.isRunning = true := by
      by_contra hf
      have := hrun (by simpa using hf) n (by rw [hpc]; rfl)
      rw [hpc] at this
      cases this
    refine h.moveWorker (l := l) (by rw [hpc]; rfl) _ l.isRunning (by simp [hr]) fun hb => ?_
    by_contra hx
    simp [hx] at hb
  · rename_i hpc
    split at hs
    · cases hs
    · cases hs
      have hr : l.isRunning = true := by
        by_contra hf
        have := hrun (by simpa using hf) n (by rw [hpc]; rfl)
        rw [hpc] at this
        cases this
      exact h.moveWorker (l := l) (by rw [hpc]; rfl) .top l.isRunning (by simp [hr]) (by simp)
  · rename_i hpc
    cases hs
    exact h.moveWorker (by rw [hpc]; rfl) .done false (fun _ h => by cases h) (by simp)

theorem Inv.step (h : Inv l) {guarded : Bool} {a : LifeAct} (ha : StartsAlone a l)
    (hs : Life.step guarded a l = some l') : Inv l' := by
  cases a with
  | worker n => exact h.stepWorker hs
  | lock | unlock =>
    simp only [Life.step] at hs
    split at hs <;> cases hs
    exact h.frame rfl rfl rfl h.starting h.stopping h.quiet
  | start =>
    simp only [Life.step] at hs
    split at hs <;> cases hs
    exact h.frame rfl rfl rfl (fun _ => ha) (by simp) (by simp)
  | spawn =>
    simp only [Life.step] at hs
    split at hs <;> cases hs
    rename_i hc
    have hdead := h.starting hc
    have key : ∀ j, (Function.update l.workers l.spawned .born j).alive = true → j = l.spawned :=
      fun j hj => by
        by_contra hjn
        rw [Function.update_of_ne hjn, hdead j] at hj
        cases hj
    refine ⟨fun m hm => ?_, fun m k hm hk => ?_, by simp, fun _ m hm => ?_, by simp, fun hq => ?_⟩
    · have hm' : l.spawned + 1 ≤ m := hm
      have hne : m ≠ l.spawned := by omega
      simpa [setWorker, Function.update_of_ne hne] using h.unborn m (by omega)
    · rw [key m hm, key k hk]
    · obtain rfl := key m hm
      simp [setWorker]
    · obtain ⟨hx, hnb⟩ := h.quiet hq
      refine ⟨hx, fun m => ?_⟩
      by_cases hmn : m = l.spawned
      · subst hmn; simp [setWorker]
      · simpa [setWorker, Function.update_of_ne hmn] using hnb m
  | stop =>
    simp only [Life.step] at hs
    split at hs <;> cases hs
    exact h.frame rfl rfl rfl (by simp) (fun _ => rfl) fun hq => ⟨rfl, (h.quiet hq).2⟩
  | poll =>
    simp only [Life.step] at hs
    split at hs <;> cases hs
    rename_i hc
    split
    · exact h
    · rename_i hr
      refine h.frame rfl rfl rfl (by simp) (by simp) fun _ => ⟨h.stopping hc, fun n hn => ?_⟩
      have := h.running (by simpa using hr) n (by rw [hn]; rfl)
      rw [hn] at this
      cases this
  | expire =>
    simp only [Life.step] at hs
    split at hs <;> cases hs
    exact h.frame rfl rfl rfl (by simp) (by simp) h.quiet

end Life

open Life

/-- In every run in which no earlier worker is alive at any `Start`, at most one worker is inside
`Main`, and after a `Stop` that saw `isRunning == false` no loop body is executed. -/
theorem life_one_worker (guarded : Bool) {l : Life} (h : (life guarded).Reach StartsAlone l) :
    OneInMain l ∧ Quiet l := by
  have hI : Inv l := h.inv (fun _ hs => hs ▸ Inv.init) fun a s t hi ha hs => hi.step ha hs
  exact ⟨fun m n hm hn => hI.alone m n (alive_of_inMain hm) (alive_of_inMain hn), fun hq => (hI.quiet hq).2⟩

/-- The start, the loop body and the stop of a worker. -/
theorem life_one_worker_session : ∃ l, l.sawStopped = true ∧ l.workers 0 = .done ∧ OneInMain l ∧ Quiet l :=
  ⟨_, rfl, rfl, life_one_worker true ⟨{}, rfl, .cons (t := _) (a := .lock) trivial rfl <|
    .cons (a := .start) (fun _ => rfl) rfl <| .cons (a := .spawn) trivial rfl <|
    .cons (a := .unlock) trivial rfl <| .cons (a := .worker 0) trivial rfl <|
    .cons (a := .worker 0) trivial rfl <| .cons (a := .worker 0) trivial rfl <|
    .cons (a := .stop) trivial rfl <| .cons (a := .worker 0) trivial rfl <|
    .cons (a := .worker 0) trivial rfl <| .cons (a := .poll) trivial rfl .refl⟩⟩

/-- A `Stop` that comes before the worker has set `isRunning` returns at once, and the next `Start`
leaves two workers in `Main`. -/
theorem life_two_workers :
    ¬ ∀ l, (life true).Reach Sys.any l → OneInMain l ∧ Quiet l := by
  intro h
  have hr : (life true).exec [.lock, .start, .spawn, .unlock, .lock, .stop, .poll, .unlock, .lock,
      .start, .spawn, .unlock, .worker 0, .worker 1] {} = some _ := rfl
  have h01 := (h _ ⟨{}, rfl, .of_exec_any hr⟩).1 0 1 rfl rfl
  cases h01

end XPlayer
