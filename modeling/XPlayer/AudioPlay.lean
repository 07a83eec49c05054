import XPlayer.Data

/-!
# `IAudioPlay` and `PlayCall`

The queue of PCM buffers between the audio decoder thread and the device callback. `update` is the
section of `Update` under `framesMutex`; `callStep` is one step of `PlayCall`, which runs `GetData`,
copies the buffer and hands it to the device.
-/

namespace XPlayer

structure IAudioPlay where
  frames : List XData := []
  maxFrame : ℕ := 100
  pts : ℤ := 0

namespace IAudioPlay

def clear (a : IAudioPlay) : IAudioPlay := { a with frames := [] }

/-- The data that `Update` takes at all. -/
def accepts (x : XData) : Prop := ¬ (x.size ≤ 0 ∨ x.data = .null)

instance (x : XData) : Decidable (accepts x) := inferInstanceAs (Decidable (¬ _))

/-- `Update` under `framesMutex`: `none` if the queue is full and the caller waits. -/
def update (a : IAudioPlay) (x : XData) : Option IAudioPlay :=
  if a.frames.length > a.maxFrame then none else some { a with frames := a.frames ++ [x] }

end IAudioPlay

/-- Where a `PlayCall` is. -/
inductive CallPc
  /-- `GetData`: `while (!isExit)`. -/
  | exitTest
  /-- `GetData`: `if (IsPause())`. -/
  | pauseTest
  /-- `GetData`: before the section under `framesMutex`. -/
  | section
  /-- `GetData`: a buffer is taken, before `pts = d.pts`. -/
  | got (x : XData)
  /-- Before `memcpy(buf, d.data, d.size)`. -/
  | copy (x : XData)
  /-- Before the section that calls `Enqueue`. -/
  | enqueue (x : XData)
  /-- Before `d.Drop()`. -/
  | drop (x : XData)
  deriving DecidableEq

/-- One step of `PlayCall`; without a next place the call has returned. What `Enqueue` does to the
device is not part of it. -/
def callStep (isExit isPause : Bool) (a : IAudioPlay) : CallPc → IAudioPlay × Option CallPc
  | .exitTest => (a, if isExit then none else some .pauseTest)
  | .pauseTest => (a, some (if isPause then .exitTest else .section))
  | .section =>
    match a.frames with
    | [] => (a, some .exitTest)
    | x :: rest => ({ a with frames := rest }, some (.got x))
  | .got x => ({ a with pts := x.pts }, if x.size ≤ 0 then none else some (.copy x))
  | .copy x => (a, some (.enqueue x))
  | .enqueue x => (a, some (.drop x))
  | .drop _ => (a, none)

end XPlayer
