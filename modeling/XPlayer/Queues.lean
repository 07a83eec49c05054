import XPlayer.AudioPlay
import XPlayer.Lib.Fifo
import XPlayer.Lib.System

/-!
# The queues between the threads

`packs` of a decoder with any threads that call `Update`, `Clear` and `Main` (`decodeQueue`), and `frames` of
`audioPlay` with those that call `Update` and `Clear` and the `PlayCall` of the device (`pcmQueue`). The flags
and the wait for the audio clock are what the step reads, so that they may change at any time. Both are queues
in the sense of `Fifo.Queued`.

`Update` of a decoder stores a packet while there are fewer than `maxList`, that of `audioPlay` a buffer while
there are not more than `maxFrame`: `frames` gets longer than `maxFrame` by one.
-/

namespace XPlayer
open Fifo

/-! ### `packs` -/

/-- Where a thread is; from `pop_front` on, `Main` holds `packsMutex`. -/
inductive QueuePc
  | idle
  | updateExit (x : XData)
  | updateSection (x : XData)
  | clear
  | exitTest
  | pauseTest
  | lock
  | decoding (x : XData)
  deriving DecidableEq

structure DecodeQueue (T : Type) where
  packs : List XData := []
  maxList : ℕ
  packsMutex : Option T := none
  pc : T → QueuePc := fun _ => .idle
  log : List (Op XData) := []

inductive QueueAct (T : Type)
  | update (t : T) (x : XData) (isAudio : Bool)
  | clear (t : T)
  | main (t : T)
  /-- A step with the flags it reads; `gate` tells whether the frames are ahead of the audio clock. -/
  | step (t : T) (isExit isPause gate : Bool)

namespace DecodeQueue
variable {T : Type} [DecidableEq T]

def setPc (s : DecodeQueue T) (t : T) (pc : QueuePc) : DecodeQueue T := { s with pc := Function.update s.pc t pc }

def stepThread (t : T) (isExit isPause gate : Bool) (s : DecodeQueue T) : Option (DecodeQueue T) :=
  match s.pc t with
  | .idle => none
  | .updateExit x => some (s.setPc t (if isExit then .idle else .updateSection x))
  | .updateSection x =>
    if s.packsMutex ≠ none then none
    else if s.packs.length < s.maxList then
      some ({ s with packs := s.packs ++ [x], log := .put x :: s.log }.setPc t .idle)
    else some (s.setPc t (.updateExit x))
  | .clear =>
    if s.packsMutex ≠ none then none
    else some ({ s with packs := [], log := .clear s.packs :: s.log }.setPc t .idle)
  | .exitTest => some (s.setPc t (if isExit then .idle else .pauseTest))
  | .pauseTest => some (s.setPc t (if isPause then .exitTest else .lock))
  | .lock =>
    if s.packsMutex ≠ none then none
    else if gate then some (s.setPc t .exitTest)
    else
      match s.packs with
      | [] => some (s.setPc t .exitTest)
      | x :: rest =>
        some ({ s with packs := rest, packsMutex := some t, log := .get x :: s.log }.setPc t (.decoding x))
  | .decoding _ => some ({ s with packsMutex := none }.setPc t .exitTest)

def step : QueueAct T → DecodeQueue T → Option (DecodeQueue T)
  | .update t x isAudio, s =>
    if s.pc t = .idle then some (s.setPc t (if x.isAudio ≠ isAudio then .idle else .updateExit x)) else none
  | .clear t, s => if s.pc t = .idle then some (s.setPc t .clear) else none
  | .main t, s => if s.pc t = .idle then some (s.setPc t .exitTest) else none
  | .step t isExit isPause gate, s => s.stepThread t isExit isPause gate

end DecodeQueue

/-- The queue of a decoder from its construction. -/
def decodeQueue (T : Type) [DecidableEq T] : Sys (DecodeQueue T) (QueueAct T) where
  init s := ∃ maxList, s = { maxList }
  step := DecodeQueue.step

namespace DecodeQueue
variable {T : Type} [DecidableEq T] {s s' : DecodeQueue T}

theorem step_cases {a : QueueAct T} (h : s.step a = some s') :
    s'.maxList = s.maxList ∧
      (s'.packs = s.packs ∧ s'.log = s.log ∨
        (∃ x, s.packs.length < s.maxList ∧ s'.packs = s.packs ++ [x] ∧ s'.log = .put x :: s.log) ∨
        (∃ x, s.packs = x :: s'.packs ∧ s'.log = .get x :: s.log) ∨
        s'.packs = [] ∧ s'.log = .clear s.packs :: s.log) := by
  cases a with
  | update t x isAudio =>
    simp only [step] at h
    split at h <;> cases h
    exact ⟨rfl, .inl ⟨rfl, rfl⟩⟩
  | clear t =>
    simp only [step] at h
    split at h <;> cases h
    exact ⟨rfl, .inl ⟨rfl, rfl⟩⟩
  | main t =>
    simp only [step] at h
    split at h <;> cases h
    exact ⟨rfl, .inl ⟨rfl, rfl⟩⟩
  | step t isExit isPause gate =>
    simp only [step, stepThread] at h
    split at h
    case h_1 => cases h
    case h_2 | h_5 | h_6 | h_8 =>
      cases h
      exact ⟨rfl, .inl ⟨rfl, rfl⟩⟩
    case h_3 x _ =>
      split at h
      · cases h
      · split at h <;> cases h
        · exact ⟨rfl, .inr (.inl ⟨x, ‹_›, rfl, rfl⟩)⟩
        · exact ⟨rfl, .inl ⟨rfl, rfl⟩⟩
    case h_4 =>
      split at h <;> cases h
      exact ⟨rfl, .inr (.inr (.inr ⟨rfl, rfl⟩))⟩
    case h_7 =>
      split at h
      · cases h
      · split at h
        · cases h
          exact ⟨rfl, .inl ⟨rfl, rfl⟩⟩
        · rcases hp : s.packs with _ | ⟨x, rest⟩ <;> rw [hp] at h <;> cases h
          · exact ⟨rfl, .inl ⟨hp, rfl⟩⟩
          · exact ⟨rfl, .inr (.inr (.inl ⟨x, rfl, rfl⟩))⟩

/-- The queue has the history `log`, and is not too long. -/
structure Inv (s : DecodeQueue T) : Prop where
  queued : Queued s.log s.packs
  length : s.packs.length ≤ s.maxList

theorem Inv.step {a : QueueAct T} (h : Inv s) (hs : s.step a = some s') : Inv s' := by
  obtain ⟨hmax, hc⟩ := step_cases hs
  have hlen := h.length
  rcases hc with ⟨hp, hl⟩ | ⟨x, hlt, hp, hl⟩ | ⟨x, hp, hl⟩ | ⟨hp, hl⟩
  · refine ⟨?_, ?_⟩
    · rw [hp, hl]
      exact h.queued
    · rw [hp, hmax]
      exact hlen
  · refine ⟨?_, ?_⟩
    · rw [hp, hl]
      exact h.queued.put x
    · rw [hp, hmax, List.length_append, List.length_singleton]
      omega
  · refine ⟨?_, ?_⟩
    · rw [hl]
      exact .get (hp ▸ h.queued)
    · rw [hp, List.length_cons] at hlen
      omega
  · refine ⟨?_, ?_⟩
    · rw [hp, hl]
      exact h.queued.clear
    · rw [hp]
      exact Nat.zero_le _

end DecodeQueue

/-- In every reachable state `packs` is not longer than `maxList`; the packets that have left the queue, popped or
dropped by a `Clear`, and then those in it are the accepted ones in their order, so that each leaves at most once
and they are popped in this order; and what is popped after a `Clear` was accepted after it. -/
theorem decode_queue_fifo {T : Type} [DecidableEq T] {s : DecodeQueue T} (h : (decodeQueue T).Reach Sys.any s) :
    s.packs.length ≤ s.maxList ∧ (exits s.log).map Exit.val ++ s.packs = puts s.log ∧
      (gets s.log).Sublist (puts s.log) ∧
      ∀ new old xs, s.log = new ++ .clear xs :: old → (gets new).Sublist (puts new) := by
  have hI : s.Inv := by
    refine h.inv (I := DecodeQueue.Inv) ?_ fun a s t hI _ hs => hI.step hs
    rintro _ ⟨m, rfl⟩
    exact ⟨.nil, Nat.zero_le _⟩
  refine ⟨hI.length, hI.queued.exits, hI.queued.gets_sublist, fun new old xs hl => ?_⟩
  have hq := hI.queued
  rw [hl] at hq
  exact hq.since_clear.gets_sublist

/-- One packet is popped, and another one is dropped by a `Clear`. -/
theorem decode_queue_fifo_two : ∃ s : DecodeQueue Bool, s.packs.length ≤ 2 ∧ ∃ x y : XData, puts s.log = [x, y] ∧
    gets s.log = [x] ∧ s.packs = [] ∧ (exits s.log).map Exit.val = [x, y] := by
  let x : XData := { pts := 1 }
  let y : XData := { pts := 2 }
  let store (x : XData) : List (QueueAct Bool) :=
    [.update false x false, .step false false false false, .step false false false false]
  let take : List (QueueAct Bool) := [.main true, .step true false false false, .step true false false false,
    .step true false false false, .step true false false false]
  have hr : ((decodeQueue Bool).exec (store x ++ store y ++ take ++ [.clear false, .step false false false false])
      { maxList := 2 }).map (fun s => (s.maxList, s.log, s.packs)) =
        some (2, [.clear [y], .get x, .put y, .put x], []) := rfl
  obtain ⟨s, hs, he⟩ := Option.map_eq_some_iff.mp hr
  simp only [Prod.mk.injEq] at he
  obtain ⟨hm, hl, hp⟩ := he
  obtain ⟨h1, h2, -⟩ := decode_queue_fifo (s := s) ⟨_, ⟨2, rfl⟩, .of_exec_any hs⟩
  rw [hp, List.append_nil] at h2
  exact ⟨s, hm ▸ h1, x, y, by rw [hl]; rfl, by rw [hl]; rfl, hp, by rw [h2, hl]; rfl⟩

/-! ### `frames` -/

/-- Where an `Update` is. -/
inductive PcmPc
  | idle
  | exitTest (x : XData)
  | section (x : XData)
  deriving DecidableEq

/-- About to store its buffer. -/
def PcmPc.storing : PcmPc → Bool
  | .section _ => true
  | _ => false

structure PcmQueue (T : Type) where
  audio : IAudioPlay := {}
  update : T → PcmPc := fun _ => .idle
  call : Option CallPc := none
  log : List (Op XData) := []
  /-- The values that `pts` was set to, newest first. -/
  clock : List ℤ := []

inductive PcmAct (T : Type)
  | update (t : T) (x : XData)
  /-- A step of `Update` with the `isExit` it reads. -/
  | stepUpdate (t : T) (isExit : Bool)
  | clear
  /-- The device calls `PlayCall`. -/
  | device
  /-- A step of `PlayCall` with the flags it reads. -/
  | call (isExit isPause : Bool)

namespace PcmQueue
variable {T : Type} [DecidableEq T]

def setUpdate (s : PcmQueue T) (t : T) (pc : PcmPc) : PcmQueue T :=
  { s with update := Function.update s.update t pc }

/-- The buffer that a step of `GetData` takes. -/
def taken (a : IAudioPlay) : CallPc → List (Op XData)
  | .section => (a.frames.head?.map .get).toList
  | _ => []

/-- The value that a step of `GetData` stores in `pts`. -/
def stored : CallPc → List ℤ
  | .got x => [x.pts]
  | _ => []

def step : PcmAct T → PcmQueue T → Option (PcmQueue T)
  | .update t x, s =>
    if s.update t = .idle then some (s.setUpdate t (if IAudioPlay.accepts x then .exitTest x else .idle)) else none
  | .stepUpdate t isExit, s =>
    match s.update t with
    | .idle => none
    | .exitTest x => some (s.setUpdate t (if isExit then .idle else .section x))
    | .section x =>
      match s.audio.update x with
      | none => some (s.setUpdate t (.exitTest x))
      | some a => some ({ s with audio := a, log := .put x :: s.log }.setUpdate t .idle)
  | .clear, s => some { s with audio := s.audio.clear, log := .clear s.audio.frames :: s.log }
  | .device, s => if s.call = none then some { s with call := some .exitTest } else none
  | .call isExit isPause, s => s.call.map fun pc =>
    { s with audio := (callStep isExit isPause s.audio pc).1, call := (callStep isExit isPause s.audio pc).2,
             log := taken s.audio pc ++ s.log, clock := stored pc ++ s.clock }

end PcmQueue

/-- The queue of `audioPlay` from its construction. -/
def pcmQueue (T : Type) [DecidableEq T] : Sys (PcmQueue T) (PcmAct T) where
  init s := ∃ maxFrame, s = { audio := { maxFrame } }
  step := PcmQueue.step

/-- The condition on the steps of a run: no `Update` stores a buffer while there are `maxFrame`. -/
def BelowMax {T : Type} (a : PcmAct T) (s : PcmQueue T) : Prop :=
  match a with
  | .stepUpdate t _ => (s.update t).storing = true → s.audio.frames.length ≠ s.audio.maxFrame
  | _ => True

instance {T : Type} (a : PcmAct T) (s : PcmQueue T) : Decidable (BelowMax a s) :=
  match a with
  | .stepUpdate t _ => inferInstanceAs (Decidable ((s.update t).storing = true → _))
  | .update .. | .clear | .device | .call .. => inferInstanceAs (Decidable True)

namespace PcmQueue
variable {T : Type} [DecidableEq T] {s s' : PcmQueue T}

/-- What `GetData` has taken and not yet stored the `pts` of. -/
def pending : Option CallPc → List XData
  | some (.got x) => [x]
  | _ => []

/-- The buffer that `GetData` has returned to the `PlayCall` in progress. -/
def returned : Option CallPc → Option XData
  | some (.copy x) | some (.enqueue x) | some (.drop x) => some x
  | _ => none

/-- The queue has the history `log`, and the clock is that of the buffers taken, up to the pending one. -/
structure Inv (s : PcmQueue T) : Prop where
  queued : Queued s.log s.audio.frames
  length : s.audio.frames.length ≤ s.audio.maxFrame
  clock : ∃ played, s.clock = (played.map (·.pts)).reverse ∧ gets s.log = played ++ pending s.call
  pts : s.audio.pts = s.clock.headD 0
  returned : ∀ x, returned s.call = some x → (gets s.log).getLast? = some x ∧ s.audio.pts = x.pts

omit [DecidableEq T] in
theorem Inv.of_eq (h : Inv s) (ha : s'.audio = s.audio) (hc : s'.call = s.call) (hl : s'.log = s.log)
    (hk : s'.clock = s.clock) : Inv s' := by
  obtain ⟨h1, h2, h3, h4, h5⟩ := h
  refine ⟨?_, ?_, ?_, ?_, ?_⟩ <;> simp only [ha, hc, hl, hk]
  exacts [h1, h2, h3, h4, h5]

omit [DecidableEq T] in
/-- A step of `PlayCall` that neither takes a buffer nor stores its `pts`. -/
theorem Inv.move (h : Inv s) {pc : Option CallPc} (hp : pending s.call = []) (hp' : pending pc = [])
    (hr : ∀ x, PcmQueue.returned pc = some x → PcmQueue.returned s.call = some x) :
    Inv { s with call := pc } := by
  refine ⟨h.queued, h.length, ?_, h.pts, fun x hx => h.returned x (hr x hx)⟩
  obtain ⟨played, h1, h2⟩ := h.clock
  exact ⟨played, h1, by rw [h2, hp, hp']⟩

omit [DecidableEq T] in
theorem Inv.call (h : Inv s) {pc : CallPc} (hc : s.call = some pc) (isExit isPause : Bool) :
    Inv { s with audio := (callStep isExit isPause s.audio pc).1, call := (callStep isExit isPause s.audio pc).2,
                 log := taken s.audio pc ++ s.log, clock := stored pc ++ s.clock } := by
  cases pc with
  | exitTest =>
    refine h.move (by rw [hc]; rfl) ?_ ?_
    · cases isExit <;> rfl
    · cases isExit <;> exact fun _ hx => by cases hx
  | pauseTest =>
    refine h.move (by rw [hc]; rfl) ?_ ?_
    · cases isPause <;> rfl
    · cases isPause <;> exact fun _ hx => by cases hx
  | «section» =>
    rcases hf : s.audio.frames with _ | ⟨x, rest⟩
    · simp only [callStep, hf, taken, stored, List.head?_nil, Option.map_none, Option.toList_none, List.nil_append]
      exact h.move (by rw [hc]; rfl) rfl fun _ hx => by cases hx
    · simp only [callStep, hf, taken, stored, List.head?_cons, Option.map_some, Option.toList_some, List.cons_append,
        List.nil_append]
      have hlen := h.length
      rw [hf, List.length_cons] at hlen
      obtain ⟨played, h1, h2⟩ := h.clock
      refine ⟨.get (hf ▸ h.queued), Nat.le_of_succ_le hlen, ⟨played, h1, ?_⟩, h.pts, fun _ hx => by cases hx⟩
      rw [gets, h2, hc]
      exact congrArg (· ++ [x]) (List.append_nil played)
  | got x =>
    obtain ⟨played, h1, h2⟩ := h.clock
    rw [hc] at h2
    have hk : x.pts :: s.clock = ((played ++ [x]).map (·.pts)).reverse := by
      rw [List.map_append, List.reverse_append, h1]
      rfl
    simp only [callStep, taken, stored, List.cons_append, List.nil_append]
    refine ⟨h.queued, h.length, ⟨played ++ [x], hk, ?_⟩, rfl, fun y hy => ?_⟩
    · show gets s.log = played ++ [x] ++ pending (if x.size ≤ 0 then none else some (.copy x))
      rw [h2]
      split <;> exact (List.append_nil _).symm
    · show (gets s.log).getLast? = some y ∧ x.pts = y.pts
      have hy : PcmQueue.returned (if x.size ≤ 0 then none else some (.copy x)) = some y := hy
      split at hy <;> cases hy
      rw [h2]
      exact ⟨List.getLast?_concat, rfl⟩
  | copy x => exact h.move (by rw [hc]; rfl) rfl fun y hy => by rw [hc]; exact hy
  | enqueue x => exact h.move (by rw [hc]; rfl) rfl fun y hy => by rw [hc]; exact hy
  | drop x => exact h.move (by rw [hc]; rfl) rfl fun y hy => by cases hy

theorem Inv.step {a : PcmAct T} (h : Inv s) (ha : BelowMax a s) (hs : s.step a = some s') : Inv s' := by
  cases a with
  | update t x =>
    simp only [PcmQueue.step] at hs
    split at hs <;> cases hs
    exact h.of_eq rfl rfl rfl rfl
  | stepUpdate t isExit =>
    simp only [PcmQueue.step, IAudioPlay.update] at hs
    rcases hu : s.update t with _ | x | x <;> rw [hu] at hs
    · cases hs
    · cases hs
      exact h.of_eq rfl rfl rfl rfl
    · by_cases hf : s.audio.frames.length > s.audio.maxFrame
      · simp only [if_pos hf] at hs
        cases hs
        exact h.of_eq rfl rfl rfl rfl
      · simp only [if_neg hf] at hs
        cases hs
        have hne := ha (by rw [hu]; rfl)
        refine ⟨h.queued.put x, ?_, h.clock, h.pts, h.returned⟩
        show (s.audio.frames ++ [x]).length ≤ s.audio.maxFrame
        rw [List.length_append, List.length_singleton]
        omega
  | clear =>
    cases hs
    exact ⟨h.queued.clear, Nat.zero_le _, h.clock, h.pts, h.returned⟩
  | device =>
    simp only [PcmQueue.step] at hs
    split at hs <;> cases hs
    exact h.move (by rw [‹s.call = none›]; rfl) rfl fun _ hx => by cases hx
  | call isExit isPause =>
    obtain ⟨pc, hc, rfl⟩ := Option.map_eq_some_iff.mp hs
    exact h.call hc isExit isPause

end PcmQueue

/-- In every run in which no buffer is stored while there are `maxFrame`: `frames` is not longer than that, the
buffers that have left the queue and then those in it are the accepted ones in their order, `GetData` takes them
in this order and sets `pts` to that of the buffer it returns, and while the `pts` of the buffers do not decrease
the clock does not go back. -/
theorem pcm_queue_fifo {T : Type} [DecidableEq T] {s : PcmQueue T} (h : (pcmQueue T).Reach BelowMax s) :
    s.audio.frames.length ≤ s.audio.maxFrame ∧ (exits s.log).map Exit.val ++ s.audio.frames = puts s.log ∧
      (gets s.log).Sublist (puts s.log) ∧
      (∀ x, PcmQueue.returned s.call = some x → (gets s.log).getLast? = some x ∧ s.audio.pts = x.pts) ∧
      s.audio.pts = s.clock.headD 0 ∧
      (((puts s.log).map (·.pts)).Pairwise (· ≤ ·) → s.clock.Pairwise (· ≥ ·)) ∧
      ((0 :: (puts s.log).map (·.pts)).Pairwise (· ≤ ·) → (s.clock ++ [0]).Pairwise (· ≥ ·)) := by
  have hI : s.Inv := by
    refine h.inv (I := PcmQueue.Inv) ?_ fun a s t hI ha hs => hI.step ha hs
    rintro _ ⟨m, rfl⟩
    exact ⟨.nil, Nat.zero_le _, ⟨[], rfl, rfl⟩, rfl, fun _ hx => by cases hx⟩
  obtain ⟨played, hk, hg⟩ := hI.clock
  have hplayed : played.Sublist (gets s.log) := hg ▸ List.sublist_append_left ..
  have hsub : (played.map (·.pts)).Sublist ((puts s.log).map (·.pts)) :=
    (hplayed.trans hI.queued.gets_sublist).map _
  refine ⟨hI.length, hI.queued.exits, hI.queued.gets_sublist, hI.returned, hI.pts, fun hp => ?_, fun hp => ?_⟩
  · rw [hk, List.pairwise_reverse]
    exact hp.sublist hsub
  · rw [hk, ← List.reverse_cons, List.pairwise_reverse]
    exact hp.sublist (hsub.cons_cons 0)

/-- `Update` of the buffer `x`. -/
def storePcm (x : XData) : List (PcmAct Unit) := [.update () x, .stepUpdate () false, .stepUpdate () false]

/-- A buffer with the position `pts`. -/
def pcmAt (pts : ℤ) : XData := { type := .UCHAR_TYPE, data := .pcm 0, size := 4, pts }

/-- Two buffers are stored, and the first one is played. -/
theorem pcm_queue_fifo_played : ∃ s : PcmQueue Unit, s.audio.frames = [pcmAt 80] ∧ s.audio.pts = 40 ∧
    s.audio.frames.length ≤ 100 ∧ (exits s.log).map Exit.val = [pcmAt 40] := by
  have hr : ((pcmQueue Unit).execIf BelowMax (storePcm (pcmAt 40) ++ storePcm (pcmAt 80) ++
      .device :: List.replicate 4 (.call false false)) { audio := { maxFrame := 100 } }).map
        (fun s => (s.audio.frames, s.audio.maxFrame, s.call, s.log)) =
          some ([pcmAt 80], 100, some (.copy (pcmAt 40)), [.get (pcmAt 40), .put (pcmAt 80), .put (pcmAt 40)]) := rfl
  obtain ⟨s, hs, he⟩ := Option.map_eq_some_iff.mp hr
  simp only [Prod.mk.injEq] at he
  obtain ⟨hf, hm, hc, hl⟩ := he
  obtain ⟨h1, h2, -, h4, -⟩ := pcm_queue_fifo (s := s) ⟨_, ⟨100, rfl⟩, .of_execIf hs⟩
  rw [hm] at h1
  rw [hf, hl] at h2
  refine ⟨s, hf, (h4 (pcmAt 40) (by rw [hc]; rfl)).2, h1, ?_⟩
  rw [hl]
  exact List.append_cancel_right (h2.trans (by rfl : _ = [pcmAt 40] ++ [pcmAt 80]))

set_option maxRecDepth 4000 in
/-- 101 buffers are stored one after the other. -/
theorem pcm_queue_overfull : ¬ ∀ s : PcmQueue Unit, (pcmQueue Unit).Reach Sys.any s →
    s.audio.frames.length ≤ s.audio.maxFrame := by
  intro h
  have hr : ((pcmQueue Unit).exec ((List.replicate 101 (storePcm (pcmAt 40))).flatten)
      { audio := { maxFrame := 100 } }).map (fun s => (s.audio.frames.length, s.audio.maxFrame)) =
        some (101, 100) := by decide +kernel
  obtain ⟨s, hs, he⟩ := Option.map_eq_some_iff.mp hr
  simp only [Prod.mk.injEq] at he
  have hle := h s ⟨_, ⟨100, rfl⟩, .of_exec_any hs⟩
  rw [he.1, he.2] at hle
  omega

end XPlayer
