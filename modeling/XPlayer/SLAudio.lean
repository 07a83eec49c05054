import XPlayer.AudioPlay
import XPlayer.Lib.System

/-!
# The callback chain of `SLAudioPlay`

The device calls `PlayCall` once for each buffer it finishes, and each `PlayCall` enqueues one buffer:
playback goes on as long as there is one buffer queued at the device or one `PlayCall` that will enqueue
one. `sl` is the interleaving of the controller (`StartPlay`, `Close`, `Stop`, `SetPause`), the producer,
the device and the calls in progress; `gen` numbers the player objects, a call keeps the number of the
one that made it.

`StartPlay` enqueues the first buffer before it resets `isExit`. `Rearmed` is the condition on the steps
of a run under which the chain stays alive (`sl_chain`).
-/

namespace XPlayer

/-- A buffer in the device's queue: the one byte `StartPlay` starts the chain with, or `buf`. -/
inductive Buffer
  | start
  | buf
  deriving DecidableEq

/-- Where the controller is. -/
inductive SLCtl
  | idle
  /-- `Close` after `IAudioPlay::Clear`. -/
  | closing
  /-- `StartPlay`, in its call of `Close` after `IAudioPlay::Clear`. -/
  | restart
  /-- `StartPlay`, before the engine, mixer and player are created. -/
  | create
  /-- `StartPlay`, before `SetPlayState`. -/
  | setPlay
  /-- `StartPlay`, before the first `Enqueue`. -/
  | first
  /-- `StartPlay`, before `isExit = false`. -/
  | rearm
  /-- `StartPlay`, before `mux.unlock(); return true`. -/
  | leave
  deriving DecidableEq

structure SLAudio where
  isExit : Bool := false
  isPause : Bool := false
  audio : IAudioPlay := {}
  gen : ℕ := 0
  /-- The player object and its buffer queue exist. -/
  player : Bool := false
  playing : Bool := false
  queue : List Buffer := []
  calls : ℕ → Option (ℕ × CallPc) := fun _ => none
  nextCall : ℕ := 0
  ctl : SLCtl := .idle
  /-- `mux` is held by `StartPlay`. -/
  mux : Bool := false
  /-- `StartPlay` has reset `isExit` for the current player object. -/
  rearmed : Bool := false
  /-- `StartPlay` has returned true, and neither `Stop` nor `Close` has been called since. -/
  live : Bool := false

inductive SLAct
  | startPlay
  | close
  | stop
  | setPause (isP : Bool)
  /-- The next step of `StartPlay` or `Close`; `ok` is the outcome of the creation of the player. -/
  | ctl (ok : Bool)
  /-- `Update` by the audio decoder thread. -/
  | update (x : XData)
  | clear
  /-- The device finishes a buffer and calls `PlayCall`. -/
  | finish
  /-- One step of the call `n`. -/
  | call (n : ℕ)

namespace SLAudio

def stepCtl (ok : Bool) (s : SLAudio) : Option SLAudio :=
  match s.ctl with
  | .idle => none
  | .closing => some { s with queue := [], player := false, playing := false, rearmed := false, ctl := .idle }
  | .restart => some { s with queue := [], player := false, playing := false, rearmed := false, ctl := .create }
  | .create =>
    some (if ok then { s with gen := s.gen + 1, player := true, mux := true, ctl := .setPlay }
      else { s with ctl := .idle })
  | .setPlay => some { s with playing := true, ctl := .first }
  | .first => some { s with queue := s.queue ++ [.start], ctl := .rearm }
  | .rearm => some { s with isExit := false, rearmed := true, ctl := .leave }
  | .leave => some { s with mux := false, live := true, ctl := .idle }

/-- One step of the call `n`. `Enqueue` waits for `mux`, and reaches the device only through the queue
object of the player that exists. -/
def stepCall (n : ℕ) (s : SLAudio) : Option SLAudio :=
  match s.calls n with
  | none => none
  | some (g, pc) =>
    let r := callStep s.isExit s.isPause s.audio pc
    let s' := { s with audio := r.1, calls := Function.update s.calls n (r.2.map (g, ·)) }
    match pc with
    | .enqueue _ =>
      if s.mux then none
      else some (if g = s.gen ∧ s.player = true then { s' with queue := s.queue ++ [.buf] } else s')
    | _ => some s'

def step : SLAct → SLAudio → Option SLAudio
  | .startPlay, s =>
    if s.ctl = .idle then some { s with audio := s.audio.clear, live := false, ctl := .restart } else none
  | .close, s =>
    if s.ctl = .idle then some { s with audio := s.audio.clear, live := false, ctl := .closing } else none
  | .stop, s => if s.ctl = .idle then some { s with isExit := true, live := false } else none
  | .setPause isP, s => if s.ctl = .idle then some { s with isPause := isP } else none
  | .ctl ok, s => s.stepCtl ok
  | .update x, s =>
    if IAudioPlay.accepts x then (s.audio.update x).map fun a => { s with audio := a } else none
  | .clear, s => if s.ctl = .idle then some { s with audio := s.audio.clear } else none
  | .finish, s =>
    match s.queue with
    | [] => none
    | _ :: rest =>
      if s.playing then
        some { s with queue := rest, nextCall := s.nextCall + 1,
                      calls := Function.update s.calls s.nextCall (some (s.gen, .exitTest)) }
      else none
  | .call n, s => s.stepCall n

end SLAudio

/-- A call that has not yet called `Enqueue`. -/
def CallPc.pending : CallPc → Bool
  | .drop _ => false
  | _ => true

/-- The buffer a call holds. -/
def CallPc.data : CallPc → Option XData
  | .got x | .copy x | .enqueue x | .drop x => some x
  | _ => none

/-- `SLAudioPlay` from its construction. -/
def sl : Sys SLAudio SLAct where
  init s := s = {}
  step := SLAudio.step

namespace SLAudio

/-- A `PlayCall` of the current player is in progress and will enqueue a buffer. -/
def Pending (s : SLAudio) (n : ℕ) : Prop := ∃ pc, s.calls n = some (s.gen, pc) ∧ pc.pending = true

/-- One buffer is queued at the device, and no call will enqueue another. -/
def Queued (s : SLAudio) : Prop := s.queue.length = 1 ∧ ∀ n, ¬ s.Pending n

/-- No buffer is queued, and one call is in progress that will enqueue one. -/
def Calling (s : SLAudio) : Prop := s.queue = [] ∧ ∃ n, s.Pending n ∧ ∀ m, s.Pending m → m = n

/-- The chain is alive: exactly one of the two holds. -/
def ChainAlive (s : SLAudio) : Prop :=
  s.live = true → (s.Queued ∨ s.Calling) ∧ ¬ (s.Queued ∧ s.Calling)

/-- `buf` is not queued at the device when it is written. -/
def BufSafe (s : SLAudio) : Prop := ∀ n g x, s.calls n = some (g, .copy x) → Buffer.buf ∉ s.queue

/-- The call `n` was made by an earlier player object and will call `Enqueue`. -/
def outdated (s : SLAudio) (n : ℕ) : Bool :=
  match s.calls n with
  | some (g, pc) => pc.pending && decide (g ≠ s.gen)
  | none => false

/-- The condition on the steps of a run: no call that the new player made reads `isExit` between the
first `Enqueue` and the `isExit = false` after it while it is still set, and no call of an earlier
player object is in progress at that `isExit = false`. -/
def Rearmed (a : SLAct) (s : SLAudio) : Prop :=
  match a with
  | .call n => s.calls n = some (s.gen, .exitTest) → s.ctl = .rearm → s.isExit = false
  | .ctl _ => s.ctl = .rearm → ∀ n < s.nextCall, s.outdated n = false
  | _ => True

instance (a : SLAct) (s : SLAudio) : Decidable (Rearmed a s) := by
  cases a <;> unfold Rearmed <;> infer_instance

/-- At most one buffer is queued, or about to be enqueued by the calls that `pending` tells. -/
structure AtMostOne (q : List Buffer) (pending : ℕ → Prop) : Prop where
  queue : q.length ≤ 1
  excl : q ≠ [] → ∀ n, ¬ pending n
  calls : ∀ m n, pending m → pending n → m = n

/-- Exactly one. -/
structure One (q : List Buffer) (pending : ℕ → Prop) : Prop extends AtMostOne q pending where
  some : q ≠ [] ∨ ∃ n, pending n

section
variable {queue : List Buffer} {pending pending' : ℕ → Prop}

theorem AtMostOne.sub (h : AtMostOne queue pending) (hp : ∀ n, pending' n → pending n) :
    AtMostOne queue pending' where
  queue := h.queue
  excl hne n hn := h.excl hne n (hp n hn)
  calls m n hm hn := h.calls m n (hp m hm) (hp n hn)

theorem One.keep (h : One queue pending) (hp : ∀ n, pending' n ↔ pending n) : One queue pending' where
  toAtMostOne := h.toAtMostOne.sub fun n => (hp n).1
  some := h.some.imp_right fun ⟨n, hn⟩ => ⟨n, (hp n).2 hn⟩

/-- The device takes the queued buffer, and one new call is pending. -/
theorem AtMostOne.finish (h : AtMostOne queue pending) {b : Buffer} {rest : List Buffer} {k : ℕ}
    (hq : queue = b :: rest) (hp : ∀ n, pending' n ↔ pending n ∨ n = k) : One rest pending' := by
  have hrest : rest = [] := by
    have := h.queue
    rw [hq] at this
    exact List.eq_nil_of_length_eq_zero (by simpa using this)
  have hnew : ∀ n, pending' n → n = k := fun n hn =>
    ((hp n).1 hn).resolve_left (h.excl (by simp [hq]) n)
  exact ⟨⟨by simp [hrest], fun hne => absurd hrest hne,
    fun m n hm hn => (hnew m hm).trans (hnew n hn).symm⟩, .inr ⟨k, (hp k).2 (.inr rfl)⟩⟩

/-- The pending call `k` enqueues its buffer. -/
theorem AtMostOne.enqueue (h : AtMostOne queue pending) {k : ℕ} (hk : pending k) (b : Buffer)
    (hp : ∀ n, pending' n → pending n ∧ n ≠ k) : One (queue ++ [b]) pending' := by
  have hq : queue = [] := by
    by_contra hq
    exact h.excl hq k hk
  have hno : ∀ n, ¬ pending' n := fun n hn => (hp n hn).2 (h.calls n k (hp n hn).1 hk)
  exact ⟨⟨by simp [hq], fun _ => hno, fun m _ hm => absurd hm (hno m)⟩, .inl (by simp)⟩

end

variable {s s' : SLAudio}

/-- One buffer queued or one call pending, and not both. -/
theorem One.xor (h : One s.queue s.Pending) : (s.Queued ∨ s.Calling) ∧ ¬ (s.Queued ∧ s.Calling) := by
  refine ⟨?_, fun ⟨⟨_, hn⟩, _, n, hp, _⟩ => hn n hp⟩
  by_cases hq : s.queue = []
  · obtain ⟨n, hn⟩ := h.some.resolve_left (by simp [hq])
    exact .inr ⟨hq, n, hn, fun m hm => h.calls m n hm hn⟩
  · have := List.length_pos_of_ne_nil hq
    exact .inl ⟨by have := h.queue; omega, h.excl hq⟩

/-! ### The invariant -/

/-- The invariant: the buffers under way are not empty, and the chain of the current player. -/
structure Inv (s : SLAudio) : Prop where
  frames : ∀ x ∈ s.audio.frames, 0 < x.size
  data : ∀ n g pc x, s.calls n = some (g, pc) → pc.data = some x → 0 < x.size
  fresh : ∀ n, s.nextCall ≤ n → s.calls n = none
  gens : ∀ n g pc, s.calls n = some (g, pc) → g ≤ s.gen
  mux : s.mux = true ↔ s.ctl = .setPlay ∨ s.ctl = .first ∨ s.ctl = .rearm ∨ s.ctl = .leave
  player : s.rearmed = true → s.player = true
  muxPlayer : s.mux = true → s.player = true
  noPlayer : s.player = false → s.queue = []
  unarmed : s.rearmed = false → Buffer.buf ∉ s.queue ∧ (s.mux = false → s.player = false)
  armed : s.rearmed = true → AtMostOne s.queue s.Pending ∧
    ∀ n g pc, s.calls n = some (g, pc) → pc.pending = true → g = s.gen
  created : s.ctl = .create → s.rearmed = false
  early : s.ctl = .setPlay ∨ s.ctl = .first → s.rearmed = false ∧ s.queue = [] ∧ ∀ n, ¬ s.Pending n
  rearm : s.ctl = .rearm → s.rearmed = false ∧ One s.queue s.Pending
  leave : s.ctl = .leave → s.rearmed = true ∧ s.isExit = false ∧ One s.queue s.Pending
  live : s.live = true →
    s.ctl = .idle ∧ s.rearmed = true ∧ s.isExit = false ∧ One s.queue s.Pending

theorem Inv.init : Inv {} := by
  constructor <;> simp

/-- Steps that touch neither the calls, the device nor the place of the controller. -/
theorem Inv.setAudio (h : Inv s) (a : IAudioPlay) (ha : ∀ x ∈ a.frames, 0 < x.size) :
    Inv { s with audio := a } := { h with frames := ha }

theorem Inv.clearQueue (h : Inv s) (hc : s.ctl = .idle) (c : SLCtl) (hcl : c = .closing ∨ c = .restart) :
    Inv { s with audio := s.audio.clear, live := false, ctl := c } := by
  have hm : s.mux = false := by
    have := h.mux
    simpa [hc] using this
  refine { h with frames := by simp [IAudioPlay.clear], mux := ?_, created := ?_, early := ?_,
                  rearm := ?_, leave := ?_, live := by simp } <;>
    rcases hcl with rfl | rfl <;> simp [hm]

theorem Inv.current (h : Inv s) (hn : ∀ n < s.nextCall, s.outdated n = false) (n g : ℕ) (pc : CallPc)
    (hc : s.calls n = some (g, pc)) (hp : pc.pending = true) : g = s.gen := by
  have hlt : n < s.nextCall := by
    by_contra hlt
    rw [h.fresh n (not_lt.mp hlt)] at hc
    cases hc
  have ho := hn n hlt
  simpa [outdated, hc, hp] using ho

theorem Inv.stepCtl (h : Inv s) {ok : Bool} (hok : Rearmed (.ctl ok) s) (hs : s.stepCtl ok = some s') :
    Inv s' := by
  have hm := h.mux
  have hl : s.ctl ≠ .idle → s.live = false := fun hc => by
    by_contra hl
    exact hc (h.live (by simpa using hl)).1
  unfold SLAudio.stepCtl at hs
  split at hs
  · cases hs
  · rename_i hc
    cases hs
    simp only [hc, reduceCtorEq, or_self, iff_false, Bool.not_eq_true] at hm
    exact { h with mux := by simp [hm], player := by simp, muxPlayer := by simp [hm], noPlayer := by simp,
                   unarmed := by simp, armed := by simp, created := by simp, early := by simp,
                   rearm := by simp, leave := by simp, live := by simp [hl, hc] }
  · rename_i hc
    cases hs
    simp only [hc, reduceCtorEq, or_self, iff_false, Bool.not_eq_true] at hm
    exact { h with mux := by simp [hm], player := by simp, muxPlayer := by simp [hm], noPlayer := by simp,
                   unarmed := by simp, armed := by simp, created := by simp, early := by simp,
                   rearm := by simp, leave := by simp, live := by simp [hl, hc] }
  · rename_i hc
    simp only [hc, reduceCtorEq, or_self, iff_false, Bool.not_eq_true] at hm
    have hr := h.created hc
    have hp := (h.unarmed hr).2 hm
    split at hs <;> cases hs
    · -- every call so far belongs to an earlier player
      have hno : ∀ n, ¬ ∃ pc, s.calls n = some (s.gen + 1, pc) ∧ pc.pending = true := by
        rintro n ⟨pc, hn, -⟩
        have := h.gens n _ pc hn
        omega
      exact { h with gens := fun n g pc hn => by have := h.gens n g pc hn; show g ≤ s.gen + 1; omega
                     mux := by simp, player := by simp, muxPlayer := by simp, noPlayer := by simp,
                     unarmed := fun _ => ⟨(h.unarmed hr).1, by simp⟩, armed := by simp [hr],
                     created := by simp, early := fun _ => ⟨hr, h.noPlayer hp, hno⟩,
                     rearm := by simp, leave := by simp, live := by simp [hl, hc] }
    · exact { h with mux := by simp [hm], created := by simp, early := by simp,
                     rearm := by simp, leave := by simp, live := by simp [hl, hc] }
  · rename_i hc
    cases hs
    exact { h with mux := by simp [hm, hc], created := by simp,
                   early := fun _ => h.early (.inl hc), rearm := by simp, leave := by simp,
                   live := by simp [hl, hc] }
  · rename_i hc
    cases hs
    obtain ⟨hr, hq, hno⟩ := h.early (.inr hc)
    have hone : One (s.queue ++ [.start]) s.Pending :=
      ⟨⟨by simp [hq], fun _ => hno, fun m _ hm => absurd hm (hno m)⟩, .inl (by simp)⟩
    have hmt : s.mux = true := by simp [hm, hc]
    have hpt := h.muxPlayer hmt
    exact { h with mux := by simp [hmt], noPlayer := by simp [hpt],
                   unarmed := by simp [hmt, hq], armed := by simp [hr], created := by simp,
                   early := by simp, rearm := fun _ => ⟨hr, hone⟩, leave := by simp,
                   live := by simp [hl, hc] }
  · rename_i hc
    cases hs
    obtain ⟨hr, hone⟩ := h.rearm hc
    have hmt : s.mux = true := by simp [hm, hc]
    exact { h with mux := by simp [hmt], player := fun _ => h.muxPlayer hmt, unarmed := by simp,
                   armed := fun _ => ⟨hone.toAtMostOne, h.current (hok hc)⟩, created := by simp, early := by simp,
                   rearm := by simp, leave := fun _ => ⟨rfl, rfl, hone⟩, live := by simp [hl, hc] }
  · rename_i hc
    cases hs
    obtain ⟨hr, hx, hone⟩ := h.leave hc
    exact { h with mux := by simp, muxPlayer := by simp, unarmed := by simp [hr], created := by simp,
                   early := by simp, rearm := by simp, leave := by simp,
                   live := fun _ => ⟨rfl, hr, hx, hone⟩ }

theorem update_call {calls : ℕ → Option (ℕ × CallPc)} {n m g g' : ℕ} {r : Option CallPc} {pc : CallPc}
    (hm : Function.update calls n (r.map (g, ·)) m = some (g', pc)) :
    (m = n ∧ g' = g ∧ r = some pc) ∨ m ≠ n ∧ calls m = some (g', pc) := by
  by_cases hmn : m = n
  · subst hmn
    rw [Function.update_self] at hm
    cases r with
    | none => cases hm
    | some q => cases hm; exact .inl ⟨rfl, rfl, rfl⟩
  · exact .inr ⟨hmn, by rwa [Function.update_of_ne hmn] at hm⟩

theorem update_call_some {calls : ℕ → Option (ℕ × CallPc)} {n m g g' : ℕ} {q pc : CallPc}
    (hm : Function.update calls n (some (g, q)) m = some (g', pc)) :
    (m = n ∧ g' = g ∧ pc = q) ∨ m ≠ n ∧ calls m = some (g', pc) :=
  (update_call (r := some q) hm).imp_left fun ⟨hn, hg, hr⟩ => ⟨hn, hg, (Option.some.inj hr).symm⟩

theorem Inv.update_fresh (h : Inv s) {n : ℕ} {c : ℕ × CallPc} (hn : s.calls n = some c) (c' : Option (ℕ × CallPc)) :
    ∀ m, s.nextCall ≤ m → Function.update s.calls n c' m = none := by
  intro m hm
  have hmn : m ≠ n := by
    rintro rfl
    rw [h.fresh m hm] at hn
    cases hn
  rw [Function.update_of_ne hmn, h.fresh m hm]

/-- The call `n` moves on without calling `Enqueue`; while the chain must be alive, it stays pending. -/
theorem Inv.moveCall (h : Inv s) {n g : ℕ} {pc : CallPc} (hn : s.calls n = some (g, pc)) (a : IAudioPlay)
    (r : Option CallPc) (ha : ∀ x ∈ a.frames, 0 < x.size)
    (hd : ∀ pc' x, r = some pc' → pc'.data = some x → 0 < x.size)
    (hp : ∀ pc', r = some pc' → pc'.pending = true → pc.pending = true)
    (hk : g = s.gen → s.ctl = .rearm ∨ s.ctl = .leave ∨ s.live = true → pc.pending = true →
      ∃ pc', r = some pc' ∧ pc'.pending = true) :
    Inv { s with audio := a, calls := Function.update s.calls n (r.map (g, ·)) } := by
  have hcall : ∀ {m g' pc'}, Function.update s.calls n (r.map (g, ·)) m = some (g', pc') →
      (m = n ∧ g' = g ∧ r = some pc') ∨ m ≠ n ∧ s.calls m = some (g', pc') := update_call
  have hsub : ∀ m, (∃ q, Function.update s.calls n (r.map (g, ·)) m = some (s.gen, q) ∧ q.pending = true) →
      s.Pending m := by
    rintro m ⟨q, hm, hq⟩
    rcases hcall hm with ⟨rfl, rfl, hr⟩ | ⟨-, hm⟩
    · exact ⟨pc, hn, hp q hr hq⟩
    · exact ⟨q, hm, hq⟩
  have hiff : s.ctl = .rearm ∨ s.ctl = .leave ∨ s.live = true → ∀ m,
      (∃ q, Function.update s.calls n (r.map (g, ·)) m = some (s.gen, q) ∧ q.pending = true) ↔ s.Pending m := by
    refine fun hc m => ⟨hsub m, fun ⟨q, hm, hq⟩ => ?_⟩
    by_cases hmn : m = n
    · subst hmn
      obtain ⟨rfl, rfl⟩ : g = s.gen ∧ pc = q := by simpa [hn] using hm
      obtain ⟨q', rfl, hq'⟩ := hk rfl hc hq
      exact ⟨q', by simp, hq'⟩
    · exact ⟨q, by rwa [Function.update_of_ne hmn], hq⟩
  refine { h with frames := ha, data := ?_, fresh := ?_, gens := ?_, armed := ?_, early := ?_,
                  rearm := ?_, leave := ?_, live := ?_ }
  · intro m g' q x hm hx
    rcases hcall hm with ⟨-, -, hr⟩ | ⟨-, hm⟩
    · exact hd q x hr hx
    · exact h.data m g' q x hm hx
  · exact h.update_fresh hn _
  · intro m g' q hm
    rcases hcall hm with ⟨-, rfl, -⟩ | ⟨-, hm⟩
    · exact h.gens n g' pc hn
    · exact h.gens m g' q hm
  · intro hr
    obtain ⟨h1, h2⟩ := h.armed hr
    refine ⟨h1.sub hsub, fun m g' q hm hq => ?_⟩
    rcases hcall hm with ⟨-, rfl, hq'⟩ | ⟨-, hm⟩
    · exact h2 n g' pc hn (hp q hq' hq)
    · exact h2 m g' q hm hq
  · intro hc
    obtain ⟨h1, h2, h3⟩ := h.early hc
    exact ⟨h1, h2, fun m hm => h3 m (hsub m hm)⟩
  · intro hc
    exact ⟨(h.rearm hc).1, (h.rearm hc).2.keep (hiff (.inl hc))⟩
  · intro hc
    obtain ⟨h1, h2, h3⟩ := h.leave hc
    exact ⟨h1, h2, h3.keep (hiff (.inr (.inl hc)))⟩
  · intro hl
    obtain ⟨h1, h2, h3, h4⟩ := h.live hl
    exact ⟨h1, h2, h3, h4.keep (hiff (.inr (.inr hl)))⟩

/-- The call `n` enqueues its buffer for the player that exists. -/
theorem Inv.enqueue (h : Inv s) {n : ℕ} {x : XData} (hn : s.calls n = some (s.gen, .enqueue x))
    (hm : s.mux = false) (hpl : s.player = true) :
    Inv { s with queue := s.queue ++ [.buf],
                 calls := Function.update s.calls n (some (s.gen, .drop x)) } := by
  have hr : s.rearmed = true := by
    by_contra hr
    rw [(h.unarmed (by simpa using hr)).2 hm] at hpl
    cases hpl
  obtain ⟨hat, hgen⟩ := h.armed hr
  have hcall : ∀ {m g' pc'}, Function.update s.calls n (some (s.gen, CallPc.drop x)) m = some (g', pc') →
      (m = n ∧ g' = s.gen ∧ pc' = .drop x) ∨ m ≠ n ∧ s.calls m = some (g', pc') := update_call_some
  have hone : One (s.queue ++ [.buf])
      fun m => ∃ q, Function.update s.calls n (some (s.gen, CallPc.drop x)) m = some (s.gen, q) ∧
        q.pending = true := by
    refine hat.enqueue (k := n) ⟨_, hn, rfl⟩ .buf ?_
    rintro m ⟨q, hq, hqp⟩
    rcases hcall hq with ⟨-, -, rfl⟩ | ⟨hmn, hq⟩
    · cases hqp
    · exact ⟨⟨q, hq, hqp⟩, hmn⟩
  have hctl := h.mux
  simp only [hm, Bool.false_eq_true, false_iff, not_or] at hctl
  obtain ⟨c1, c2, c3, c4⟩ := hctl
  refine { h with data := ?_, fresh := ?_, gens := ?_, noPlayer := ?_, unarmed := ?_, armed := ?_,
                  early := ?_, rearm := fun hc => absurd hc c3, leave := fun hc => absurd hc c4,
                  live := fun hl => ⟨(h.live hl).1, hr, (h.live hl).2.2.1, hone⟩ }
  · intro m g' q y hm hy
    rcases hcall hm with ⟨-, -, rfl⟩ | ⟨-, hm⟩
    · cases hy
      exact h.data n s.gen _ x hn rfl
    · exact h.data m g' q y hm hy
  · exact h.update_fresh hn _
  · intro m g' q hm
    rcases hcall hm with ⟨-, rfl, -⟩ | ⟨-, hm⟩
    · exact le_rfl
    · exact h.gens m g' q hm
  · intro hf
    rw [hpl] at hf
    cases hf
  · intro hf
    rw [hr] at hf
    cases hf
  · refine fun _ => ⟨hone.toAtMostOne, fun m g' q hm hq => ?_⟩
    rcases hcall hm with ⟨-, rfl, -⟩ | ⟨-, hm⟩
    · rfl
    · exact hgen m g' q hm hq
  · rintro (hc | hc)
    · exact absurd hc c1
    · exact absurd hc c2

theorem Inv.stepCall (h : Inv s) {n : ℕ} (hok : Rearmed (.call n) s) (hs : s.stepCall n = some s') :
    Inv s' := by
  unfold SLAudio.stepCall at hs
  rcases hn : s.calls n with _ | ⟨g, pc⟩
  · rw [hn] at hs
    cases hs
  simp only [hn] at hs
  -- the chain must be alive only where `isExit` is reset, the condition covers the gap before it
  have hx : g = s.gen → s.ctl = .rearm ∨ s.ctl = .leave ∨ s.live = true → pc = .exitTest →
      s.isExit = false := by
    rintro rfl (hc | hc | hl) rfl
    · exact hok hn hc
    · exact (h.leave hc).2.1
    · exact (h.live hl).2.2.1
  cases pc with
  | exitTest =>
    cases hs
    refine h.moveCall hn _ _ h.frames ?_ (fun _ _ _ => rfl) fun hg hc _ => ?_
    · intro pc' x hr hx'
      simp only [callStep] at hr
      split at hr <;> cases hr
      cases hx'
    · exact ⟨.pauseTest, by simp [callStep, hx hg hc rfl], rfl⟩
  | pauseTest =>
    cases hs
    refine h.moveCall hn _ _ h.frames ?_ (fun _ _ _ => rfl) fun _ _ _ => ⟨_, rfl, ?_⟩
    · rintro pc' x ⟨⟩ hx'
      split at hx' <;> cases hx'
    · split <;> rfl
  | «section» =>
    cases hs
    rcases hf : s.audio.frames with _ | ⟨x, rest⟩
    · simp only [callStep, hf]
      exact h.moveCall hn _ (some .exitTest) h.frames (by rintro _ _ ⟨⟩ ⟨⟩) (fun _ _ _ => rfl)
        fun _ _ _ => ⟨_, rfl, rfl⟩
    · simp only [callStep, hf]
      have hfr := h.frames
      rw [hf] at hfr
      refine h.moveCall hn _ (some (.got x)) (fun y hy => hfr y (List.mem_cons_of_mem _ hy)) ?_
        (fun _ _ _ => rfl) fun _ _ _ => ⟨_, rfl, rfl⟩
      rintro _ _ ⟨⟩ ⟨⟩
      exact hfr _ (by simp)
  | got x =>
    cases hs
    have hpos := h.data n g _ x hn rfl
    simp only [callStep, if_neg (not_le.mpr hpos)]
    refine h.moveCall hn _ (some (.copy x)) h.frames ?_ (fun _ _ _ => rfl) fun _ _ _ => ⟨_, rfl, rfl⟩
    rintro _ y ⟨⟩ ⟨⟩
    exact hpos
  | copy x =>
    cases hs
    refine h.moveCall hn _ (some (.enqueue x)) h.frames ?_ (fun _ _ _ => rfl) fun _ _ _ => ⟨_, rfl, rfl⟩
    rintro _ y ⟨⟩ ⟨⟩
    exact h.data n g _ x hn rfl
  | enqueue x =>
    simp only [Option.ite_none_left_eq_some] at hs
    obtain ⟨hm, hs⟩ := hs
    have hm : s.mux = false := by simpa using hm
    split at hs <;> cases hs
    · rename_i hg
      obtain ⟨rfl, hpl⟩ := hg
      exact h.enqueue hn hm hpl
    · rename_i hg
      have hctl := h.mux
      simp only [hm, Bool.false_eq_true, false_iff, not_or] at hctl
      obtain ⟨-, -, c3, c4⟩ := hctl
      refine h.moveCall hn _ (some (.drop x)) h.frames ?_ (by rintro _ ⟨⟩ ⟨⟩) fun hgen hc _ => ?_
      · rintro _ y ⟨⟩ ⟨⟩
        exact h.data n g _ x hn rfl
      · rcases hc with hc | hc | hl
        · exact absurd hc c3
        · exact absurd hc c4
        · exact absurd ⟨hgen, h.player (h.live hl).2.1⟩ hg
  | drop x =>
    cases hs
    exact h.moveCall hn _ none h.frames (by rintro _ _ ⟨⟩) (by rintro _ ⟨⟩) (by rintro _ _ ⟨⟩)

/-- The device finishes a buffer and calls `PlayCall`. -/
theorem Inv.finish (h : Inv s) {b : Buffer} {rest : List Buffer} (hq : s.queue = b :: rest) :
    Inv { s with queue := rest, nextCall := s.nextCall + 1,
                 calls := Function.update s.calls s.nextCall (some (s.gen, .exitTest)) } := by
  have hcall : ∀ {m g' pc'},
      Function.update s.calls s.nextCall (some (s.gen, CallPc.exitTest)) m = some (g', pc') →
        (m = s.nextCall ∧ g' = s.gen ∧ pc' = .exitTest) ∨ m ≠ s.nextCall ∧ s.calls m = some (g', pc') :=
    update_call_some
  have hpend : ∀ m,
      (∃ q, Function.update s.calls s.nextCall (some (s.gen, CallPc.exitTest)) m = some (s.gen, q) ∧
        q.pending = true) ↔ s.Pending m ∨ m = s.nextCall := by
    refine fun m => ⟨fun ⟨q, hm, hq⟩ => ?_, ?_⟩
    · rcases hcall hm with ⟨rfl, -, -⟩ | ⟨-, hm⟩
      · exact .inr rfl
      · exact .inl ⟨q, hm, hq⟩
    · rintro (⟨q, hm, hq⟩ | rfl)
      · refine ⟨q, ?_, hq⟩
        rw [Function.update_of_ne _, hm]
        rintro rfl
        rw [h.fresh _ le_rfl] at hm
        cases hm
      · exact ⟨.exitTest, by simp, rfl⟩
  have hne : s.queue ≠ [] := by simp [hq]
  have hpl : s.player = true := by
    by_contra hf
    exact hne (h.noPlayer (by simpa using hf))
  refine { h with data := ?_, fresh := ?_, gens := ?_, noPlayer := ?_, unarmed := ?_, armed := ?_,
                  early := fun hc => absurd (h.early hc).2.1 hne,
                  rearm := fun hc => ⟨(h.rearm hc).1, (h.rearm hc).2.finish hq hpend⟩,
                  leave := fun hc => ⟨(h.leave hc).1, (h.leave hc).2.1, (h.leave hc).2.2.finish hq hpend⟩,
                  live := fun hl => ⟨(h.live hl).1, (h.live hl).2.1, (h.live hl).2.2.1,
                    (h.live hl).2.2.2.finish hq hpend⟩ }
  · intro m g' q x hm hx
    rcases hcall hm with ⟨-, -, rfl⟩ | ⟨-, hm⟩
    · cases hx
    · exact h.data m g' q x hm hx
  · intro m hm
    have hm' : s.nextCall + 1 ≤ m := hm
    show Function.update s.calls s.nextCall _ m = none
    rw [Function.update_of_ne (by omega), h.fresh m (by omega)]
  · intro m g' q hm
    rcases hcall hm with ⟨-, rfl, -⟩ | ⟨-, hm⟩
    · exact le_rfl
    · exact h.gens m g' q hm
  · intro hf
    rw [hpl] at hf
    cases hf
  · intro hr
    obtain ⟨h1, h2⟩ := h.unarmed hr
    rw [hq] at h1
    exact ⟨fun hb => h1 (List.mem_cons_of_mem _ hb), h2⟩
  · intro hr
    obtain ⟨h1, h2⟩ := h.armed hr
    refine ⟨(h1.finish hq hpend).toAtMostOne, fun m g' q hm hq => ?_⟩
    rcases hcall hm with ⟨-, rfl, -⟩ | ⟨-, hm⟩
    · rfl
    · exact h2 m g' q hm hq

theorem Inv.step (h : Inv s) {a : SLAct} (hok : Rearmed a s) (hs : SLAudio.step a s = some s') :
    Inv s' := by
  cases a with
  | startPlay =>
    simp only [SLAudio.step] at hs
    split at hs <;> cases hs
    exact h.clearQueue ‹_› _ (.inr rfl)
  | close =>
    simp only [SLAudio.step] at hs
    split at hs <;> cases hs
    exact h.clearQueue ‹_› _ (.inl rfl)
  | stop =>
    simp only [SLAudio.step] at hs
    split at hs <;> cases hs
    rename_i hc
    exact { h with leave := by simp [hc], live := by simp }
  | setPause isP =>
    simp only [SLAudio.step] at hs
    split at hs <;> cases hs
    exact { h with }
  | ctl ok => exact h.stepCtl hok hs
  | update x =>
    simp only [SLAudio.step] at hs
    split at hs
    · rename_i hx
      obtain ⟨a, ha, rfl⟩ := Option.map_eq_some_iff.mp hs
      refine h.setAudio a fun y hy => ?_
      unfold IAudioPlay.update at ha
      split at ha <;> cases ha
      rcases List.mem_append.mp hy with hy | hy
      · exact h.frames y hy
      · obtain rfl : y = x := by simpa using hy
        exact not_le.mp (not_or.mp hx).1
    · cases hs
  | clear =>
    simp only [SLAudio.step] at hs
    split at hs <;> cases hs
    exact h.setAudio _ (by simp [IAudioPlay.clear])
  | finish =>
    simp only [SLAudio.step] at hs
    rcases hq : s.queue with _ | ⟨b, rest⟩
    · rw [hq] at hs
      cases hs
    · rw [hq] at hs
      simp only at hs
      split at hs <;> cases hs
      exact h.finish hq
  | call n => exact h.stepCall hok hs

theorem Inv.alive (h : Inv s) : s.ChainAlive := fun hl => (h.live hl).2.2.2.xor

/-- A call that is about to write `buf` is pending, so no buffer is queued. -/
theorem Inv.bufSafe (h : Inv s) : s.BufSafe := by
  intro n g x hn hb
  by_cases hr : s.rearmed = true
  · obtain ⟨h1, h2⟩ := h.armed hr
    obtain rfl := h2 n g _ hn rfl
    exact h1.excl (List.ne_nil_of_mem hb) n ⟨_, hn, rfl⟩
  · exact (h.unarmed (by simpa using hr)).1 hb

end SLAudio

open SLAudio

/-- In every run that meets `Rearmed`, the chain is alive between a successful `StartPlay` and the next
`Stop` or `Close`, and `buf` is never written while it is queued. -/
theorem sl_chain {s : SLAudio} (h : sl.Reach Rearmed s) : s.ChainAlive ∧ s.BufSafe := by
  have hI : Inv s := h.inv (fun _ hs => hs ▸ Inv.init) fun a s t hi ha hs => hi.step ha hs
  exact ⟨hI.alive, hI.bufSafe⟩

/-- A restart, one buffer from the decoder, and the call that hands it to the device. -/
theorem sl_chain_one_buffer : ∃ s : SLAudio, s.queue = [.buf] ∧ s.ChainAlive ∧ s.BufSafe := by
  have hr : (sl.execIf Rearmed ([.stop, .startPlay] ++ List.replicate 6 (.ctl true) ++ [.finish,
      .update { type := .UCHAR_TYPE, data := .pcm 1, size := 4096 }] ++ List.replicate 6 (.call 0)) {}).map
      SLAudio.queue = some [.buf] := rfl
  obtain ⟨s, hs, hq⟩ := Option.map_eq_some_iff.mp hr
  exact ⟨s, hq, sl_chain ⟨{}, rfl, .of_execIf hs⟩⟩

/-- A call is in progress only if the device has made it. -/
theorem SLAudio.calls_made {s : SLAudio} (h : sl.Reach Sys.any s) {n : ℕ} (hn : s.nextCall ≤ n) :
    s.calls n = none := by
  refine Sys.Reach.inv (I := fun s : SLAudio => ∀ n, s.nextCall ≤ n → s.calls n = none) h ?_ ?_ n hn
  · rintro _ rfl _ -
    rfl
  · intro a s t hI _ hs n hn
    have hsame : t.calls = s.calls → t.nextCall = s.nextCall → t.calls n = none := fun hc hk => by
      rw [hc]
      exact hI n (hk ▸ hn)
    cases a with
    | startPlay | close | stop | setPause | clear =>
      simp only [sl, SLAudio.step] at hs
      split at hs <;> cases hs
      exact hsame rfl rfl
    | ctl ok =>
      simp only [sl, SLAudio.step, SLAudio.stepCtl] at hs
      split at hs <;> cases hs <;>
        first | exact hsame rfl rfl | (cases ok <;> exact hsame rfl rfl)
    | update x =>
      simp only [sl, SLAudio.step] at hs
      split at hs
      · obtain ⟨b, -, rfl⟩ := Option.map_eq_some_iff.mp hs
        exact hsame rfl rfl
      · cases hs
    | finish =>
      simp only [sl, SLAudio.step] at hs
      split at hs
      · cases hs
      · split at hs <;> cases hs
        have hn : s.nextCall + 1 ≤ n := hn
        show Function.update s.calls s.nextCall _ n = none
        rw [Function.update_of_ne (by omega)]
        exact hI n (by omega)
    | call m =>
      simp only [sl, SLAudio.step, SLAudio.stepCall] at hs
      rcases hm : s.calls m with _ | ⟨g, pc⟩ <;> rw [hm] at hs
      · cases hs
      have hmn : n ≠ m := by
        rintro rfl
        have hk : t.nextCall = s.nextCall := by
          cases pc <;> simp only [Option.ite_none_left_eq_some, Option.some.injEq] at hs
          all_goals first | (subst hs; rfl) | (obtain ⟨-, rfl⟩ := hs; split <;> rfl)
        rw [hI n (hk ▸ hn)] at hm
        cases hm
      have hcalls : t.nextCall = s.nextCall ∧ ∃ v, t.calls = Function.update s.calls m v := by
        cases pc <;> simp only [Option.ite_none_left_eq_some, Option.some.injEq] at hs
        all_goals first
          | (subst hs; exact ⟨rfl, _, rfl⟩)
          | (obtain ⟨-, rfl⟩ := hs; split <;> exact ⟨rfl, _, rfl⟩)
      obtain ⟨hk, v, hv⟩ := hcalls
      rw [hv, Function.update_of_ne hmn]
      exact hI n (hk ▸ hn)

/-- After a `Stop` the device may call `PlayCall` before `StartPlay` resets `isExit`: the call returns,
and nothing is queued and no call in progress from then on. -/
theorem sl_chain_dead : ¬ ∀ s, sl.Reach Sys.any s → s.ChainAlive ∧ s.BufSafe := by
  intro h
  have hr : (sl.exec [.stop, .startPlay, .ctl true, .ctl true, .ctl true, .ctl true, .finish, .call 0,
      .ctl true, .ctl true] {}).map (fun s => (s.live, s.queue, s.nextCall, s.calls 0)) =
      some (true, [], 1, none) := rfl
  obtain ⟨s, hs, he⟩ := Option.map_eq_some_iff.mp hr
  simp only [Prod.mk.injEq] at he
  obtain ⟨hl, hq, hk, h0⟩ := he
  have hreach : sl.Reach Sys.any s := ⟨{}, rfl, .of_exec_any hs⟩
  obtain ⟨⟨hlen, -⟩ | ⟨-, n, ⟨pc, hn, -⟩, -⟩, -⟩ := (h s hreach).1 hl
  · rw [hq] at hlen
    cases hlen
  · rcases Nat.eq_zero_or_pos n with rfl | hpos
    · rw [h0] at hn
      cases hn
    · rw [calls_made hreach (hk ▸ hpos)] at hn
      cases hn

end XPlayer
