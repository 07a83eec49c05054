import XPlayer.PlayerStep

/-!
# The flags of the five parts

The controller alone writes the flags, so the commands it has still to do and the flags as they are say
what flags each command will find: `Finds`.

`Start` resets `isPause` of the four threads but not of `audioPlay`; the flags agree between two calls as
long as `audioPlay` is not paused when `Start` is called (`pauses_agree`).
-/

namespace XPlayer
variable {K : Type} {L : FFmpeg K}

def writeExit (F : Obj → Flags) (o : Obj) (b : Bool) : Obj → Flags :=
  Function.update F o { F o with isExit := b }

def writePause (F : Obj → Flags) (o : Obj) (b : Bool) : Obj → Flags :=
  Function.update F o { F o with isPause := b }

/-- What a command does to the flags. -/
def Cmd.flags : Cmd → (Obj → Flags) → Obj → Flags
  | .exit o b, F => writeExit F o b
  | .pause o b, F => writePause F o b
  | _, F => F

@[simp] theorem writeExit_isExit (F : Obj → Flags) (o o' : Obj) (b : Bool) :
    (writeExit F o b o').isExit = if o' = o then b else (F o').isExit := by
  unfold writeExit
  split
  · rename_i h
    subst h
    rw [Function.update_self]
  · rename_i h
    rw [Function.update_of_ne h]

@[simp] theorem writeExit_isPause (F : Obj → Flags) (o o' : Obj) (b : Bool) :
    (writeExit F o b o').isPause = (F o').isPause := by
  unfold writeExit
  by_cases h : o' = o
  · subst h
    rw [Function.update_self]
  · rw [Function.update_of_ne h]

@[simp] theorem writePause_isPause (F : Obj → Flags) (o o' : Obj) (b : Bool) :
    (writePause F o b o').isPause = if o' = o then b else (F o').isPause := by
  unfold writePause
  split
  · rename_i h
    subst h
    rw [Function.update_self]
  · rename_i h
    rw [Function.update_of_ne h]

@[simp] theorem writePause_isExit (F : Obj → Flags) (o o' : Obj) (b : Bool) :
    (writePause F o b o').isExit = (F o').isExit := by
  unfold writePause
  by_cases h : o' = o
  · subst h
    rw [Function.update_self]
  · rw [Function.update_of_ne h]

/-- Each command finds flags that satisfy `Q`, and the last one leaves flags that satisfy `E`. -/
def Finds (Q : Cmd → (Obj → Flags) → Prop) (E : (Obj → Flags) → Prop) : List Cmd → (Obj → Flags) → Prop
  | [], F => E F
  | c :: cs, F => Q c F ∧ Finds Q E cs (c.flags F)

namespace Player
variable {s s' : Player K} {Q : Cmd → (Obj → Flags) → Prop} {E : (Obj → Flags) → Prop}

theorem Commands.flags {c : Cmd} {cs cs' : List Cmd} (h : Commands L cs s c s' cs') :
    s'.flags = c.flags s.flags := by
  cases h with
  | @spawn o => cases o <;> rfl
  | seek h | sought h => exact (congrArg Player.flags h.eq :)
  | _ => rfl

/-- One step: `hopen` is for the failure of `demux->Open`, after which only the end of `Open` is left, and
`hreq` for a new call. -/
theorem Steps.finds {a : Act} (h : Steps L s a s') (hF : Finds Q E s.ui s.flags)
    (hopen : ∀ o F, Q (.openDemux o) F → Finds Q E [.unlock, .ret .open] F)
    (hseek : ∀ pos f pc pc' F, Q (.seek pos f pc) F → Q (.seek pos f pc') F)
    (hreq : ∀ c, a = .request c → E s.flags → Finds Q E c.program s.flags) : Finds Q E s'.ui s'.flags := by
  cases h with
  | @ui c cs t cs' hui hc =>
    rw [hui] at hF
    obtain ⟨hQ, hcs⟩ := hF
    have hf := hc.flags
    show Finds Q E cs' t.flags
    rw [hf]
    cases hc with
    | openFailed => exact hopen _ _ hQ
    | seek => exact ⟨hseek _ _ _ _ _ hQ, hcs⟩
    | _ => exact hcs
  | @request c hui =>
    rw [hui] at hF
    exact hreq c rfl hF
  | demux h => rw [h.eq]; exact hF
  | dec h => rw [h.eq]; exact hF
  | _ => exact hF

/-! ### The pause flags -/

/-- Between two calls, the `isPause` of all parts agree. -/
def PausesAgree (s : Player K) : Prop := s.ui = [] → ∀ o, s.isPause o = s.isPause .player

end Player

open Player

/-- The condition on the steps of a run: `Start` is called only while `audioPlay` is not paused. -/
def StartsUnpaused (a : Act) (s : Player K) : Prop :=
  match a with
  | .request (.start _) => s.isPause .audioPlay = false
  | _ => True

instance (a : Act) (s : Player K) : Decidable (StartsUnpaused a s) := by
  unfold StartsUnpaused
  split <;> infer_instance

/-- `isPause` of all parts agree. -/
def PauseEq (F : Obj → Flags) : Prop := ∀ o, (F o).isPause = (F .player).isPause

/-- `demux->Open` finds flags that agree: `Open` may end there. -/
def OpensEq (c : Cmd) (F : Obj → Flags) : Prop := ∀ o, c = .openDemux o → PauseEq F

/-- A call leaves flags that agree if it finds such flags, and `Start` if it finds `audioPlay` unpaused. -/
theorem Call.finds (c : Call) {F : Obj → Flags} (hF : PauseEq F)
    (hs : ∀ sl, c = .start sl → (F .audioPlay).isPause = false) : Finds OpensEq PauseEq c.program F := by
  cases c with
  | «open» o v a b =>
    simp only [Call.program, closeCmds, openCmds, List.cons_append, List.nil_append, Finds, OpensEq, Cmd.flags, PauseEq,
      writeExit_isPause]
    have hF' : ∀ o, (F o).isPause = (F .player).isPause := hF
    simpa using hF'
  | close =>
    simp only [Call.program, closeCmds, List.cons_append, List.nil_append, Finds, OpensEq, Cmd.flags, PauseEq,
      writeExit_isPause]
    have hF' : ∀ o, (F o).isPause = (F .player).isPause := hF
    simpa using hF'
  | setPause isP =>
    simp only [Call.program, pauseCmds, List.cons_append, List.nil_append, Finds, OpensEq, Cmd.flags, PauseEq,
      reduceCtorEq, false_implies, implies_true, true_and, writePause_isPause]
    intro o
    cases o with
    | dec d => cases d <;> simp
    | _ => simp
  | seek pos f =>
    simp only [Call.program, pauseCmds, seekEnd, List.cons_append, List.nil_append, Finds, OpensEq, Cmd.flags,
      PauseEq, reduceCtorEq, false_implies, implies_true, true_and, writePause_isPause]
    intro o
    cases o with
    | dec d => cases d <;> simp
    | _ => simp
  | start sl =>
    have ha := hs sl rfl
    cases sl <;>
    · simp only [Call.program, startCmds, startThread, List.cons_append, List.nil_append, Finds, OpensEq, Cmd.flags,
        PauseEq, ↓reduceIte, Bool.false_eq_true, reduceCtorEq, false_implies, implies_true, true_and,
        writePause_isPause, writeExit_isPause]
      intro o
      cases o with
      | dec d => cases d <;> simp
      | _ => simp [ha]

theorem PausesAgree.step {s s' : Player K} {a : Act} (hF : Finds OpensEq PauseEq s.ui s.flags)
    (ha : StartsUnpaused a s) (hs : Steps L s a s') : Finds OpensEq PauseEq s'.ui s'.flags := by
  refine hs.finds hF (fun o F hQ => ?_) (fun pos f pc pc' F _ o ho => by cases ho) fun c hc hE => ?_
  · exact ⟨nofun, nofun, hQ o rfl⟩
  · subst hc
    refine c.finds hE fun sl hsl => ?_
    subst hsl
    exact ha

/-- In every run in which `audioPlay` is not paused when `Start` is called, the pause flags agree in every
state between two calls. -/
theorem pauses_agree (L : FFmpeg K) {s : Player K} (h : (player L).Reach StartsUnpaused s) :
    s.PausesAgree := by
  have hI : Finds OpensEq PauseEq s.ui s.flags := by
    refine h.inv (I := fun s => Finds OpensEq PauseEq s.ui s.flags) ?_ fun a s t hF ha hs =>
      PausesAgree.step hF ha (steps hs)
    rintro _ ⟨total, rfl⟩ o
    rfl
  intro hui
  rw [hui] at hI
  exact hI

/-- `SetPause(true)`, `Open` of a file, `SetPause(isP)` and `Start`. -/
def pauseOpenStart (isP : Bool) : List Act :=
  .request (.setPause true) :: List.replicate 8 .ui ++
    .request (.open (.opened ⟨avFile, []⟩) .opened .opened true) :: List.replicate 32 .ui ++
    .request (.setPause isP) :: List.replicate 8 .ui ++ .request (.start true) :: List.replicate 17 .ui

set_option maxRecDepth 4000 in
/-- The pause is released before `Start`. -/
theorem pauses_agree_released : ∃ s : Player Unit, s.ui = [] ∧ s.syncN = 1 ∧ s.PausesAgree := by
  have hr : ((player silent).execIf StartsUnpaused (pauseOpenStart false) { demux := { total := 0 } }).map
      (fun s => (s.ui.isEmpty, s.syncN)) = some (true, 1) := rfl
  obtain ⟨s, hs, he⟩ := Option.map_eq_some_iff.mp hr
  simp only [Prod.mk.injEq, List.isEmpty_iff] at he
  exact ⟨s, he.1, he.2, pauses_agree silent ⟨_, ⟨0, rfl⟩, .of_execIf hs⟩⟩

set_option maxRecDepth 4000 in
/-- After `SetPause(true)`, `Open` and `Start`, only `audioPlay` is paused. -/
theorem pauses_differ : ¬ ∀ s : Player Unit, (player silent).Reach Sys.any s →
    (∃ re, .returned .start re ∈ s.log) → s.PausesAgree := by
  intro h
  have hr : ((player silent).exec (pauseOpenStart true) { demux := { total := 0 } }).map
      (fun s => (s.log.head?, s.ui.isEmpty, s.isPause .player, s.isPause .audioPlay)) =
        some (some (.returned .start true), true, false, true) := rfl
  obtain ⟨s, hs, he⟩ := Option.map_eq_some_iff.mp hr
  simp only [Prod.mk.injEq, List.isEmpty_iff] at he
  have ha := h s ⟨_, ⟨0, rfl⟩, .of_exec_any hs⟩ ⟨true, List.mem_of_mem_head? he.1⟩ he.2.1 .audioPlay
  rw [he.2.2.1, he.2.2.2] at ha
  cases ha

end XPlayer
