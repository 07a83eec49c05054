import XPlayer.PacksMutex
import Mathlib.Tactic.IntervalCases

/-!
# What `Close` leaves behind

`Close` sets every `isExit` and then clears the queues, but a thread that has tested `isExit` before may
still write: a worker of the demuxer stores its packet, and a thread of `IPlayer::Main`, which waited for
the player's mutex, stores the position of the audio.

`Stage k` is what holds once `Close` has done its first `k` steps, whatever the other threads do. It is kept
under two conditions, `NothingStored` for the queues and `SyncQuiet` for `synPts` (`close_clears`).
-/

namespace XPlayer
variable {K : Type} {L : FFmpeg K}

/-! ### The calls in the history -/

/-- What the demuxer and the controller do to the buffers. -/
def Event.moves : Event → Bool
  | .read .. | .push .. | .send .. | .drop .. | .dropPcm _ | .cleared _ | .flushed _ | .reposition => true
  | _ => false

/-- The calls of the controller. -/
def Event.calls : Event → Bool
  | .called _ | .returned .. => true
  | _ => false

namespace Player
variable {s s' : Player K} {β : Type*} {g : Event → Option β}

theorem emit_log {e : Event} (h : g e = none) : (s.emit e).log.filterMap g = s.log.filterMap g :=
  List.filterMap_cons_none h

theorem emptied_log (hg : ∀ w x, g (.drop w x) = none) (d : Dec) :
    (s.emptied d).log.filterMap g = s.log.filterMap g := by
  simp only [emptied, List.filterMap_append, List.filterMap_reverse, List.filterMap_map]
  simp [hg]

theorem clearFrames_log (hg : ∀ x, g (.dropPcm x) = none) :
    s.clearFrames.log.filterMap g = s.log.filterMap g := by
  simp only [clearFrames, List.filterMap_append, List.filterMap_reverse, List.filterMap_map]
  simp [hg]

theorem callEvent_log (hp : ∀ x, g (.play x) = none) (hd : ∀ x, g (.dropPcm x) = none) (a : IAudioPlay)
    (pc : CallPc) : (callEvent a pc).toList.filterMap g = [] := by
  cases pc with
  | «section» => rcases hf : a.frames with _ | ⟨x, rest⟩ <;> simp [callEvent, hf, hp]
  | drop x => simp [callEvent, hd]
  | _ => rfl

section
variable (hg : ∀ e : Event, e.moves = true → g e = none)
include hg

theorem Updates.log_eq {w : Holder} {u : UpdatePc} {r : Option UpdatePc} (h : Updates w s u s' r) :
    s'.log.filterMap g = s.log.filterMap g := by
  cases h with
  | push => exact List.filterMap_cons_none (hg _ rfl)
  | _ => rfl

theorem readBy_log (w : Holder) : (s.readBy w).2.log.filterMap g = s.log.filterMap g := by
  rw [readBy_eq]
  simp only
  split
  · rfl
  · exact List.filterMap_cons_none (hg _ rfl)

theorem Demuxes.log_eq {n : ℕ} {pc pc' : DemuxPc} (h : Demuxes n s pc s' pc') :
    s'.log.filterMap g = s.log.filterMap g := by
  cases h with
  | read | nothing => exact readBy_log hg _
  | update hu => exact hu.log_eq hg
  | done hu => exact (hu.log_eq hg :)
  | _ => rfl

theorem Seeks.log_eq {pos : ℚ} {f : SeekFrame} {pc : SeekPc} {r : Option SeekPc}
    (h : Seeks L pos f s pc s' r) : s'.log.filterMap g = s.log.filterMap g := by
  cases h with
  | @clear d => exact (emit_log (hg (.flushed d) rfl)).trans (emptied_log (fun _ _ => hg _ rfl) d)
  | clearFrames => exact clearFrames_log fun _ => hg _ rfl
  | nothing | early | wanted | picture => exact readBy_log hg _
  | update hu => exact hu.log_eq hg
  | done hu => exact (hu.log_eq hg :)
  | reposition | skip | send | drop => exact List.filterMap_cons_none (hg _ rfl)
  | _ => rfl

theorem Commands.log_eq {c : Cmd} {cs cs' : List Cmd} (h : Commands L cs s c s' cs')
    (hc : ∀ k, c ≠ .ret k) : s'.log.filterMap g = s.log.filterMap g := by
  cases h with
  | @spawn o => cases o <;> rfl
  | @clear d => exact (emit_log (hg (.cleared d) rfl)).trans (emptied_log (fun _ _ => hg _ rfl) d)
  | clearFrames => exact clearFrames_log fun _ => hg _ rfl
  | seek h => exact h.log_eq hg
  | sought h => exact h.log_eq hg
  | ret => exact absurd rfl (hc _)
  | _ => rfl

end

theorem Commands.log_keep (hg : ∀ e : Event, e.moves = true → g e = none) (hr : ∀ k b, g (.returned k b) = none)
    {c : Cmd} {cs cs' : List Cmd} (h : Commands L cs s c s' cs') : s'.log.filterMap g = s.log.filterMap g := by
  by_cases hret : ∃ k, c = .ret k
  · obtain ⟨k, rfl⟩ := hret
    cases h
    exact emit_log (hr _ _)
  · exact h.log_eq hg fun k hk => hret ⟨k, hk⟩

/-- The steps of the other threads are no calls. -/
theorem Steps.log_eq (hg : ∀ e : Event, e.calls = false → g e = none) {a : Act} (h : Steps L s a s')
    (hui : a ≠ .ui) (hr : ∀ c, a ≠ .request c) : s'.log.filterMap g = s.log.filterMap g := by
  cases h with
  | demux h => exact (h.log_eq fun e he => hg e (by cases e <;> first | rfl | cases he) :)
  | @dec d n t pc h =>
    generalize s.decW d n = pc₀ at h
    cases h with
    | pop | sent | unsent | «show» | notify | pcm | pcmPush | drop =>
      exact List.filterMap_cons_none (hg _ rfl)
    | _ => rfl
  | sync => exact List.filterMap_cons_none (hg _ rfl)
  | call =>
    simp only [List.filterMap_append]
    rw [callEvent_log (fun _ => hg _ rfl) fun _ => hg _ rfl]
    rfl
  | ui => exact absurd rfl hui
  | request => exact absurd rfl (hr _)
  | _ => rfl

end Player

/-! ### The stages of `Close` -/

/-- What `Close` has to do after its first `k` steps. -/
def closeFrom (k : ℕ) : List Cmd := (closeCmds ++ [Cmd.ret .close]).drop k

/-- After its test of `isExit`, the `Update` of `d` is going to store a packet. -/
def DemuxPc.storing (d : Dec) : DemuxPc → Bool
  | .update (.section d' _) => decide (d' = d)
  | _ => false

/-- Between `isExit` of the inner loop and the next one. -/
def DecPc.decoding : DecPc → Bool
  | .recv _ | .notify _ _ | .resample _ _ | .pcmExit _ _ | .pcmSection _ _ => true
  | _ => false

/-- The step of `Close` after which `isExit` is set. -/
def Obj.exitAt : Obj → ℕ
  | .player => 2
  | .demux => 3
  | .dec .video => 4
  | .dec .audio => 5
  | .audioPlay => 6

/-- The step of `Close` after its first `Clear` of a decoder. -/
def Dec.clearAt : Dec → ℕ
  | .video => 7
  | .audio => 9

/-- The step of `Close` after its last `Clear` of a decoder. -/
def Dec.lastAt : Dec → ℕ
  | .video => 13
  | .audio => 15

theorem Dec.exitAt_clearAt (d : Dec) : (Obj.dec d).exitAt < d.clearAt := by cases d <;> decide

theorem Dec.clearAt_lastAt (d : Dec) : d.clearAt < d.lastAt := by cases d <;> decide

theorem Dec.clearAt_frames (d : Dec) : d.clearAt ≤ 11 := by cases d <;> decide

namespace Player
variable {s s' t : Player K}

/-- What holds once `Close` has done `k` steps. -/
structure Stage (k : ℕ) (s : Player K) : Prop where
  exits : ∀ o : Obj, o.exitAt ≤ k → s.isExit o = true
  idle : ∀ d : Dec, d.clearAt ≤ k → ∀ n, (s.decW d n).decoding = false
  frames : 11 ≤ k → s.audio.frames = []
  packs : ∀ d : Dec, d.lastAt ≤ k → (s.dec d).packs = [] ∧ (s.dec d).pts = 0
  storing : ∀ d : Dec, d.lastAt ≤ k → ∀ n, (s.demuxW n).storing d = false

theorem Demuxes.dec_eq {n : ℕ} {d : Dec} {pc pc' : DemuxPc} (h : Demuxes n s pc t pc')
    (hn : pc.storing d = false) : t.dec d = s.dec d := by
  have hu : ∀ {u : UpdatePc} {t : Player K} {r : Option UpdatePc}, pc = .update u →
      Updates (.demux n) s u t r → t.dec d = s.dec d := by
    intro u t r he hu
    cases hu with
    | @push d' x =>
      have hd : d ≠ d' := by
        rintro rfl
        rw [he] at hn
        simp [DemuxPc.storing] at hn
      simp [pushed, emit, setDec, hd]
    | _ => rfl
  cases h with
  | read | nothing => rw [readBy_eq]
  | update h => exact hu rfl h
  | done h => exact (hu rfl h :)
  | _ => rfl

theorem next_storing {d d' : Dec} {x : XData} {u : UpdatePc} (h : UpdatePc.next d' x = some u) :
    (DemuxPc.update u).storing d = false := by
  cases d' <;> cases h
  rfl

theorem Demuxes.storing {n : ℕ} {d : Dec} {pc pc' : DemuxPc} (h : Demuxes n s pc t pc')
    (hx : s.isExit (.dec d) = true) : pc'.storing d = false := by
  cases h with
  | @update u t u' h =>
    generalize hr : some u' = r at h
    cases h with
    | @go d' x hx' =>
      cases hr
      have hd : d' ≠ d := by
        rintro rfl
        rw [hx] at hx'
        cases hx'
      simp [DemuxPc.storing, hd]
    | skip | lost | push => exact next_storing hr.symm
    | accept | full => cases hr; rfl
  | _ => rfl

theorem Decodes.decoding {n : ℕ} {d : Dec} {pc pc' : DecPc} (h : Decodes L d n s pc t pc')
    (hx : s.isExit (.dec d) = true) (hn : pc.decoding = false) : pc'.decoding = false := by
  cases h with
  | inner hx' =>
    rw [hx] at hx'
    cases hx'
  | drained | recv | «show» | notify | noData | refused | leaked | pcm | pcmLost | pcmGo | pcmFull | pcmPush =>
    cases hn
  | _ => rfl

/-- What a worker of a decoder does to its queue when it is not decoding. -/
theorem Decodes.packs {n : ℕ} {d : Dec} {pc pc' : DecPc} (h : Decodes L d n s pc t pc')
    (hn : pc.decoding = false) (hp : (s.dec d).packs = []) :
    (t.dec d).packs = [] ∧ (t.dec d).pts = (s.dec d).pts := by
  cases h with
  | pop hm hg h =>
    rw [hp] at h
    cases h
  | @sent x | @unsent x =>
    simp only [emit, setDec, Function.update_self]
    unfold FFDecode.sendPacket
    split
    · exact ⟨hp, rfl⟩
    · split <;> exact ⟨hp, rfl⟩
  | drained | recv | «show» | notify | noData | refused | leaked | pcm | pcmLost | pcmGo | pcmFull | pcmPush =>
    cases hn
  | _ => exact ⟨hp, rfl⟩

theorem Decodes.frames {n : ℕ} {d : Dec} {pc pc' : DecPc} (h : Decodes L d n s pc t pc')
    (hn : pc.decoding = false) : t.audio = s.audio := by
  cases h with
  | pcmPush => cases hn
  | _ => rfl

theorem callStep_frames {x p : Bool} {a : IAudioPlay} (pc : CallPc) (h : a.frames = []) :
    (callStep x p a pc).1.frames = [] := by
  cases pc with
  | «section» => simp [callStep, h]
  | _ => exact h

theorem Stage.worker {k : ℕ} {a : Act} (h : Stage k s) (hs : Steps L s a s') (hui : a ≠ .ui)
    (hr : ∀ c, a ≠ .request c) : Stage k s' := by
  cases hs with
  | @demux n t pc hd =>
    have hF : t.flags = s.flags := (congrArg Player.flags hd.eq :)
    have hW : t.decW = s.decW := (congrArg Player.decW hd.eq :)
    have hA : t.audio = s.audio := (congrArg Player.audio hd.eq :)
    have hD : t.demuxW = s.demuxW := (congrArg Player.demuxW hd.eq :)
    refine ⟨fun o ho => ?_, fun d hk m => ?_, fun hk => ?_, fun d hk => ?_, fun d hk m => ?_⟩
    · exact (isExit_congr hF o).trans (h.exits o ho)
    · show (t.decW d m).decoding = false
      rw [hW]
      exact h.idle d hk m
    · show t.audio.frames = []
      rw [hA]
      exact h.frames hk
    · show (t.dec d).packs = [] ∧ (t.dec d).pts = 0
      rw [hd.dec_eq (h.storing d hk n)]
      exact h.packs d hk
    · show (Function.update t.demuxW n pc m).storing d = false
      have hx : (Obj.dec d).exitAt ≤ k := by
        have := d.exitAt_clearAt
        have := d.clearAt_lastAt
        omega
      rw [hD, Function.update_apply]
      split
      · exact hd.storing (h.exits _ hx)
      · exact h.storing d hk m
  | @dec d n t pc hd =>
    have hF : t.flags = s.flags := (congrArg Player.flags hd.eq :)
    have hW : t.decW = s.decW := (congrArg Player.decW hd.eq :)
    have hD : t.demuxW = s.demuxW := (congrArg Player.demuxW hd.eq :)
    refine ⟨fun o ho => ?_, fun d' hk m => ?_, fun hk => ?_, fun d' hk => ?_, fun d' hk m => ?_⟩
    · exact (isExit_congr hF o).trans (h.exits o ho)
    · rw [setDecW_decW, hW]
      split
      · rename_i he
        obtain ⟨rfl, rfl⟩ := he
        have hx := d'.exitAt_clearAt
        exact hd.decoding (h.exits _ (by omega)) (h.idle d' hk m)
      · exact h.idle d' hk m
    · show t.audio.frames = []
      rw [hd.frames (h.idle d (d.clearAt_frames.trans hk) n)]
      exact h.frames hk
    · show (t.dec d').packs = [] ∧ (t.dec d').pts = 0
      obtain ⟨hp, hpts⟩ := h.packs d' hk
      by_cases hd' : d' = d
      · subst hd'
        obtain ⟨h1, h2⟩ := hd.packs (h.idle d' (d'.clearAt_lastAt.le.trans hk) n) hp
        exact ⟨h1, h2.trans hpts⟩
      · rw [hd.dec_other hd']
        exact ⟨hp, hpts⟩
    · show (t.demuxW m).storing d' = false
      rw [hD]
      exact h.storing d' hk m
  | sync hpc hm =>
    refine ⟨h.exits, h.idle, h.frames, fun d hk => ?_, h.storing⟩
    cases d with
    | video => simpa [setSync, emit, setDec] using h.packs .video hk
    | audio => simpa [setSync, emit, setDec] using h.packs .audio hk
  | call hpc => exact ⟨h.exits, h.idle, fun hk => callStep_frames _ (h.frames hk), h.packs, h.storing⟩
  | ui => exact absurd rfl hui
  | request => exact absurd rfl (hr _)
  | _ => exact ⟨h.exits, h.idle, h.frames, h.packs, h.storing⟩

end Player

/-! #### The controller -/

/-- The places of a `Seek` of a closed player. -/
def SeekPc.calm : SeekPc → Bool
  | .lock | .clear _ | .flush _ | .clearFrames | .reposition | .target | .exitTest _ | .unlock => true
  | _ => false

/-- The steps of the calls that do not start anything. -/
def Cmd.calm : Cmd → Bool
  | .spawn _ | .openDemux _ | .videoPara | .audioPara | .openDec _ _ | .openResample _ | .exit _ false => false
  | .seek _ _ pc => pc.calm
  | _ => true

theorem closeFrom_calm (k : ℕ) : ∀ c ∈ closeFrom k, c.calm = true := by
  intro c hc
  have hc : c ∈ closeCmds ++ [Cmd.ret .close] := List.mem_of_mem_drop hc
  simp only [closeCmds, List.cons_append, List.nil_append, List.mem_cons, List.not_mem_nil, or_false] at hc
  rcases hc with rfl | rfl | rfl | rfl | rfl | rfl | rfl | rfl | rfl | rfl | rfl | rfl | rfl | rfl | rfl | rfl |
    rfl | rfl | rfl <;> rfl

namespace Player
variable {s s' t : Player K}

theorem Stage.setDec {k : ℕ} (h : Stage k s) {d : Dec} {D : FFDecode K}
    (hD : d.lastAt ≤ k → D.packs = [] ∧ D.pts = 0) : Stage k (s.setDec d D) := by
  refine ⟨h.exits, h.idle, h.frames, fun d' hk => ?_, h.storing⟩
  by_cases hd : d' = d
  · subst hd
    simpa [Player.setDec] using hD hk
  · simpa [Player.setDec, hd] using h.packs d' hk

theorem Stage.of_eq {k : ℕ} (h : Stage k s) (hF : t.flags = s.flags) (hW : t.decW = s.decW)
    (hA : t.audio = s.audio) (hd : t.dec = s.dec) (hD : t.demuxW = s.demuxW) : Stage k t := by
  refine ⟨fun o ho => ?_, ?_, ?_, ?_, ?_⟩
  · exact (isExit_congr hF o).trans (h.exits o ho)
  · rw [hW]; exact h.idle
  · rw [hA]; exact h.frames
  · rw [hd]; exact h.packs
  · rw [hD]; exact h.storing

theorem Stage.clearFrames {k : ℕ} (h : Stage k s) : Stage k s.clearFrames :=
  ⟨h.exits, h.idle, fun _ => rfl, h.packs, h.storing⟩

theorem Stage.emptied {k : ℕ} (h : Stage k s) (d : Dec) : Stage k (s.emptied d) :=
  (h.setDec (d := d) (D := (s.dec d).clear) fun _ => ⟨rfl, rfl⟩).of_eq rfl rfl rfl rfl rfl

theorem Stage.setFlags {k : ℕ} (h : Stage k s) {o : Obj} {f : Flags}
    (hf : o.exitAt ≤ k → f.isExit = true) : Stage k (s.setFlags o f) := by
  refine ⟨fun o' ho => ?_, h.idle, h.frames, h.packs, h.storing⟩
  show (Function.update s.flags o f o').isExit = true
  by_cases heq : o' = o
  · subst heq
    rw [Function.update_self]
    exact hf ho
  · rw [Function.update_of_ne heq]
    exact h.exits o' ho

theorem Stage.seek {k : ℕ} (h : Stage k s) (hk : 2 ≤ k) {pos : ℚ} {f : SeekFrame} {pc : SeekPc}
    {r : Option SeekPc} (hs : Seeks L pos f s pc t r) (hpc : pc.calm = true) :
    Stage k t ∧ ∀ pc', r = some pc' → pc'.calm = true := by
  cases hs with
  | clear => exact ⟨(h.emptied _).of_eq rfl rfl rfl rfl rfl, fun _ hr => by cases hr; rfl⟩
  | @flush d => exact ⟨h.setDec fun hk => h.packs d hk, fun _ hr => by cases hr; cases d <;> rfl⟩
  | clearFrames => exact ⟨h.clearFrames, fun _ hr => by cases hr; rfl⟩
  | more hx =>
    -- a closed player does not begin the loop
    have hx' : s.isExit .player = true := h.exits .player hk
    rw [hx'] at hx
    cases hx
  | lock | reposition | rejected | target | exit => exact ⟨h.of_eq rfl rfl rfl rfl rfl, fun _ hr => by cases hr; rfl⟩
  | unlock => exact ⟨h.of_eq rfl rfl rfl rfl rfl, fun _ hr => by cases hr⟩
  | _ => cases hpc

theorem Stage.command {k : ℕ} (h : Stage k s) {c : Cmd} {cs cs' : List Cmd} (hs : Commands L cs s c t cs')
    (hc : c.calm = true) (hcs : ∀ c ∈ cs, c.calm = true) (hk : ∀ pos f pc, c = .seek pos f pc → 2 ≤ k) :
    Stage k t ∧ ∀ c ∈ cs', c.calm = true := by
  cases hs with
  | @exit o b =>
    cases b
    · cases hc
    · exact ⟨h.setFlags fun _ => rfl, hcs⟩
  | @pause o b => exact ⟨h.setFlags fun ho => h.exits o ho, hcs⟩
  | clear => exact ⟨(h.emptied _).of_eq rfl rfl rfl rfl rfl, hcs⟩
  | @flush d => exact ⟨h.setDec fun hk => h.packs d hk, hcs⟩
  | @free d => exact ⟨h.setDec fun hk => ⟨(h.packs d hk).1, rfl⟩, hcs⟩
  | clearFrames => exact ⟨h.clearFrames, hcs⟩
  | lock | unlock | closeDemux | ret => exact ⟨h.of_eq rfl rfl rfl rfl rfl, hcs⟩
  | @seek pos f pc t pc' hp =>
    obtain ⟨h1, h2⟩ := h.seek (hk _ _ _ rfl) hp hc
    exact ⟨h1, List.forall_mem_cons.mpr ⟨h2 _ rfl, hcs⟩⟩
  | sought hp => exact ⟨(h.seek (hk _ _ _ rfl) hp hc).1, hcs⟩
  | _ => cases hc

end Player

/-! #### A run of `Close` -/

theorem DecPc.locked_of_decoding {pc : DecPc} (h : pc.decoding = true) : pc.locked = true := by
  cases pc <;> first | rfl | cases h

/-- The decoder whose queue `Close` clears for the last time, in `FFDecode::Close`. -/
def lastClear : List Cmd → Option Dec
  | [.clear d, .free _, .clear _, .free _, .closeDemux, .unlock, .ret .close] => some d
  | [.clear d, .free _, .closeDemux, .unlock, .ret .close] => some d
  | _ => none

/-- The condition for the queues: when `Close` clears the queue of a decoder for the last time, no worker
of the demuxer has passed the test of `isExit` in the `Update` of that decoder. -/
def NothingStored (a : Act) (s : Player K) : Prop :=
  match a with
  | .ui => ∀ d ∈ lastClear s.ui, ∀ n < s.demuxN, (s.demuxW n).storing d = false
  | _ => True

instance (a : Act) (s : Player K) : Decidable (NothingStored a s) := by
  unfold NothingStored
  split <;> infer_instance

theorem Call.program_calm (c : Call) (h : c.kind ≠ .open) (h' : c.kind ≠ .start) :
    ∀ b ∈ c.program, b.calm = true := by
  cases c with
  | «open» => exact absurd rfl h
  | start => exact absurd rfl h'
  | close => exact closeFrom_calm 0
  | setPause isP => simp [Call.program, pauseCmds, Cmd.calm]
  | seek pos f => simp [Call.program, pauseCmds, seekEnd, Cmd.calm, SeekPc.calm]

theorem Call.program_close (c : Call) : c.program = closeFrom 0 ∨ ∀ b ∈ c.program, b ≠ .ret .close := by
  cases c with
  | close => exact .inl rfl
  | start sl => cases sl <;> simp [Call.program, startCmds, startThread]
  | _ => simp [Call.program, closeCmds, openCmds, pauseCmds, seekEnd]

/-- The history from the last call of `Open` or `Start`, or return of `Close`. -/
def Event.closes : Event → Option Bool
  | .returned .close _ => some true
  | .called .open | .called .start => some false
  | _ => none

theorem closes_calls (e : Event) (h : e.calls = false) : e.closes = none := by
  cases e <;> first | rfl | cases h

theorem closes_moves (e : Event) (h : e.moves = true) : e.closes = none := by
  cases e <;> first | rfl | cases h

namespace Player
variable {s s' t : Player K}

/-- `Close` has returned, and neither `Open` nor `Start` has been called since. -/
def closed (s : Player K) : Bool := ((s.log.filterMap Event.closes).head?).getD false

theorem closed_congr (h : s'.log.filterMap Event.closes = s.log.filterMap Event.closes) :
    s'.closed = s.closed := by
  unfold closed
  rw [h]

/-- Workers that do not exist yet are nowhere. -/
structure Spawned (s : Player K) : Prop where
  demux : ∀ n, s.demuxN ≤ n → s.demuxW n = .gone
  sync : ∀ n, s.syncN ≤ n → s.syncW n = .gone

theorem Spawned.of_eq (h : Spawned s) (h1 : t.demuxN = s.demuxN) (h2 : t.demuxW = s.demuxW)
    (h3 : t.syncN = s.syncN) (h4 : t.syncW = s.syncW) : Spawned t := by
  refine ⟨?_, ?_⟩
  · rw [h1, h2]
    exact h.demux
  · rw [h3, h4]
    exact h.sync

theorem Spawned.setSync (h : Spawned s) {n : ℕ} {pc : SyncPc} (hn : s.syncW n ≠ .gone) :
    Spawned (s.setSync n pc) := by
  refine ⟨h.demux, fun m hm => ?_⟩
  show Function.update s.syncW n pc m = .gone
  have hmn : m ≠ n := by
    rintro rfl
    exact hn (h.sync m hm)
  rw [Function.update_of_ne hmn]
  exact h.sync m hm

theorem Spawned.step {a : Act} (h : Spawned s) (hs : Steps L s a s') : Spawned s' := by
  cases hs with
  | @demux n t pc hd =>
    have hN : t.demuxN = s.demuxN := (congrArg Player.demuxN hd.eq :)
    have hD : t.demuxW = s.demuxW := (congrArg Player.demuxW hd.eq :)
    have hS : t.syncN = s.syncN := (congrArg Player.syncN hd.eq :)
    have hW : t.syncW = s.syncW := (congrArg Player.syncW hd.eq :)
    refine ⟨fun m hm => ?_, fun m hm => ?_⟩
    · replace hm : s.demuxN ≤ m := hN ▸ hm
      show Function.update t.demuxW n pc m = .gone
      have hmn : m ≠ n := by
        intro he
        rw [← he, h.demux m hm] at hd
        cases hd
      rw [Function.update_of_ne hmn, hD]
      exact h.demux m hm
    · show t.syncW m = .gone
      rw [hW]
      exact h.sync m (hS ▸ hm)
  | dec hd => rw [hd.eq]; exact h.of_eq rfl rfl rfl rfl
  | syncExit hp | syncMore hp => exact h.setSync (by rw [hp]; exact nofun)
  | @sync n hp hm =>
    have h' : Spawned ((s.setDec .video { s.dec .video with synPts := s.audio.pts }).emit (.synced s.audio.pts)) :=
      h.of_eq rfl rfl rfl rfl
    exact h'.setSync (by show s.syncW n ≠ .gone; rw [hp]; exact nofun)
  | ui hui hc =>
    cases hc with
    | @spawn o =>
      cases o with
      | demux =>
        refine ⟨fun m hm => ?_, h.sync⟩
        have hm : s.demuxN + 1 ≤ m := hm
        show Function.update s.demuxW s.demuxN .exitTest m = .gone
        rw [Function.update_of_ne (by omega)]
        exact h.demux m (by omega)
      | player =>
        refine ⟨h.demux, fun m hm => ?_⟩
        have hm : s.syncN + 1 ≤ m := hm
        show Function.update s.syncW s.syncN .exitTest m = .gone
        rw [Function.update_of_ne (by omega)]
        exact h.sync m (by omega)
      | _ => exact h.of_eq rfl rfl rfl rfl
    | seek hk => rw [hk.eq]; exact h.of_eq rfl rfl rfl rfl
    | sought hk => rw [hk.eq]; exact h.of_eq rfl rfl rfl rfl
    | _ => exact h.of_eq rfl rfl rfl rfl
  | _ => exact h.of_eq rfl rfl rfl rfl

theorem Steps.ui_eq {a : Act} (h : Steps L s a s') (hui : a ≠ .ui) (hr : ∀ c, a ≠ .request c) : s'.ui = s.ui := by
  cases h with
  | demux h => exact (congrArg Player.ui h.eq :)
  | dec h => exact (congrArg Player.ui h.eq :)
  | ui => exact absurd rfl hui
  | request => exact absurd rfl (hr _)
  | _ => rfl

/-- The commands of `Close`. -/
theorem closeFrom_cons {k : ℕ} {c : Cmd} {cs : List Cmd} (h : c :: cs = closeFrom k) :
    c.calm = true ∧ (∀ b ∈ cs, b.calm = true) ∧ (∀ pos f pc, c ≠ .seek pos f pc) ∧ cs = closeFrom (k + 1) := by
  have hcalm := closeFrom_calm k
  rw [← h, List.forall_mem_cons] at hcalm
  refine ⟨hcalm.1, hcalm.2, ?_, ?_⟩
  · rintro pos f pc rfl
    have hm : Cmd.seek pos f pc ∈ closeCmds ++ [Cmd.ret .close] := by
      refine List.mem_of_mem_drop (i := k) ?_
      show _ ∈ closeFrom k
      rw [← h]
      exact List.mem_cons_self ..
    simp [closeCmds] at hm
  · have := congrArg List.tail h
    simpa [closeFrom] using this

theorem Commands.closeFrom {k : ℕ} {c : Cmd} {cs cs' : List Cmd} (hs : Commands L cs s c t cs')
    (h : c :: cs = closeFrom k) : cs' = closeFrom (k + 1) := by
  obtain ⟨hc, -, hseek, hcs⟩ := closeFrom_cons h
  cases hs with
  | openFailed => cases hc
  | seek => exact absurd rfl (hseek _ _ _)
  | _ => exact hcs

theorem Stage.next {k : ℕ} (h : Stage k s) (hH : Holds s) {c : Cmd} {cs cs' : List Cmd}
    (hs : Commands L cs s c t cs') (hui : c :: cs = closeFrom k)
    (hN : ∀ d, lastClear (c :: cs) = some d → ∀ n, (s.demuxW n).storing d = false) :
    Stage (k + 1) t := by
  obtain ⟨hc, hcs, hseek, -⟩ := closeFrom_cons hui
  have ht := (h.command hs hc hcs fun pos f pc he => absurd he (hseek pos f pc)).1
  refine ⟨fun o ho => ?_, fun d hd n => ?_, fun hf => ?_, fun d hd => ?_, fun d hd n => ?_⟩
  · rcases Nat.lt_or_eq_of_le ho with ho | ho
    · exact ht.exits o (by omega)
    · have hc : c = .exit o true := by
        have hh := congrArg List.head? hui
        cases o with
        | dec d =>
          cases d <;> (simp only [Obj.exitAt] at ho; obtain rfl := Nat.succ.inj ho.symm; exact Option.some.inj hh)
        | _ => simp only [Obj.exitAt] at ho; obtain rfl := Nat.succ.inj ho.symm; exact Option.some.inj hh
      subst hc
      cases hs
      show (Function.update s.flags o _ o).isExit = true
      rw [Function.update_self]
  · rcases Nat.lt_or_eq_of_le hd with hd | hd
    · exact ht.idle d (by omega) n
    · have hc : c = .clear d := by
        have hh := congrArg List.head? hui
        cases d <;> (simp only [Dec.clearAt] at hd; obtain rfl := Nat.succ.inj hd.symm; exact Option.some.inj hh)
      subst hc
      cases hs with
      | clear hm =>
        -- nobody is between `lock` and `unlock`
        show (s.decW d n).decoding = false
        by_contra hdec
        have hlock := DecPc.locked_of_decoding (by simpa using hdec)
        rw [(hH.holder d n).mpr hlock] at hm
        cases hm
  · rcases Nat.lt_or_eq_of_le hf with hf | hf
    · exact ht.frames (by omega)
    · obtain rfl : k = 10 := by omega
      obtain rfl : c = .clearFrames := Option.some.inj (congrArg List.head? hui)
      cases hs
      rfl
  · rcases Nat.lt_or_eq_of_le hd with hd | hd
    · exact ht.packs d (by omega)
    · have hc : c = .clear d := by
        have hh := congrArg List.head? hui
        cases d <;> (simp only [Dec.lastAt] at hd; obtain rfl := Nat.succ.inj hd.symm; exact Option.some.inj hh)
      subst hc
      cases hs
      have he : (s.emptied d).dec d = (s.dec d).clear := Function.update_self ..
      exact ⟨congrArg FFDecode.packs he, congrArg FFDecode.pts he⟩
  · rcases Nat.lt_or_eq_of_le hd with hd | hd
    · exact ht.storing d (by omega) n
    · have hl : lastClear (c :: cs) = some d ∧ c = .clear d := by
        rw [hui]
        have hh := congrArg List.head? hui
        cases d <;>
        · simp only [Dec.lastAt] at hd
          obtain rfl := Nat.succ.inj hd.symm
          exact ⟨rfl, Option.some.inj hh⟩
      obtain ⟨hl, rfl⟩ := hl
      cases hs
      exact hN d hl n

theorem closed_called {c : Call} (h : (s.emit (.called c.kind)).closed = true) :
    s.closed = true ∧ c.kind ≠ .open ∧ c.kind ≠ .start := by
  cases c with
  | «open» | start => cases h
  | _ => exact ⟨h, nofun, nofun⟩

theorem closeFrom_ret {k : ℕ} {cs : List Cmd} (hk : k ≤ 18) (h : .ret .close :: cs = closeFrom k) : k = 18 := by
  have hh := congrArg List.head? h
  interval_cases k <;> first | rfl | simp [XPlayer.closeFrom, closeCmds] at hh

/-- No other command changes whether the player is closed. -/
theorem Commands.closed {c : Cmd} {cs cs' : List Cmd} (h : Commands L cs s c t cs') (hc : c ≠ .ret .close) :
    t.closed = s.closed := by
  refine closed_congr ?_
  by_cases hret : ∃ k, c = .ret k
  · obtain ⟨k, rfl⟩ := hret
    cases h
    refine emit_log ?_
    cases k with
    | close => exact absurd rfl hc
    | _ => rfl
  · exact h.log_eq closes_moves fun k he => hret ⟨k, he⟩

/-- `P k` holds after `k` steps of `Close`, and `P 19` as long as the player is closed. -/
structure Phases (P : ℕ → Player K → Prop) (s : Player K) : Prop where
  program : (∃ k ≤ 18, s.ui = closeFrom k ∧ P k s) ∨ ∀ c ∈ s.ui, c ≠ .ret .close
  closed : s.closed = true → P 19 s ∧ ∀ c ∈ s.ui, c.calm = true

/-- The rule for `Phases`: what the other threads, the steps of `Close`, the steps of a closed player and a
new call have to preserve. -/
theorem Phases.step {P : ℕ → Player K → Prop} {a : Act} (h : Phases P s) (hs : Steps L s a s')
    (hzero : ∀ c, a = .request c → P 0 s')
    (hworker : ∀ k, a ≠ .ui → (∀ c, a ≠ .request c) → P k s → P k s')
    (hnext : ∀ k c cs t cs', a = .ui → s.ui = c :: cs → c :: cs = closeFrom k → Commands L cs s c t cs' →
      P k s → P (k + 1) { t with ui := cs' })
    (hcalm : ∀ c cs t cs', a = .ui → s.ui = c :: cs → Commands L cs s c t cs' → c.calm = true →
      (∀ b ∈ cs, b.calm = true) → P 19 s → P 19 { t with ui := cs' } ∧ ∀ b ∈ cs', b.calm = true)
    (hreq : ∀ c, a = .request c → P 19 s → P 19 s') : Phases P s' := by
  by_cases hui : a = .ui
  · subst hui
    cases hs with
    | @ui c cs t cs' hui hc =>
      refine ⟨?_, fun hcl => ?_⟩
      · rcases h.program with ⟨k, hk, hk', hP⟩ | hn
        · have hcl : c :: cs = closeFrom k := hui.symm.trans hk'
          by_cases hlt : k + 1 ≤ 18
          · exact .inl ⟨k + 1, hlt, hc.closeFrom hcl, hnext k c cs t cs' rfl hui hcl hc hP⟩
          · obtain rfl : k = 18 := by omega
            refine .inr fun b hb => ?_
            have hb : b ∈ cs' := hb
            rw [hc.closeFrom hcl] at hb
            cases hb
        · refine .inr fun b hb => ?_
          rw [hui, List.forall_mem_cons] at hn
          have hb : b ∈ cs' := hb
          cases hc with
          | openFailed =>
            simp only [List.mem_cons, List.not_mem_nil, or_false] at hb
            rcases hb with rfl | rfl <;> exact nofun
          | seek =>
            rcases List.mem_cons.mp hb with rfl | hb
            · exact nofun
            · exact hn.2 b hb
          | _ => exact hn.2 b hb
      · have hcl : t.closed = true := hcl
        by_cases hret : c = .ret .close
        · -- `Close` returns
          subst hret
          rcases h.program with ⟨k, hk, hk', hP⟩ | hn
          · have hcl : .ret .close :: cs = closeFrom k := hui.symm.trans hk'
            obtain rfl := closeFrom_ret hk hcl
            refine ⟨hnext 18 _ cs t cs' rfl hui hcl hc hP, fun b hb => ?_⟩
            have hb : b ∈ cs' := hb
            rw [hc.closeFrom hcl] at hb
            cases hb
          · exact absurd rfl (hn _ (by rw [hui]; exact List.mem_cons_self ..))
        · have hs : s.closed = true := (hc.closed hret).symm.trans hcl
          obtain ⟨hP, hb⟩ := h.closed hs
          rw [hui, List.forall_mem_cons] at hb
          exact hcalm c cs t cs' rfl hui hc hb.1 hb.2 hP
  · by_cases hr : ∃ c, a = .request c
    · obtain ⟨c, rfl⟩ := hr
      have hP := hzero c rfl
      have h19 := hreq c rfl
      cases hs
      refine ⟨?_, fun hcl => ?_⟩
      · rcases c.program_close with hp | hp
        · exact .inl ⟨0, Nat.zero_le _, hp, hP⟩
        · exact .inr hp
      · obtain ⟨h1, h2, h3⟩ := closed_called hcl
        exact ⟨h19 (h.closed h1).1, c.program_calm h2 h3⟩
    · have hr : ∀ c, a ≠ .request c := fun c he => hr ⟨c, he⟩
      refine ⟨?_, fun hcl => ?_⟩
      · rw [hs.ui_eq hui hr]
        rcases h.program with ⟨k, hk, hk', hP⟩ | hn
        · exact .inl ⟨k, hk, hk', hworker k hui hr hP⟩
        · exact .inr hn
      · rw [closed_congr (hs.log_eq closes_calls hui hr)] at hcl
        obtain ⟨hP, hb⟩ := h.closed hcl
        rw [hs.ui_eq hui hr]
        exact ⟨hworker 19 hui hr hP, hb⟩

theorem Stage.zero (s : Player K) : Stage 0 s := by
  refine ⟨fun o ho => ?_, fun d hd => ?_, nofun, fun d hd => ?_, fun d hd => ?_⟩
  · cases o with
    | dec d => cases d <;> cases ho
    | _ => cases ho
  all_goals cases d <;> cases hd

/-- What holds while `Close` is called and after it has returned. -/
structure Closing (s : Player K) : Prop where
  holds : Holds s
  spawned : Spawned s
  phases : Phases Stage s

theorem Closing.nothingStored (h : Closing s) (ha : NothingStored .ui s) (d : Dec) (hd : lastClear s.ui = some d)
    (n : ℕ) : (s.demuxW n).storing d = false := by
  by_cases hlt : n < s.demuxN
  · exact ha d hd n hlt
  · rw [h.spawned.demux n (not_lt.mp hlt)]
    rfl

theorem Closing.step {a : Act} (h : Closing s) (ha : NothingStored a s) (hs : Steps L s a s') : Closing s' := by
  refine ⟨h.holds.step hs, h.spawned.step hs, h.phases.step hs (fun _ _ => .zero _) ?_ ?_ ?_ ?_⟩
  · exact fun k hui hr hst => hst.worker hs hui hr
  · intro k c cs t cs' he hui hcl hc hst
    subst he
    have ht := hst.next h.holds hc hcl fun d hd n => h.nothingStored ha d (hui ▸ hd) n
    exact ht.of_eq rfl rfl rfl rfl rfl
  · intro c cs t cs' _ _ hc hcalm hcs hst
    obtain ⟨h1, h2⟩ := hst.command hc hcalm hcs fun _ _ _ _ => by omega
    exact ⟨h1.of_eq rfl rfl rfl rfl rfl, h2⟩
  · intro c hc hst
    subst hc
    cases hs
    exact hst.of_eq rfl rfl rfl rfl rfl

/-! ### `synPts` -/

/-- The buffer whose `pts` the `PlayCall` is going to store. -/
def taken (s : Player K) : Option XData :=
  match s.call with
  | some (.got x) => some x
  | _ => none

theorem call_of_taken {x : XData} (h : s.taken = some x) : s.call = some (.got x) := by
  unfold taken at h
  split at h
  · cases h
    assumption
  · cases h

/-- Without a buffer in the queue, `GetData` takes none. -/
theorem callStep_got {x p : Bool} {a : IAudioPlay} (pc : CallPc) (h : a.frames = []) (y : XData) :
    (callStep x p a pc).2 ≠ some (.got y) := by
  cases pc with
  | exitTest | got =>
    simp only [callStep]
    split <;> exact nofun
  | pauseTest =>
    simp only [callStep]
    split <;> exact fun he => nomatch he
  | «section» =>
    simp only [callStep, h]
    exact nofun
  | _ => exact nofun

/-- No thread of `IPlayer::Main` is going to store a position other than zero. -/
def SyncQuiet (s : Player K) : Prop :=
  (∀ n, s.syncW n ≠ .section) ∨ s.audio.pts = 0 ∧ ∀ x ∈ s.taken, x.pts = 0

/-- `Stage` with what concerns `synPts`: `Close` keeps the threads of `IPlayer::Main` waiting until its
end. -/
structure Still (k : ℕ) (s : Player K) : Prop where
  stage : Stage k s
  mux : 1 ≤ k → k ≤ 17 → s.mux = true
  synPts : ∀ d : Dec, d.lastAt ≤ k → (s.dec d).synPts = 0
  sync : 18 ≤ k → SyncQuiet s

theorem Demuxes.synPts {n : ℕ} {pc pc' : DemuxPc} (h : Demuxes n s pc t pc') (d : Dec) :
    (t.dec d).synPts = (s.dec d).synPts := (congrArg FFDecode.synPts (h.dec_fields d) :)

theorem Decodes.synPts {n : ℕ} {d : Dec} {pc pc' : DecPc} (h : Decodes L d n s pc t pc') (d' : Dec) :
    (t.dec d').synPts = (s.dec d').synPts := (congrArg FFDecode.synPts (h.dec_fields d') :)

theorem Decodes.audioPts {n : ℕ} {d : Dec} {pc pc' : DecPc} (h : Decodes L d n s pc t pc') :
    t.audio.pts = s.audio.pts := by
  cases h <;> rfl

theorem Commands.still {c : Cmd} {cs cs' : List Cmd} (hs : Commands L cs s c t cs') (hc : c.calm = true) :
    t.syncW = s.syncW ∧ t.call = s.call ∧ t.audio.pts = s.audio.pts ∧
      ∀ d, (s.dec d).synPts = 0 → (t.dec d).synPts = 0 := by
  have hset : ∀ {d : Dec} {D : FFDecode K}, ((s.dec d).synPts = 0 → D.synPts = 0) → ∀ d',
      (s.dec d').synPts = 0 → ((s.setDec d D).dec d').synPts = 0 := by
    intro d D hD d' h
    by_cases hd : d' = d
    · subst hd
      simpa [Player.setDec] using hD h
    · simpa [Player.setDec, hd] using h
  cases hs with
  | @clear d => exact ⟨rfl, rfl, rfl, hset (d := d) (D := (s.dec d).clear) fun _ => rfl⟩
  | @flush d => exact ⟨rfl, rfl, rfl, hset (d := d) (D := (s.dec d).flush L) id⟩
  | @free d => exact ⟨rfl, rfl, rfl, hset (d := d) (D := (s.dec d).free) id⟩
  | lock | unlock | exit | pause | clearFrames | closeDemux | ret => exact ⟨rfl, rfl, rfl, fun _ => id⟩
  | seek hk =>
    cases hk with
    | @clear d => exact ⟨rfl, rfl, rfl, hset (d := d) (D := (s.dec d).clear) fun _ => rfl⟩
    | @flush d => exact ⟨rfl, rfl, rfl, hset (d := d) (D := (s.dec d).flush L) id⟩
    | lock | clearFrames | reposition | rejected | target | exit | more => exact ⟨rfl, rfl, rfl, fun _ => id⟩
    | _ => cases hc
  | sought hk =>
    cases hk
    exact ⟨rfl, rfl, rfl, fun _ => id⟩
  | _ => cases hc

theorem SyncQuiet.of_eq (h : SyncQuiet s) (h1 : t.syncW = s.syncW) (h2 : t.call = s.call)
    (h3 : t.audio.pts = s.audio.pts) : SyncQuiet t := by
  unfold SyncQuiet taken at *
  rw [h1, h2, h3]
  exact h

theorem Still.worker {k : ℕ} {a : Act} (h : Still k s) (hs : Steps L s a s') (hui : a ≠ .ui)
    (hr : ∀ c, a ≠ .request c) : Still k s' := by
  have hst := h.stage.worker hs hui hr
  cases hs with
  | @demux n t pc hd =>
    have hS : t.syncW = s.syncW := (congrArg Player.syncW hd.eq :)
    have hC : t.call = s.call := (congrArg Player.call hd.eq :)
    have hA : t.audio = s.audio := (congrArg Player.audio hd.eq :)
    have hM : t.mux = s.mux := (congrArg Player.mux hd.eq :)
    refine ⟨hst, fun h1 h2 => hM.trans (h.mux h1 h2), fun d hk => (hd.synPts d).trans (h.synPts d hk), fun hk => ?_⟩
    exact (h.sync hk).of_eq hS hC (congrArg IAudioPlay.pts hA)
  | @dec d n t pc hd =>
    have hS : t.syncW = s.syncW := (congrArg Player.syncW hd.eq :)
    have hC : t.call = s.call := (congrArg Player.call hd.eq :)
    have hM : t.mux = s.mux := (congrArg Player.mux hd.eq :)
    refine ⟨hst, fun h1 h2 => hM.trans (h.mux h1 h2), fun d hk => (hd.synPts d).trans (h.synPts d hk), fun hk => ?_⟩
    exact (h.sync hk).of_eq hS hC hd.audioPts
  | @syncExit n hp he =>
    refine ⟨hst, h.mux, h.synPts, fun hk => ?_⟩
    rcases h.sync hk with hq | hq
    · refine .inl fun m => ?_
      show Function.update s.syncW n .gone m ≠ .section
      rw [Function.update_apply]
      split
      · exact nofun
      · exact hq m
    · exact .inr hq
  | syncMore hp he =>
    refine ⟨hst, h.mux, h.synPts, fun hk => ?_⟩
    -- `isExit` of the player is set
    have hx : s.isExit .player = true := h.stage.exits .player (by show 2 ≤ k; omega)
    rw [hx] at he
    cases he
  | @sync n hp hm =>
    have hk : k = 0 ∨ 18 ≤ k := by
      by_contra hk
      rw [h.mux (by omega) (by omega)] at hm
      cases hm
    refine ⟨hst, h.mux, fun d hd => ?_, fun hk => ?_⟩
    · rcases hk with rfl | hk
      · cases d <;> cases hd
      · rcases h.sync hk with hq | hq
        · exact absurd hp (hq n)
        · cases d with
          | video => simpa [setSync, emit, Player.setDec] using hq.1
          | audio => simpa [setSync, emit, Player.setDec] using h.synPts .audio hd
    · rcases h.sync hk with hq | hq
      · exact absurd hp (hq n)
      · exact .inr hq
  | @device hc =>
    refine ⟨hst, h.mux, h.synPts, fun hk => ?_⟩
    rcases h.sync hk with hq | ⟨hq, -⟩
    · exact .inl hq
    · exact .inr ⟨hq, by rintro _ ⟨⟩⟩
  | @call pc hc =>
    refine ⟨hst, h.mux, h.synPts, fun hk => ?_⟩
    rcases h.sync hk with hq | ⟨hq, hx⟩
    · exact .inl hq
    · refine .inr ⟨?_, fun x hx' => ?_⟩
      · cases pc with
        | got x => exact hx x (by simp [taken, hc])
        | «section» => simp [callStep, h.stage.frames (by omega), hq]
        | _ => exact hq
      · exact absurd (call_of_taken hx') (callStep_got pc (h.stage.frames (by omega)) x)
  | ui => exact absurd rfl hui
  | request => exact absurd rfl (hr _)

theorem Still.next {k : ℕ} (h : Still k s) {c : Cmd} {cs cs' : List Cmd} (hs : Commands L cs s c t cs')
    (hst : Stage (k + 1) t) (hui : c :: cs = XPlayer.closeFrom k) (hq : k = 17 → SyncQuiet s) : Still (k + 1) t := by
  obtain ⟨hc, -, -, -⟩ := closeFrom_cons hui
  obtain ⟨hS, hC, hA, hsyn⟩ := hs.still hc
  refine ⟨hst, fun _ hk => ?_, fun d hd => ?_, fun hk => ?_⟩
  · have hh := congrArg List.head? hui
    rcases Nat.eq_zero_or_pos k with rfl | hk'
    · obtain rfl : c = .lock := Option.some.inj hh
      cases hs
      rfl
    · have hm := h.mux hk' (by omega)
      have hne : c ≠ .unlock := by
        rintro rfl
        have hk : k ≤ 16 := by omega
        interval_cases k <;> simp [XPlayer.closeFrom, closeCmds] at hh
      cases hs with
      | unlock => exact absurd rfl hne
      | @seek pos f pc => exact absurd rfl ((closeFrom_cons hui).2.2.1 pos f pc)
      | @sought pos f pc => exact absurd rfl ((closeFrom_cons hui).2.2.1 pos f pc)
      | lock => rfl
      | exit | pause | clear | flush | free | clearFrames | closeDemux | ret => exact hm
      | _ => cases hc
  · rcases Nat.lt_or_eq_of_le hd with hd | hd
    · exact hsyn d (h.synPts d (by omega))
    · have hcl : c = .clear d := by
        have hh := congrArg List.head? hui
        cases d <;> (simp only [Dec.lastAt] at hd; obtain rfl := Nat.succ.inj hd.symm; exact Option.some.inj hh)
      subst hcl
      cases hs
      have he : (s.emptied d).dec d = (s.dec d).clear := Function.update_self ..
      exact congrArg FFDecode.synPts he
  · rcases Nat.lt_or_eq_of_le hk with hk | hk
    · exact (h.sync (by omega)).of_eq hS hC hA
    · exact (hq (by omega)).of_eq hS hC hA

end Player

/-- `Close` is about to release the player's mutex. -/
def lastUnlock : List Cmd → Bool
  | [.unlock, .ret .close] => true
  | _ => false

/-- The condition for `synPts`: when `Close` releases the mutex, no thread of `IPlayer::Main` waits for it,
or the position of the audio is zero and stays so. -/
def NothingSynced (a : Act) (s : Player K) : Prop :=
  match a with
  | .ui => lastUnlock s.ui = true →
    (∀ n < s.syncN, s.syncW n ≠ .section) ∨ s.audio.pts = 0 ∧ ∀ x ∈ s.taken, x.pts = 0
  | _ => True

instance (a : Act) (s : Player K) : Decidable (NothingSynced a s) := by
  unfold NothingSynced
  split <;> infer_instance

/-- The queues are empty, and the positions zero. -/
structure Player.Cleared (s : Player K) : Prop where
  packs : ∀ d, (s.dec d).packs = []
  frames : s.audio.frames = []
  pts : ∀ d, (s.dec d).pts = 0
  synPts : ∀ d, (s.dec d).synPts = 0

open Player

theorem Player.Phases.still {s s' : Player K} {a : Act} (h : Phases Still s) (hC : Closing s)
    (ha : NothingStored a s ∧ NothingSynced a s) (hs : Steps L s a s') : Phases Still s' := by
  have heq : ∀ {k t} (cs : List Cmd), Still k t → Still (K := K) k { t with ui := cs } := fun cs h =>
    ⟨h.stage.of_eq rfl rfl rfl rfl rfl, h.mux, h.synPts, h.sync⟩
  refine h.step hs (fun c hc => ?_) ?_ ?_ ?_ ?_
  · refine ⟨.zero _, nofun, fun d hd => ?_, nofun⟩
    cases d <;> cases hd
  · exact fun k hui hr hst => hst.worker hs hui hr
  · intro k c cs t cs' he hui hcl hc hst
    subst he
    have ht := hst.stage.next hC.holds hc hcl fun d hd n => hC.nothingStored ha.1 d (hui ▸ hd) n
    refine heq cs' (hst.next hc ht hcl fun hk => ?_)
    subst hk
    have hl : lastUnlock s.ui = true := by
      rw [hui, hcl]
      rfl
    rcases ha.2 hl with hq | hq
    · refine .inl fun n => ?_
      by_cases hlt : n < s.syncN
      · exact hq n hlt
      · rw [hC.spawned.sync n (not_lt.mp hlt)]
        exact nofun
    · exact .inr hq
  · intro c cs t cs' _ _ hc hcalm hcs hst
    obtain ⟨h1, h2⟩ := hst.stage.command hc hcalm hcs fun _ _ _ _ => by omega
    obtain ⟨hS, hC, hA, hsyn⟩ := hc.still hcalm
    exact ⟨heq cs' ⟨h1, fun _ hk => absurd hk (by omega), fun d hd => hsyn d (hst.synPts d hd),
      fun hk => (hst.sync hk).of_eq hS hC hA⟩, h2⟩
  · intro c hc hst
    subst hc
    cases hs
    exact heq _ (t := s.emit _) ⟨hst.stage.of_eq rfl rfl rfl rfl rfl, hst.mux, hst.synPts, hst.sync⟩

theorem phases_init {P : ℕ → Player K → Prop} (total : ℤ) :
    Phases P ({ demux := { total := total } } : Player K) := by
  refine ⟨.inr fun b hb => ?_, fun hc => ?_⟩
  · cases hb
  · cases hc

theorem closing_init (total : ℤ) : Closing ({ demux := { total := total } } : Player K) := by
  refine ⟨⟨fun _ _ _ => rfl, fun d n => ⟨fun h => ?_, fun h => ?_⟩⟩, ⟨fun _ _ => rfl, fun _ _ => rfl⟩,
    phases_init total⟩
  · cases h
  · cases h

/-- In every run that meets the two conditions, the player is cleared from the return of `Close` to the next
call of `Open` or `Start`. -/
theorem close_clears (L : FFmpeg K) {s : Player K}
    (h : (player L).Reach (fun a s => NothingStored a s ∧ NothingSynced a s) s) (hc : s.closed = true) :
    s.Cleared := by
  have hI : Closing s ∧ Phases Still s := by
    refine h.inv (I := fun s => Closing s ∧ Phases Still s) ?_ fun a s t hI ha hs =>
      ⟨hI.1.step ha.1 (steps hs), hI.2.still hI.1 ha (steps hs)⟩
    rintro _ ⟨total, rfl⟩
    exact ⟨closing_init total, phases_init total⟩
  obtain ⟨hst, -⟩ := hI.2.closed hc
  have hl : ∀ d : Dec, d.lastAt ≤ 19 := fun d => by cases d <;> decide
  exact ⟨fun d => (hst.stage.packs d (hl d)).1, hst.stage.frames (by omega), fun d => (hst.stage.packs d (hl d)).2,
    fun d => hst.synPts d (hl d)⟩

set_option maxRecDepth 4000 in
/-- A player that is closed while it plays. -/
theorem close_clears_playing : ∃ s : Player Unit, s.closed = true ∧ s.Cleared := by
  have hr : ((player silent).execIf (fun a s => NothingStored a s ∧ NothingSynced a s)
      (openStart [⟨0, 40, 40, [1]⟩, ⟨1, 40, 40, [1]⟩] .opened ++ List.replicate 12 (.demux 0) ++ [.sync 0] ++
        .request .close :: List.replicate 19 .ui) { demux := { total := 0 } }).map closed = some true := rfl
  obtain ⟨s, hs, hc⟩ := Option.map_eq_some_iff.mp hr
  exact ⟨s, hc, close_clears silent ⟨_, ⟨0, rfl⟩, .of_execIf hs⟩ hc⟩

set_option maxRecDepth 4000 in
/-- The worker of the demuxer has tested `isExit` before `Close` and stores its packet afterwards. -/
theorem close_not_cleared : ¬ ∀ s : Player Unit, (player silent).Reach Sys.any s → s.closed = true → s.Cleared := by
  intro h
  have hr : ((player silent).exec (openStart [⟨0, 40, 40, [1]⟩] .opened ++ List.replicate 6 (.demux 0) ++
      .request .close :: List.replicate 19 .ui ++ [.demux 0]) { demux := { total := 0 } }).map
        (fun s => (s.closed, (s.dec .video).packs.length)) = some (true, 1) := rfl
  obtain ⟨s, hs, he⟩ := Option.map_eq_some_iff.mp hr
  simp only [Prod.mk.injEq] at he
  have hp := (h s ⟨_, ⟨0, rfl⟩, .of_exec_any hs⟩ he.1).packs .video
  rw [hp] at he
  cases he.2

end XPlayer
