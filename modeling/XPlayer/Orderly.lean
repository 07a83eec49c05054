import XPlayer.Playback
import XPlayer.SeekFlush

/-!
# A player in order

What is known of every reachable state when `Seek` gets to its loop: `IObserver::mux` of the demuxer is held by the one
who is in `Notify` (`Observed`), no queue is longer than it may be (`Roomy`), and after a `Seek` comes the rest of its
call.
-/

namespace XPlayer
variable {K : Type} {L : FFmpeg K}

/-- In `Notify`. -/
def DemuxPc.updating : DemuxPc → Bool
  | .update _ => true
  | _ => false

def SeekPc.updating : SeekPc → Bool
  | .update .. => true
  | _ => false

namespace Player
variable {s t : Player K} {pos : ℚ} {f : SeekFrame} {pc : SeekPc}

theorem readBy_still (s : Player K) (w : Holder) : (s.readBy w).2.dec = s.dec ∧ (s.readBy w).2.flags = s.flags := by
  rw [readBy_eq]
  exact ⟨rfl, rfl⟩

/-! ### The mutex of `Notify` -/

def updating : List Cmd → Bool
  | .seek _ _ pc :: _ => pc.updating
  | _ => false

/-- `w` is in `Notify` of `demux`. -/
def notifying (s : Player K) : Holder → Bool
  | .demux n => (s.demuxW n).updating
  | .ui => updating s.ui
  | _ => false

/-- `IObserver::mux` of `demux` is held by the one who is in `Notify`. -/
def Observes (s : Player K) : Prop := ∀ w, s.demuxMux = some w ↔ s.notifying w = true

theorem Observes.congr (h : Observes s) (hm : t.demuxMux = s.demuxMux)
    (hd : ∀ n, (t.demuxW n).updating = (s.demuxW n).updating) (hu : updating t.ui = updating s.ui) : Observes t := by
  intro w
  have hn : t.notifying w = s.notifying w := by
    cases w with
    | demux n => exact hd n
    | ui => exact hu
    | queue | decoder => rfl
  rw [hm, hn]
  exact h w

/-- `w₀` takes the mutex. -/
theorem Observes.take {w₀ : Holder} (h : Observes s) (hs : s.demuxMux = none) (ht : t.demuxMux = some w₀)
    (h₀ : t.notifying w₀ = true) (hn : ∀ w ≠ w₀, t.notifying w = s.notifying w) : Observes t := by
  intro w
  by_cases hw : w = w₀
  · subst hw
    exact iff_of_true ht h₀
  · rw [hn w hw, ← h w, hs, ht]
    exact iff_of_false (fun he => hw (Option.some.inj he).symm) nofun

/-- `w₀` gives it back. -/
theorem Observes.give {w₀ : Holder} (h : Observes s) (hs : s.notifying w₀ = true) (ht : t.demuxMux = none)
    (h₀ : t.notifying w₀ = false) (hn : ∀ w ≠ w₀, t.notifying w = s.notifying w) : Observes t := by
  intro w
  rw [ht]
  refine iff_of_false nofun ?_
  by_cases hw : w = w₀
  · rw [hw, h₀]
    exact Bool.false_ne_true
  · rw [hn w hw]
    exact fun he => hw (Option.some.inj (((h w).mpr he).symm.trans ((h w₀).mpr hs)))

theorem Observes.demux (h : Observes s) {n : ℕ} {pc : DemuxPc} (hd : Demuxes n s (s.demuxW n) t pc) :
    Observes (t.setDemux n pc) := by
  have hui : t.ui = s.ui := (congrArg Player.ui hd.eq :)
  have hdw : t.demuxW = s.demuxW := (congrArg Player.demuxW hd.eq :)
  have hself : (t.setDemux n pc).demuxW n = pc := Function.update_self ..
  have hother : ∀ m ≠ n, (t.setDemux n pc).demuxW m = s.demuxW m := fun m hm =>
    (Function.update_of_ne hm ..).trans (congrFun hdw m)
  have hn : ∀ w ≠ .demux n, (t.setDemux n pc).notifying w = s.notifying w := by
    intro w hw
    cases w with
    | demux m => exact congrArg DemuxPc.updating (hother m fun hm => hw (congrArg _ hm))
    | ui => exact congrArg updating hui
    | queue | decoder => rfl
  have h₀ : (t.setDemux n pc).notifying (.demux n) = pc.updating := congrArg DemuxPc.updating hself
  have hstill : t.demuxMux = s.demuxMux → pc.updating = (s.demuxW n).updating → Observes (t.setDemux n pc) := by
    intro hm hu
    refine h.congr hm (fun m => ?_) (congrArg updating hui)
    by_cases he : m = n
    · rw [he, hself, hu]
    · rw [hother m he]
  have hs : s.notifying (.demux n) = (s.demuxW n).updating := rfl
  generalize s.demuxW n = pc₀ at hd hstill hs
  cases hd with
  | notify hm => exact h.take hm rfl h₀ hn
  | done hu => exact h.give hs rfl h₀ hn
  | update hu => exact hstill (by rw [updates_eq hu]) rfl
  | read | nothing => exact hstill (by rw [readBy_eq]) rfl
  | _ => exact hstill rfl rfl

theorem Observes.seek (h : Observes s) {cs : List Cmd} (hui : s.ui = .seek pos f pc :: cs) {r : Option SeekPc}
    (hk : Seeks L pos f s pc t r) (hcs : updating cs = false) :
    Observes (t.setUi (r.elim cs fun pc' => .seek pos f pc' :: cs)) := by
  have hdw : ∀ n, (t.demuxW n).updating = (s.demuxW n).updating := fun n =>
    congrArg DemuxPc.updating (congrFun (congrArg Player.demuxW hk.eq :) n)
  have hn : ∀ cs, ∀ w ≠ .ui, (t.setUi cs).notifying w = s.notifying w := by
    intro cs w hw
    cases w with
    | demux m => exact hdw m
    | ui => exact absurd rfl hw
    | queue | decoder => rfl
  have hs : s.notifying .ui = pc.updating := congrArg updating hui
  have hstill : ∀ cs, t.demuxMux = s.demuxMux → updating cs = pc.updating → Observes (t.setUi cs) :=
    fun cs hm hu => h.congr hm hdw (hu.trans hs.symm)
  cases hk with
  | notify hm => exact h.take hm rfl rfl (hn _)
  | done hu => exact h.give hs rfl rfl (hn _)
  | update hu => exact hstill _ (by rw [updates_eq hu]) rfl
  | nothing | early | wanted | picture => exact hstill _ (by rw [readBy_eq]) rfl
  | unlock => exact hstill _ rfl hcs
  | @flush d => exact hstill _ rfl (by cases d <;> rfl)
  | _ => exact hstill _ rfl rfl

/-- All `Seek`s that are still to come are at their beginning. -/
def Begins (cs : List Cmd) : Prop := ∀ pos f pc, Cmd.seek pos f pc ∈ cs → pc = .lock

theorem Begins.updating {cs : List Cmd} (h : Begins cs) : updating cs = false := by
  unfold Player.updating
  split
  · rename_i pos f pc cs
    rw [h pos f pc List.mem_cons_self]
    rfl
  · rfl

/-- What is known of the mutex of `Notify`. -/
structure Observed (s : Player K) : Prop where
  spawned : Spawned s
  begins : Begins s.ui.tail
  holder : Observes s

theorem Observed.command (h : Observed s) {c : Cmd} {cs cs' : List Cmd} (hui : s.ui = c :: cs)
    (hc : Commands L cs s c t cs') : Observes (t.setUi cs') := by
  have hcs : updating cs = false := by
    have hb := h.begins
    rw [hui] at hb
    exact hb.updating
  -- the other commands are not in `Notify`
  have hplain : updating s.ui = false → t.demuxMux = s.demuxMux →
      (∀ n, (t.demuxW n).updating = (s.demuxW n).updating) → updating cs' = false → Observes (t.setUi cs') :=
    fun hu hm hd hcs' => h.holder.congr hm hd (hcs'.trans hu.symm)
  have hself := congrArg updating hui
  cases hc with
  | seek hk => exact h.holder.seek hui hk hcs
  | sought hk => exact h.holder.seek hui hk hcs
  | openFailed => exact hplain hself rfl (fun _ => rfl) rfl
  | @spawn o =>
    refine hplain hself (by cases o <;> rfl) (fun n => ?_) hcs
    cases o with
    | demux =>
      show (Function.update s.demuxW s.demuxN .exitTest n).updating = _
      rw [Function.update_apply]
      split_ifs with hn
      · rw [h.spawned.demux n hn.ge]
        rfl
      · rfl
    | _ => rfl
  | _ => exact hplain hself rfl (fun _ => rfl) hcs

theorem Observed.step (h : Observed s) {a : Act} (hs : Steps L s a t) : Observed t := by
  have hS := h.spawned.step hs
  cases hs with
  | @demux n u pc hd =>
    have hui : (u.setDemux n pc).ui = s.ui := (congrArg Player.ui hd.eq :)
    exact ⟨hS, hui ▸ h.begins, h.holder.demux hd⟩
  | @dec d n u pc hd =>
    have hui : (u.setDecW d n pc).ui = s.ui := (congrArg Player.ui hd.eq :)
    have hdw : (u.setDecW d n pc).demuxW = s.demuxW := (congrArg Player.demuxW hd.eq :)
    exact ⟨hS, hui ▸ h.begins, h.holder.congr (congrArg Player.demuxMux hd.eq :)
      (fun m => congrArg DemuxPc.updating (congrFun hdw m)) (congrArg updating hui)⟩
  | @request c hui =>
    have hb : Begins c.program := fun pos f pc => c.program_begins
    refine ⟨hS, fun pos f pc hm => hb pos f pc (List.mem_of_mem_tail hm), h.holder.congr rfl (fun _ => rfl) ?_⟩
    rw [hui]
    exact hb.updating
  | @ui c cs u cs' hui hc =>
    refine ⟨hS, hc.begins fun pos f pc hm => h.begins pos f pc (by rw [hui]; exact hm), ?_⟩
    exact h.command hui hc
  | syncExit | syncMore | sync | device | call =>
    exact ⟨hS, h.begins, h.holder.congr rfl (fun _ => rfl) rfl⟩

/-! ### The lengths of the queues -/

def Roomy (s : Player K) : Prop := ∀ d, (s.dec d).packs.length ≤ (s.dec d).maxList

theorem Roomy.setDec (h : Roomy s) {d : Dec} {D : FFDecode K} (hp : D.packs.length ≤ (s.dec d).packs.length)
    (hm : D.maxList = (s.dec d).maxList) : Roomy (s.setDec d D) := by
  intro d'
  by_cases hd : d' = d
  · subst hd
    rw [setDec_self, hm]
    exact hp.trans (h d')
  · rw [setDec_ne _ _ hd]
    exact h d'

theorem Updates.roomy {w : Holder} {u : UpdatePc} {r : Option UpdatePc} (h : Updates w s u t r) (hR : Roomy s) :
    Roomy t := by
  cases h with
  | @push d x hm hn =>
    intro d'
    by_cases hd : d' = d
    · subst hd
      have hp : (s.pushed w d' x).dec d' = { s.dec d' with packs := (s.dec d').packs ++ [x] } := by
        simp [pushed, emit, setDec]
      rw [hp, List.length_append]
      exact hn
    · have hp : (s.pushed w d x).dec d' = s.dec d' := s.setDec_ne _ hd
      rw [hp]
      exact hR d'
  | _ => exact hR

theorem Roomy.read (hR : Roomy s) (w : Holder) : Roomy (s.readBy w).2 := by
  rw [readBy_eq]
  exact hR

theorem Demuxes.roomy {n : ℕ} {pc pc' : DemuxPc} (h : Demuxes n s pc t pc') (hR : Roomy s) : Roomy t := by
  cases h with
  | read | nothing => exact hR.read _
  | update hu => exact hu.roomy hR
  | @done u v hu =>
    have hv : Roomy v := hu.roomy hR
    exact hv
  | _ => exact hR

theorem sendPacket_maxList (D : FFDecode K) (x : XData) : (D.sendPacket L x).2.maxList = D.maxList := by
  rw [FFDecode.sendPacket_eq]
  split <;> rfl

theorem recvFrame_maxList (D : FFDecode K) : (D.recvFrame L).2.maxList = D.maxList := by
  unfold FFDecode.recvFrame
  split <;> rfl

theorem Roomy.send (hR : Roomy s) (d : Dec) (x : XData) : Roomy (s.setDec d ((s.dec d).sendPacket L x).2) :=
  hR.setDec (congrArg List.length (sendPacket_packs ..)).le (sendPacket_maxList ..)

theorem Roomy.recv (hR : Roomy s) (d : Dec) : Roomy (s.setDec d ((s.dec d).recvFrame L).2) :=
  hR.setDec (congrArg List.length (recvFrame_packs _)).le (recvFrame_maxList _)

theorem Decodes.roomy {d : Dec} {n : ℕ} {pc pc' : DecPc} (h : Decodes L d n s pc t pc') (hR : Roomy s) : Roomy t := by
  cases h with
  | @pop x rest hm hg hp =>
    have hv : Roomy (s.setDec d { s.dec d with packs := rest }) := hR.setDec (by rw [hp]; exact Nat.le_succ _) rfl
    exact hv
  | @sent x | @unsent x =>
    have hv := hR.send (L := L) d x
    exact hv
  | drained | recv => exact hR.recv d
  | _ => exact hR

theorem Seeks.roomy {r : Option SeekPc} (h : Seeks L pos f s pc t r) (hR : Roomy s) : Roomy t := by
  cases h with
  | @clear d =>
    have hv : Roomy (s.setDec d (s.dec d).clear) := hR.setDec (Nat.zero_le _) rfl
    exact hv
  | @flush d => exact hR.setDec le_rfl rfl
  | nothing | early | wanted | picture => exact hR.read _
  | update hu => exact hu.roomy hR
  | @done T u v hu =>
    have hv : Roomy v := hu.roomy hR
    exact hv
  | @send T x =>
    have hv := hR.send (L := L) .video x
    exact hv
  | found | before => exact hR.recv .video
  | _ => exact hR

theorem Commands.roomy {c : Cmd} {cs cs' : List Cmd} (h : Commands L cs s c t cs') (hR : Roomy s) : Roomy t := by
  cases h with
  | @clear d =>
    have hv : Roomy (s.setDec d (s.dec d).clear) := hR.setDec (Nat.zero_le _) rfl
    exact hv
  | @flush d => exact hR.setDec le_rfl rfl
  | @free d => exact hR.setDec le_rfl rfl
  | openDec =>
    refine hR.setDec ?_ ?_
    all_goals
      unfold FFDecode.open
      split <;> rfl
  | @spawn o => cases o <;> exact hR
  | seek hk => exact hk.roomy hR
  | sought hk => exact hk.roomy hR
  | _ => exact hR

theorem Steps.roomy {a : Act} (hs : Steps L s a t) (hR : Roomy s) : Roomy t := by
  cases hs with
  | @demux n u pc hd =>
    have hu : Roomy u := hd.roomy hR
    exact hu
  | @dec d n u pc hd =>
    have hu : Roomy u := hd.roomy hR
    exact hu
  | sync => exact hR.setDec le_rfl rfl
  | @ui c cs u cs' hui hc =>
    have hu : Roomy u := hc.roomy hR
    exact hu
  | _ => exact hR

/-! ### A call of `Seek` in its loop -/

/-- What follows a `Seek`. -/
def afterSeek : List Cmd → Option (List Cmd)
  | [] => none
  | .seek .. :: cs => some cs
  | _ :: cs => afterSeek cs

theorem Call.afterSeek_program (c : Call) : afterSeek c.program = none ∨ afterSeek c.program = some seekEnd := by
  cases c with
  | seek => exact .inr rfl
  | start sl => cases sl <;> exact .inl rfl
  | _ => exact .inl rfl

theorem afterSeek_step (h : afterSeek s.ui = none ∨ afterSeek s.ui = some seekEnd) {a : Act} (hs : Steps L s a t) :
    afterSeek t.ui = none ∨ afterSeek t.ui = some seekEnd := by
  cases hs with
  | demux hd =>
    rw [hd.eq]
    exact h
  | dec hd =>
    rw [hd.eq]
    exact h
  | request => exact Call.afterSeek_program _
  | @ui c cs u cs' hui hc =>
    rw [hui] at h
    show afterSeek cs' = none ∨ afterSeek cs' = some seekEnd
    cases hc with
    | seek => exact h
    | sought =>
      rcases h with h | h <;> cases h
      exact .inl rfl
    | openFailed => exact .inl rfl
    | _ => exact h
  | _ => exact h

/-- What holds of all reachable states. -/
structure Orderly (s : Player K) : Prop where
  observed : Observed s
  holds : Holds s
  paused : Finds SeekPaused (fun _ => True) s.ui s.flags
  video : (s.dec .video).isAudio = false
  room : Roomy s
  after : afterSeek s.ui = none ∨ afterSeek s.ui = some seekEnd

theorem Orderly.step (h : Orderly s) {a : Act} (hs : s.step L a = some t) : Orderly t :=
  ⟨h.observed.step (steps hs), h.holds.step (steps hs), (steps hs).seek_paused h.paused, step_video h.video hs,
    (steps hs).roomy h.room, afterSeek_step h.after (steps hs)⟩

theorem reach_orderly (h : (player L).Reach Sys.any s) : Orderly s := by
  refine h.inv (I := Orderly) ?_ fun a s t hI _ hs => hI.step hs
  rintro _ ⟨total, rfl⟩
  refine ⟨⟨⟨fun _ _ => rfl, fun _ _ => rfl⟩, fun _ _ _ hm => absurd hm List.not_mem_nil, fun w => ?_⟩,
    ⟨fun _ _ _ => rfl, fun d n => iff_of_false nofun Bool.false_ne_true⟩, trivial, rfl, fun _ => Nat.zero_le _,
    .inl rfl⟩
  cases w <;> exact iff_of_false nofun Bool.false_ne_true

/-- A worker that was not started is outside of its loop body. -/
theorem Holds.outside (h : Holds s) (hW : ∀ d, ∀ n < s.decN d, (s.decW d n).outside = true) (d : Dec) (n : ℕ) :
    (s.decW d n).outside = true := by
  by_cases hn : n < s.decN d
  · exact hW d n hn
  · rw [h.gone d n (not_lt.mp hn)]
    rfl

/-- Where the decoders are paused outside of their loop bodies, no mutex of a queue is held. -/
theorem Holds.free (h : Holds s) (hW : ∀ d n, (s.decW d n).outside = true) (d : Dec) : s.packsMutex d = none := by
  rcases hm : s.packsMutex d with _ | n
  · rfl
  · have hl := (h.holder d n).mp hm
    rw [DecPc.outside_locked (hW d n)] at hl
    cases hl

end Player

end XPlayer
