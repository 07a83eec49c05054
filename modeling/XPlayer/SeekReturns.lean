import XPlayer.SeekLoop
import Mathlib.Algebra.Order.BigOperators.Group.Finset

/-!
# The return of `Seek`

`Seek` returns from its loop exactly if there is space for all packets (`seek_returns`). If there is, its steps lead out
of the loop, and the workers of the demuxer give the mutex of `Notify` back to it (`Looping.release`). If there is not,
the steps of all threads lead to a state in which `Notify` waits for space that no one makes (`Stuck`).
-/

namespace XPlayer
variable {K : Type} {L : FFmpeg K}

/-! ### The way to the return -/

/-- A bound on the steps of `Notify` after the `Update` of `d`. -/
def Dec.after : Dec → ℕ
  | .video => 4
  | .audio => 0

/-- A bound on the steps to the end of `Notify`, where no queue is full. -/
def UpdatePc.toGo (I : Intake) : UpdatePc → ℕ
  | .enter d _ => d.after + 3
  | .exitTest d _ => d.after + if I.isExit d then 1 else 2
  | .section d _ => d.after + if I.isExit d then 2 else 1

/-- A bound on the steps of a worker of the demuxer to the end of its loop body. -/
def DemuxPc.toGo (I : Intake) : DemuxPc → ℕ
  | .read => 9
  | .notify _ => 8
  | .update u => u.toGo I
  | _ => 0

/-- A bound on the steps of `Seek` in its loop, with `R` packets to read. -/
def SeekPc.toGo (I : Intake) (R : ℕ) : SeekPc → ℕ
  | .exitTest _ => 12 * R + 3
  | .read _ => 12 * R + 2
  | .skip .. => 12 * R + 4
  | .notify .. => 12 * R + 11
  | .update _ u => 12 * R + 3 + u.toGo I
  | .send .. => 12 * R + 6
  | .drop .. => 12 * R + 5
  | .recv _ => 12 * R + 4
  | .unlock => 1
  | _ => 0

theorem SeekPc.toGo_mono (I : Intake) {R R' : ℕ} (h : R ≤ R') (pc : SeekPc) : pc.toGo I R ≤ pc.toGo I R' := by
  cases pc <;> simp only [toGo] <;> omega

/-- The commands after the loop that wait for nothing. -/
def Cmd.prompt : Cmd → Bool
  | .pause .. | .unlock | .ret _ => true
  | _ => false

def Act.isUi : Act → Bool
  | .ui => true
  | _ => false

namespace Player
variable {s t : Player K} {pos : ℚ} {f : SeekFrame} {pc pc' : SeekPc} {T : ℤ}

/-- `Update` waits for space that only the worker of its decoder can make. -/
def Polls (s : Player K) : UpdatePc → Prop
  | .enter .. => False
  | .exitTest d _ | .section d _ => s.isExit (.dec d) = false ∧ (s.dec d).maxList ≤ (s.dec d).packs.length

theorem Polls.over {u : UpdatePc} (h : s.Polls u) : ∃ d, s.intake.maxList d < s.queued d + u.stores s.intake d := by
  have hover : ∀ d, s.isExit (.dec d) = false → (s.dec d).maxList ≤ (s.dec d).packs.length → ∀ k,
      s.intake.maxList d < s.queued d + ((if d = d ∧ s.intake.isExit d = false then 1 else 0) + k) := by
    intro d hx hle k
    have hq : s.queued d = (s.dec d).packs.length := by
      unfold queued
      rw [hx]
      rfl
    rw [if_pos ⟨rfl, hx⟩, hq]
    show (s.dec d).maxList < _
    omega
  cases u with
  | enter => exact h.elim
  | exitTest d | «section» d => exact ⟨d, hover d h.1 h.2 _⟩

theorem Polls.congr {u : UpdatePc} (h : s.Polls u) (hF : t.flags = s.flags)
    (hp : ∀ d, (t.dec d).packs = (s.dec d).packs) (hM : ∀ d, (t.dec d).maxList = (s.dec d).maxList) : t.Polls u := by
  unfold Polls at h ⊢
  split
  · exact h
  all_goals
    rw [isExit_congr hF, hp, hM]
    exact h

theorem Polls.step {w : Holder} {u : UpdatePc} {r : Option UpdatePc} (h : s.Polls u) (hu : Updates w s u t r) :
    ∃ u', r = some u' ∧ t = s ∧ s.Polls u' := by
  cases hu with
  | skip | accept => exact h.elim
  | lost hx => exact absurd (h.1.symm.trans hx) Bool.false_ne_true
  | go => exact ⟨_, rfl, rfl, h⟩
  | push hm hn => exact absurd hn (not_lt.mpr h.2)
  | full => exact ⟨_, rfl, rfl, h⟩

theorem Updates.toGo {w : Holder} {u : UpdatePc} {r : Option UpdatePc} (h : Updates w s u t r) (hp : ¬ s.Polls u) :
    (r.map (UpdatePc.toGo s.intake)).getD 0 < u.toGo s.intake := by
  have hx : ∀ d, s.intake.isExit d = s.isExit (.dec d) := fun _ => rfl
  have hnext : ∀ d x, ((UpdatePc.next d x).map (UpdatePc.toGo s.intake)).getD 0 < d.after + 1 := by
    intro d x
    cases d
    · exact Nat.lt_succ_of_lt (Nat.lt_succ_self 3)
    · exact Nat.one_pos
  cases h with
  | @skip d x => exact (hnext d x).trans (Nat.lt_add_of_pos_right (by decide : 0 < 2))
  | @accept d x =>
    refine Nat.add_lt_add_left ?_ _
    split <;> omega
  | @lost d x h =>
    rw [UpdatePc.toGo, hx, if_pos h]
    exact hnext d x
  | @go d x h =>
    refine Nat.add_lt_add_left ?_ _
    rw [hx, h]
    exact Nat.lt_succ_self 1
  | @push d x =>
    refine (hnext d x).trans_le (Nat.add_le_add_left ?_ _)
    split <;> omega
  | @full d x hm hle =>
    have hd : s.isExit (.dec d) = true := by
      by_contra hn
      exact hp ⟨eq_false_of_ne_true hn, hle⟩
    refine Nat.add_lt_add_left ?_ _
    rw [hx, hd]
    exact Nat.lt_succ_self 1

theorem update_isSome (hm : ∀ d, s.packsMutex d = none) (w : Holder) (u : UpdatePc) : (s.update w u).isSome := by
  cases u with
  | enter | exitTest => rfl
  | «section» d x =>
    simp only [update, hm, ne_eq, not_true_eq_false, ↓reduceIte]
    split <;> rfl

theorem Demuxes.toGo {n : ℕ} {pc pc' : DemuxPc} (h : Demuxes n s pc t pc') (hp : ∀ u, pc = .update u → ¬ s.Polls u)
    (ho : 0 < pc.toGo s.intake) : pc'.toGo s.intake < pc.toGo s.intake := by
  cases h with
  | exit | more | paused | run => exact absurd ho (lt_irrefl 0)
  | read => exact Nat.lt_succ_self 8
  | nothing => exact Nat.succ_pos 8
  | notify => exact Nat.lt_succ_self 7
  | update hu => exact hu.toGo (hp _ rfl)
  | done hu => exact hu.toGo (hp _ rfl)

theorem UpdatePc.toGo_pos (I : Intake) (u : UpdatePc) : 0 < u.toGo I := by
  cases u with
  | enter => exact Nat.lt_of_lt_of_le (Nat.succ_pos 2) (Nat.le_add_left ..)
  | exitTest | «section» => exact Nat.lt_of_lt_of_le (by split <;> omega) (Nat.le_add_left ..)

theorem Seeks.intake {r : Option SeekPc} (h : Seeks L pos f s pc t r) (hp : s.Place pc) : t.intake = s.intake := by
  have hread : (s.readBy .ui).2.intake = s.intake := by
    rw [readBy_eq]
    rfl
  cases h with
  | lock | clear | flush | clearFrames | reposition | rejected | target => cases hp
  | nothing | early | wanted | picture => exact hread
  | update hu => exact hu.intake
  | done hu => exact (hu.intake :)
  | @send T x =>
    exact (setDec_load (s := s) (D := ((s.dec .video).sendPacket L x).2) (sendPacket_isAudio ..) (sendPacket_maxList ..)
      (sendPacket_packs ..)).1
  | found | before => exact (setDec_load (recvFrame_isAudio _) (recvFrame_maxList _) (recvFrame_packs _)).1
  | _ => rfl

/-- Where `Seek` does not wait for space, it gets nearer to its return. -/
theorem Seeks.toGo (h : Seeks L pos f s pc t (some pc')) (hl : s.Place pc)
    (hp : ∀ T u, pc = .update T u → ¬ s.Polls u) :
    pc'.toGo s.intake t.demux.unread.length < pc.toGo s.intake s.demux.unread.length := by
  cases h with
  | lock | clear | flush | clearFrames | reposition | rejected | target => cases hl
  | nothing => exact Nat.lt_of_lt_of_le (by decide : 1 < 2) (Nat.le_add_left ..)
  | early hx | wanted hx | picture hx =>
    have hlt := unread_readBy_lt hx
    simp only [SeekPc.toGo]
    omega
  | @update T u _ u' hu =>
    have he : t.demux = s.demux := by rw [updates_eq hu]
    rw [he]
    exact Nat.add_lt_add_left (hu.toGo (hp T u rfl)) _
  | @done T u v hu =>
    have he : v.demux = s.demux := by rw [updates_eq hu]
    show 12 * v.demux.unread.length + 3 < _
    rw [he]
    exact Nat.lt_add_of_pos_right (UpdatePc.toGo_pos _ u)
  | exit | found => exact Nat.lt_of_lt_of_le (by decide : 1 < 3) (by simp only [SeekPc.toGo]; omega)
  | notify => exact Nat.add_lt_add_left (by decide : 10 < 11) (12 * s.demux.unread.length)
  | _ => exact Nat.lt_succ_self _

theorem Looping.cases_ui (h : Looping pos f s pc) (hs : Steps L s .ui t) :
    (∃ v pc', Seeks L pos f s pc v (some pc') ∧ t = v.setUi (.seek pos f pc' :: seekEnd)) ∨
      pc = .unlock ∧ t = { s with mux := false, ui := seekEnd } := by
  cases hs with
  | @ui c cs u cs' hui hc =>
    cases h.ui.symm.trans hui
    cases hc with
    | @seek _ _ _ _ pc' hk => exact .inl ⟨u, pc', hk, rfl⟩
    | sought hk =>
      cases hk
      exact .inr ⟨rfl, rfl⟩

theorem fits_setUi (s : Player K) (cs : List Cmd) (pc : SeekPc) : pc.Fits L (s.setUi cs) ↔ pc.Fits L s := by
  cases pc <;> exact Iff.rfl

theorem Looping.other_fits (h : Looping pos f s pc) {a : Act} (hs : Steps L s a t) (ha : a ≠ .ui) (hf : pc.Fits L s) :
    pc.Fits L t := by
  rcases h.cases_other hs ha with hA | ⟨n, u, pc', rfl, hd, rfl⟩
  · exact (hA.fits pc).mpr hf
  · exact h.fits_demux hd hf

theorem Demuxes.unread_le {n : ℕ} {pc pc' : DemuxPc} (h : Demuxes n s pc t pc') :
    t.demux.unread.length ≤ s.demux.unread.length := by
  cases h with
  | read | nothing =>
    rw [unread_readBy, List.length_tail]
    exact Nat.sub_le ..
  | update hu => rw [updates_eq hu]
  | done hu => rw [updates_eq hu]
  | _ => exact le_rfl

theorem Looping.other_still (h : Looping pos f s pc) {a : Act} (hs : Steps L s a t) (ha : a ≠ .ui) :
    t.intake = s.intake ∧ t.demux.unread.length ≤ s.demux.unread.length := by
  rcases h.cases_other hs ha with hA | ⟨n, u, pc', rfl, hd, rfl⟩
  · exact ⟨intake_congr hA.flags (fun d => by rw [hA.dec]) fun d => by rw [hA.dec], by rw [hA.demux]⟩
  · exact ⟨hd.intake, hd.unread_le⟩

/-- With space for the packets, nobody waits for it. -/
theorem SeekPc.Fits.goes {u : UpdatePc} (hf : (SeekPc.update T u).Fits L s) : ¬ s.Polls u := fun hp =>
  let ⟨d, hd⟩ := hp.over
  absurd (hf.1 d) (not_le.mpr hd)

/-- What a worker of the demuxer has to store is a part of what is under way. -/
theorem load_worker {n : ℕ} (hn : n < s.demuxN) (d : Dec) :
    s.queued d + (s.demuxW n).stores s.intake d ≤ s.load d :=
  Nat.add_le_add_left (Finset.single_le_sum_of_canonicallyOrdered (f := fun n => (s.demuxW n).stores s.intake d)
    (Finset.mem_range.mpr hn)) _

theorem Looping.worker (h : Looping pos f s pc) {n : ℕ} (hg : s.demuxW n ≠ .gone) : n < s.demuxN := by
  by_contra hn
  exact hg (h.orderly.observed.spawned.demux n (not_lt.mp hn))

/-- A worker of the demuxer in its loop body waits for nothing but the mutex of `Notify`. -/
theorem Looping.worker_step (h : Looping pos f s pc) {n : ℕ} (hn : 0 < (s.demuxW n).toGo s.intake)
    (hm : ∀ x, s.demuxW n = .notify x → s.demuxMux = none) :
    ∃ v pc', Demuxes n s (s.demuxW n) v pc' ∧ s.step L (.demux n) = some (v.setDemux n pc') := by
  have he : (s.demuxStep n).isSome := by
    cases hw : s.demuxW n with
    | gone | exitTest | pauseTest =>
      rw [hw] at hn
      cases hn
    | read => simp only [demuxStep, hw, Option.isSome_some]
    | notify x => simp [demuxStep, hw, hm x hw]
    | update u =>
      obtain ⟨⟨v, r⟩, hr⟩ := Option.isSome_iff_exists.mp (update_isSome h.free (.demux n) u)
      simp only [demuxStep, hw, hr]
      cases r <;> rfl
  obtain ⟨t, ht⟩ := Option.isSome_iff_exists.mp he
  obtain ⟨v, pc', hd, rfl⟩ := demuxes ht
  exact ⟨v, pc', hd, ht⟩

/-- While `Seek` waits for the mutex, the worker of the demuxer that holds it gives it back. -/
theorem Looping.release {x : XData} {n : ℕ} {u : UpdatePc} (h : Looping pos f s (.notify T x))
    (hf : (SeekPc.notify T x).Fits L s) (hn : s.demuxW n = .update u) : ∃ k t,
      (player L).exec (List.replicate k (.demux n)) s = some t ∧ Looping pos f t (.notify T x) ∧ t.demuxMux = none := by
  induction hN : (s.demuxW n).toGo s.intake using Nat.strong_induction_on generalizing s u with
  | _ N ih =>
    have hpos : 0 < (s.demuxW n).toGo s.intake := by
      rw [hn]
      exact UpdatePc.toGo_pos _ u
    obtain ⟨v, pc', hd, hs⟩ := h.worker_step (L := L) hpos fun x hx => by rw [hn] at hx; cases hx
    have ht := h.other hs nofun
    have hp : ∀ u, s.demuxW n = .update u → ¬ s.Polls u := by
      intro u hu hp
      obtain ⟨d, hd⟩ := hp.over
      have hw : s.queued d + (s.demuxW n).stores s.intake d ≤ s.load d := load_worker (h.worker (by rw [hu]; nofun)) d
      rw [hu] at hw
      have hw : s.queued d + u.stores s.intake d ≤ s.load d := hw
      have hle : s.load d + s.intake.one d x + s.intake.next s.readers s.demux d ≤ s.intake.maxList d :=
        Intake.holds_iff.mp hf.1 d
      omega
    have hlt := hd.toGo hp hpos
    have hI : (v.setDemux n pc').intake = s.intake := hd.intake
    have hw : (v.setDemux n pc').demuxW n = pc' := Function.update_self ..
    rw [hn] at hd
    cases hd with
    | @update _ _ u' hu =>
      obtain ⟨k, t, hk, hl, hm⟩ := ih _ (by rw [hw, hI, ← hN]; exact hlt) ht (h.other_fits (steps hs) nofun hf) hw rfl
      refine ⟨k + 1, t, ?_, hl, hm⟩
      show (s.step L (.demux n)).bind _ = _
      rw [hs]
      exact hk
    | done hu =>
      refine ⟨1, _, ?_, ht, rfl⟩
      show (s.step L (.demux n)).bind _ = _
      rw [hs]
      rfl

/-! ### `Seek` to its return -/

/-- Who is in `Notify` but for `Seek`: a worker of the demuxer. -/
theorem Looping.holder (h : Looping pos f s pc) (hm : s.demuxMux ≠ none) (hu : pc.updating = false) :
    ∃ n u, s.demuxW n = .update u := by
  obtain ⟨w, hw⟩ := Option.ne_none_iff_exists'.mp hm
  have hN := (h.orderly.observed.holder w).mp hw
  cases w with
  | demux n =>
    have hN : (s.demuxW n).updating = true := hN
    cases hn : s.demuxW n with
    | update u => exact ⟨n, u, hn⟩
    | _ =>
      rw [hn] at hN
      cases hN
  | ui =>
    rw [h.held.mp hw] at hu
    cases hu
  | queue | decoder => cases hN

theorem Looping.unheld (h : Looping pos f s pc) (hD : ∀ n, (s.demuxW n).outside = true) (hu : pc.updating = false) :
    s.demuxMux = none := by
  by_contra hm
  obtain ⟨n, u, hn⟩ := h.holder hm hu
  have ho := hD n
  rw [hn] at ho
  cases ho

/-- `Seek` waits for nothing but the mutex of `Notify`. -/
theorem Looping.enabled (h : Looping pos f s pc) (hm : ∀ T x, pc = .notify T x → s.demuxMux = none) :
    (s.step L .ui).isSome := by
  have hp := h.place
  have hk : (s.seekStep L pos f pc).isSome := by
    cases pc with
    | lock | clear | flush | clearFrames | reposition | target => cases hp
    | notify T x => simp [seekStep, hm T x rfl]
    | update T u =>
      obtain ⟨⟨t, r⟩, hr⟩ := Option.isSome_iff_exists.mp (update_isSome h.free .ui u)
      simp only [seekStep, hr]
      cases r <;> rfl
    | _ => rfl
  obtain ⟨⟨t, r⟩, hr⟩ := Option.isSome_iff_exists.mp hk
  simp only [step, uiStep, h.ui, cmdStep, hr]
  cases r <;> rfl

/-- After its loop, with the player's mutex given back. -/
def AtEnd (s : Player K) : Prop := s.ui = seekEnd ∧ s.mux = false ∨ ∀ c ∈ s.ui, c.prompt = true

/-- A bound on the steps of `Seek` to its return. -/
def seekToGo (s : Player K) : ℕ :=
  match s.ui with
  | .seek _ _ pc :: cs => pc.toGo s.intake s.demux.unread.length + cs.length
  | cs => cs.length

theorem seekToGo_prompt (h : ∀ c ∈ s.ui, c.prompt = true) : s.seekToGo = s.ui.length := by
  unfold seekToGo
  split
  · rename_i pos f pc cs hui
    rw [hui] at h
    cases h _ List.mem_cons_self
  · rfl

/-- The other threads do not touch what `Seek` does next nor the player's mutex. -/
theorem Steps.other {a : Act} (hs : Steps L s a t) (ha : a ≠ .ui) (hr : ∀ c, a ≠ .request c) :
    t.ui = s.ui ∧ t.mux = s.mux := by
  cases hs with
  | demux hd => exact ⟨(congrArg Player.ui hd.eq :), (congrArg Player.mux hd.eq :)⟩
  | dec hd => exact ⟨(congrArg Player.ui hd.eq :), (congrArg Player.mux hd.eq :)⟩
  | ui => exact absurd rfl ha
  | request => exact absurd rfl (hr _)
  | _ => exact ⟨rfl, rfl⟩

theorem AtEnd.other {a : Act} (h : AtEnd s) (hs : Steps L s a t) (ha : a ≠ .ui) (hr : ∀ c, a ≠ .request c) :
    AtEnd t ∧ t.seekToGo = s.seekToGo := by
  obtain ⟨hui, hm⟩ := hs.other ha hr
  rcases h with ⟨he, hf⟩ | hp
  · refine ⟨.inl ⟨hui.trans he, hm.trans hf⟩, ?_⟩
    rw [seekToGo, seekToGo, hui, he]
    rfl
  · have hp' : ∀ c ∈ t.ui, c.prompt = true := hui ▸ hp
    exact ⟨.inr hp', by rw [seekToGo_prompt hp', seekToGo_prompt hp, hui]⟩

theorem AtEnd.ui (h : AtEnd s) (hs : Steps L s .ui t) : AtEnd t ∧ t.seekToGo + 1 ≤ s.seekToGo := by
  cases hs with
  | @ui c cs u cs' hui hc =>
    rcases h with ⟨he, -⟩ | hp
    · cases he.symm.trans hui
      cases hc
      have hp : ∀ c ∈ (seekEnd.tail), c.prompt = true := by simp [seekEnd, pauseCmds, Cmd.prompt]
      refine ⟨.inr hp, ?_⟩
      rw [seekToGo, seekToGo, he]
      exact le_rfl
    · have hp' := hp
      rw [hui, List.forall_mem_cons] at hp'
      have hcs : cs' = cs := by
        cases hc with
        | openFailed | seek | sought => cases hp'.1
        | _ => rfl
      subst hcs
      refine ⟨.inr hp'.2, ?_⟩
      rw [seekToGo_prompt hp, hui, seekToGo_prompt hp'.2]
      exact le_rfl

theorem AtEnd.enabled (h : AtEnd s) (hne : s.ui ≠ []) : (s.step L .ui).isSome := by
  rcases h with ⟨he, hm⟩ | hp
  · simp [step, uiStep, he, seekEnd, pauseCmds, cmdStep, hm]
  · rcases hui : s.ui with _ | ⟨c, cs⟩
    · exact absurd hui hne
    · rw [hui, List.forall_mem_cons] at hp
      simp only [step, uiStep, hui]
      cases c with
      | pause | unlock | ret => rfl
      | _ => cases hp.1


/-- `Seek` returns, whatever the other threads do meanwhile: its steps are bounded in number, and it is never without a
next one before, but while another thread holds the mutex of `Notify` and is about to give it back. -/
def SeekReturns (L : FFmpeg K) (s : Player K) : Prop :=
  (player L).Completes (fun a => ∀ c, a ≠ .request c) Act.isUi (fun t => t.ui = []) s

/-- `Seek` is in its loop, and there is space for what it has to store; or it is on its way out. -/
def Returning (L : FFmpeg K) (pos : ℚ) (f : SeekFrame) (s : Player K) : Prop :=
  (∃ pc, Looping pos f s pc ∧ pc.Fits L s) ∨ AtEnd s

theorem Returning.ui (h : Returning L pos f s) (hs : s.step L .ui = some t) :
    Returning L pos f t ∧ t.seekToGo + 1 ≤ s.seekToGo := by
  rcases h with ⟨pc, hl, hf⟩ | h
  · rcases hl.cases_ui (steps hs) with ⟨v, pc', hk, rfl⟩ | ⟨rfl, rfl⟩
    · have hgo := hk.toGo hl.place fun T u he => by
        subst he
        exact SeekPc.Fits.goes hf
      refine ⟨.inl ⟨pc', hl.seek hk hs rfl, (fits_setUi v _ pc').mpr ((hk.fits_iff hl.place).mp hf).2⟩, ?_⟩
      rw [seekToGo, seekToGo, hl.ui]
      show pc'.toGo v.intake v.demux.unread.length + _ + 1 ≤ pc.toGo s.intake s.demux.unread.length + _
      rw [hk.intake hl.place]
      omega
    · refine ⟨.inr (.inl ⟨rfl, rfl⟩), ?_⟩
      rw [seekToGo, seekToGo, hl.ui]
      exact (Nat.add_comm ..).le
  · obtain ⟨h1, h2⟩ := h.ui (steps hs)
    exact ⟨.inr h1, h2⟩

theorem Returning.other (h : Returning L pos f s) {a : Act} (hs : s.step L a = some t) (ha : a ≠ .ui)
    (hr : ∀ c, a ≠ .request c) : Returning L pos f t ∧ t.seekToGo ≤ s.seekToGo := by
  rcases h with ⟨pc, hl, hf⟩ | h
  · have hl' := hl.other hs ha
    obtain ⟨hI, hR⟩ := hl.other_still (steps hs) ha
    refine ⟨.inl ⟨pc, hl', hl.other_fits (steps hs) ha hf⟩, ?_⟩
    rw [seekToGo, seekToGo, hl.ui, hl'.ui, hI]
    exact Nat.add_le_add_right (pc.toGo_mono _ hR) _
  · obtain ⟨h1, h2⟩ := h.other (steps hs) ha hr
    exact ⟨.inr h1, h2.le⟩

/-- `Seek` has its next step, or has it when the mutex of `Notify` is free again. -/
theorem Returning.enabled (h : Returning L pos f s) : s.ui = [] ∨ ∃ b k u, (∀ c, b ≠ Act.request c) ∧
    (player L).exec (List.replicate k b) s = some u ∧ (u.step L .ui).isSome := by
  rcases h with ⟨pc, hl, hf⟩ | h
  · refine .inr ?_
    by_cases hm : ∀ T x, pc = .notify T x → s.demuxMux = none
    · exact ⟨.ui, 0, s, fun _ => nofun, rfl, hl.enabled hm⟩
    · -- a worker of the demuxer is in `Notify`
      push Not at hm
      obtain ⟨T, x, rfl, hm⟩ := hm
      obtain ⟨n, u, hn⟩ := hl.holder hm rfl
      obtain ⟨k, t, hk, ht, hm⟩ := hl.release hf hn
      exact ⟨.demux n, k, t, fun _ => nofun, hk, ht.enabled fun _ _ _ => hm⟩
  · by_cases hne : s.ui = []
    · exact .inl hne
    · exact .inr ⟨.ui, 0, s, fun _ => nofun, rfl, h.enabled hne⟩

theorem Returning.returns (h : Returning L pos f s) : SeekReturns L s := by
  refine .of_measure (I := Returning L pos f) seekToGo (fun a s t h hr hs => ?_) (fun s h => ?_) h
  · by_cases ha : a = .ui
    · subst ha
      exact h.ui hs
    · obtain ⟨h1, h2⟩ := h.other hs ha hr
      refine ⟨h1, h2.trans_eq' ?_⟩
      cases a <;> first | rfl | exact absurd rfl ha
  · exact h.enabled.imp id fun ⟨b, k, u, hb, hk, hs⟩ => ⟨b, k, u, .ui, hb, hk, fun _ => nofun, rfl, hs⟩

/-! ### `Seek` waits for ever -/

/-- Who is in `Notify` waits for space in a queue, and `Seek` waits for it. -/
inductive Stuck (pos : ℚ) (f : SeekFrame) (s : Player K) : Prop
  | seek {T : ℤ} {u : UpdatePc} (h : Looping pos f s (.update T u)) (hp : s.Polls u)
  | worker {T : ℤ} {x : XData} {n : ℕ} {u : UpdatePc} (h : Looping pos f s (.notify T x)) (hn : s.demuxW n = .update u)
    (hp : s.Polls u)

theorem Aside.polls (h : Aside s t) {u : UpdatePc} (hp : s.Polls u) : t.Polls u :=
  hp.congr h.flags (fun d => by rw [h.dec]) fun d => by rw [h.dec]

theorem Demuxes.polls {n : ℕ} {pc pc' : DemuxPc} (h : Demuxes n s pc t pc') (hu : pc.updating = false) {u : UpdatePc}
    (hp : s.Polls u) : (t.setDemux n pc').Polls u :=
  hp.congr (congrArg Player.flags h.eq :) (fun d => congrArg FFDecode.packs (congrFun (h.dec_still hu) d))
    fun d => congrArg FFDecode.maxList (congrFun (h.dec_still hu) d)

theorem Stuck.step (h : Stuck pos f s) {a : Act} (hs : s.step L a = some t) : Stuck pos f t := by
  cases h with
  | @seek T u h hp =>
    by_cases ha : a = .ui
    · subst ha
      rcases h.cases_ui (steps hs) with ⟨v, pc', hk, ht⟩ | ⟨he, -⟩
      · have hl := h.seek hk hs ht
        cases hk with
        | update hu =>
          obtain ⟨u', he, rfl, hp'⟩ := hp.step hu
          cases he
          rw [ht] at hl ⊢
          exact .seek hl hp'
        | done hu =>
          obtain ⟨u', he, -⟩ := hp.step hu
          cases he
      · cases he
    · have hl := h.other hs ha
      rcases h.cases_other (steps hs) ha with hA | ⟨n, v, pc', rfl, hd, rfl⟩
      · exact .seek hl (hA.polls hp)
      · exact .seek hl (hd.polls (h.alone rfl n) hp)
  | @worker T x n u h hn hp =>
    have hm : s.demuxMux = some (.demux n) := (h.orderly.observed.holder (.demux n)).mpr (by
      show (s.demuxW n).updating = true
      rw [hn]
      rfl)
    by_cases ha : a = .ui
    · subst ha
      rcases h.cases_ui (steps hs) with ⟨v, pc', hk, -⟩ | ⟨he, -⟩
      · cases hk with
        | notify h => exact absurd (hm.symm.trans h) nofun
      · cases he
    · have hl := h.other hs ha
      rcases h.cases_other (steps hs) ha with hA | ⟨m, v, pc', rfl, hd, rfl⟩
      · exact .worker hl (hA.demuxW ▸ hn) (hA.polls hp)
      · by_cases hmn : m = n
        · subst hmn
          rw [hn] at hd
          cases hd with
          | update hu =>
            obtain ⟨u', he, rfl, hp'⟩ := hp.step hu
            cases he
            exact .worker hl (Function.update_self ..) hp'
          | done hu =>
            obtain ⟨u', he, -⟩ := hp.step hu
            cases he
        · have hum : (s.demuxW m).updating = false := by
            rw [Bool.eq_false_iff]
            intro hum
            have hm' := (h.orderly.observed.holder (.demux m)).mpr hum
            cases hm.symm.trans hm'
            exact hmn rfl
          have hn' : (v.setDemux m pc').demuxW n = s.demuxW n :=
            (Function.update_of_ne (Ne.symm hmn) ..).trans (congrFun (congrArg Player.demuxW hd.eq :) n)
          exact .worker hl (hn'.trans hn) (hd.polls hum hp)

theorem Stuck.not_returns (h : Stuck pos f s) : ¬ SeekReturns L s := by
  intro hr
  obtain ⟨as, t, -, he, ht⟩ := hr.exec
  have hJ := (Sys.Run.of_exec_any he).inv (I := Stuck pos f) h fun a s t hI _ hs => hI.step hs
  cases hJ with
  | seek h | worker h =>
    rw [h.ui] at ht
    cases ht

theorem SeekReturns.step (h : SeekReturns L s) {a : Act} (hs : s.step L a = some t) (hr : ∀ c, a ≠ .request c) :
    SeekReturns L t := by
  have he : (player L).exec [a] s = some t := Option.bind_eq_some_iff.mpr ⟨t, hs, rfl⟩
  refine h.after (fun b hb c => ?_) he
  rw [List.mem_singleton.mp hb]
  exact hr c

/-! ### What has to fit does -/

/-- The packets under way for `d` when `Seek` passes on `x`, once the workers of the demuxer have read theirs. -/
def passed (s : Player K) (x : XData) (d : Dec) : ℕ := s.load d + s.intake.one d x + s.intake.next s.readers s.demux d

theorem Demuxes.passed {n : ℕ} {pc' : DemuxPc} (hd : Demuxes n s (s.demuxW n) t pc') (hn : n < s.demuxN)
    (hp : s.isPause .demux = true) (x : XData) : (t.setDemux n pc').passed x = s.passed x := by
  have hI : (t.setDemux n pc').intake = s.intake := hd.intake
  funext d
  unfold Player.passed
  rcases hd.load hn hp with ⟨-, hD, hr, hl⟩ | ⟨-, hD, hr, hl⟩
  · rw [hI, hr, hl, show (t.setDemux n pc').demux = _ from hD]
  · have hl : (t.setDemux n pc').load d = s.load d + s.intake.taken (s.demux.read s.fresh).1 d := congrFun hl d
    rw [hl, hI, ← hr, s.intake.next_read _ _ s.fresh, show (t.setDemux n pc').demux = _ from hD]
    omega

/-- A bound on the steps of the workers of the demuxer in their loop bodies. -/
def workToGo (s : Player K) : ℕ := ∑ n ∈ Finset.range s.demuxN, (s.demuxW n).toGo s.intake

theorem Demuxes.workToGo {n : ℕ} {pc' : DemuxPc} (hd : Demuxes n s (s.demuxW n) t pc') (hn : n < s.demuxN)
    (hp : ∀ u, s.demuxW n = .update u → ¬ s.Polls u) (ho : 0 < (s.demuxW n).toGo s.intake) :
    (t.setDemux n pc').workToGo < s.workToGo := by
  have hI : (t.setDemux n pc').intake = s.intake := hd.intake
  have hlt := hd.toGo hp ho
  have hsum := sum_update hn s.demuxW pc' (DemuxPc.toGo s.intake)
  unfold Player.workToGo
  rw [hI, show (t.setDemux n pc').demuxN = s.demuxN from (congrArg Player.demuxN hd.eq :)]
  have hW : (t.setDemux n pc').demuxW = Function.update s.demuxW n pc' := by
    show Function.update t.demuxW n pc' = _
    rw [(congrArg Player.demuxW hd.eq :)]
  rw [hW]
  omega

/-- No worker of the demuxer is in its loop body: what is under way is in the queues. -/
theorem load_idle (h : ∀ n < s.demuxN, (s.demuxW n).toGo s.intake = 0) : s.readers = 0 ∧ s.load = s.queued := by
  have hzero : ∀ n ∈ Finset.range s.demuxN, (∀ d, (s.demuxW n).stores s.intake d = 0) ∧ (s.demuxW n).reads = 0 := by
    intro n hn
    have hn := h n (Finset.mem_range.mp hn)
    cases hw : s.demuxW n with
    | read | notify =>
      rw [hw] at hn
      cases hn
    | update u =>
      rw [hw] at hn
      exact absurd hn (UpdatePc.toGo_pos _ u).ne'
    | _ => exact ⟨fun _ => rfl, rfl⟩
  refine ⟨Finset.sum_eq_zero fun n hn => (hzero n hn).2, funext fun d => ?_⟩
  unfold load
  rw [Finset.sum_eq_zero fun n hn => (hzero n hn).1 d]
  rfl

theorem passed_idle (h : ∀ n < s.demuxN, (s.demuxW n).toGo s.intake = 0) (x : XData) (d : Dec) :
    s.passed x d = s.queued d + s.intake.one d x := by
  obtain ⟨hr, hl⟩ := load_idle h
  rw [passed, hr, hl]
  rfl

theorem Looping.next_step (h : Looping pos f s pc) (hm : ∀ T x, pc = .notify T x → s.demuxMux = none)
    (hu : pc ≠ .unlock) : ∃ v pc', Seeks L pos f s pc v (some pc') ∧
      s.step L .ui = some (v.setUi (.seek pos f pc' :: seekEnd)) := by
  obtain ⟨t, ht⟩ := Option.isSome_iff_exists.mp (h.enabled (L := L) hm)
  rcases h.cases_ui (steps ht) with ⟨v, pc', hk, rfl⟩ | ⟨rfl, -⟩
  · exact ⟨v, pc', hk, ht⟩
  · exact absurd rfl hu

/-- There will be space for all packets after any next step of a worker of the demuxer. -/
def FitsNext (L : FFmpeg K) (s : Player K) (pc : SeekPc) : Prop :=
  ∀ n v pc', Demuxes n s (s.demuxW n) v pc' → s.step L (.demux n) = some (v.setDemux n pc') →
    0 < (s.demuxW n).toGo s.intake → (∀ u, s.demuxW n = .update u → ¬ s.Polls u) → pc.Fits L (v.setDemux n pc')

theorem Looping.also_read (h : Looping pos f s (.read T)) (hN : FitsNext L s (.read T)) : (SeekPc.read T).Also L s := by
  unfold SeekPc.Also
  rcases hrd : s.readers with _ | r
  · rfl
  · obtain ⟨n, hn, hread⟩ :=
      Finset.exists_ne_zero_of_sum_ne_zero (by rw [hrd]; exact Nat.succ_ne_zero r : s.readers ≠ 0)
    have hw : s.demuxW n = .read := by
      generalize s.demuxW n = pc at hread
      cases pc <;> first | rfl | exact absurd rfl hread
    have hpos : 0 < (s.demuxW n).toGo s.intake := by
      rw [hw]
      exact Nat.succ_pos 8
    obtain ⟨v, pc', hd, hs⟩ := h.worker_step (L := L) hpos fun x hx => by rw [hw] at hx; cases hx
    have hf := hN n v pc' hd hs hpos fun u hu => by rw [hw] at hu; cases hu
    rcases hd.load (Finset.mem_range.mp hn) (h.paused .demux) with ⟨hne, -⟩ | ⟨-, hD, hr, hl⟩
    · exact absurd hw hne
    · have hD : (v.setDemux n pc').demux = (s.demux.read s.fresh).2 := hD
      have hI : (v.setDemux n pc').intake = s.intake := hd.intake
      have hV : ((v.setDemux n pc').dec .video).codec = (s.dec .video).codec :=
        (congrArg FFDecode.codec (hd.dec_fields .video) :)
      obtain rfl : (v.setDemux n pc').readers = r := by omega
      simp only [SeekPc.Fits] at hf
      rw [hD, hI, hl, FFDemux.fits_congr T s.intake _ _ _ _ hV] at hf
      exact hf

/-- The workers of the demuxer may pass their packets on before `Seek` does. -/
theorem Looping.also_notify {x : XData} (h : Looping pos f s (.notify T x)) (hm : s.demuxMux = none)
    (hN : FitsNext L s (.notify T x)) (hf : ∀ d, s.queued d + s.intake.one d x ≤ s.intake.maxList d) :
    (SeekPc.notify T x).Also L s := by
  show s.intake.holds (s.passed x) = true
  by_cases hbusy : ∃ n, 0 < (s.demuxW n).toGo s.intake
  · obtain ⟨n, hn⟩ := hbusy
    obtain ⟨v, pc', hd, hs⟩ := h.worker_step (L := L) hn fun _ _ => hm
    have hu : ∀ u, s.demuxW n = .update u → ¬ s.Polls u := fun u hu => by
      have hx := (h.orderly.observed.holder (.demux n)).mpr (congrArg DemuxPc.updating hu :)
      cases hm.symm.trans hx
    have hI : (v.setDemux n pc').intake = s.intake := hd.intake
    have hf : (v.setDemux n pc').intake.holds ((v.setDemux n pc').passed x) = true := (hN n v pc' hd hs hn hu).1
    rwa [hI, hd.passed (h.worker fun hg => by rw [hg] at hn; cases hn) (h.paused .demux)] at hf
  · simp only [not_exists, not_lt, Nat.le_zero] at hbusy
    refine Intake.holds_iff.mpr fun d => ?_
    rw [passed_idle fun n _ => hbusy n]
    exact hf d

theorem Looping.fits_holder {x : XData} {n : ℕ} {u : UpdatePc} (h : Looping pos f s (.notify T x))
    (hn : s.demuxW n = .update u) (hp : ¬ s.Polls u) (hN : FitsNext L s (.notify T x)) :
    (SeekPc.notify T x).Fits L s := by
  have hpos : 0 < (s.demuxW n).toGo s.intake := by
    rw [hn]
    exact UpdatePc.toGo_pos _ u
  obtain ⟨v, pc', hd, hs⟩ := h.worker_step (L := L) hpos fun x hx => by rw [hn] at hx; cases hx
  have hf := hN n v pc' hd hs hpos fun u' hu' => by rw [hn] at hu'; cases hu'; exact hp
  rcases hd.load (h.worker (by rw [hn]; nofun)) (h.paused .demux) with ⟨-, hD, hr, hl⟩ | ⟨he, -⟩
  · have hF : (v.setDemux n pc').flags = s.flags := (congrArg Player.flags hd.eq :)
    have hV : ((v.setDemux n pc').dec .video).codec = (s.dec .video).codec :=
      (congrArg FFDecode.codec (hd.dec_fields .video) :)
    refine (fits_of_eq hF hD hd.intake hr hl hV fun hu => ?_).mp hf
    cases hu
  · rw [hn] at he
    cases he

theorem Seeks.also_update {u : UpdatePc} (hk : Seeks L pos f s (.update T u) t (some pc')) (hR : Roomy s)
    (hf : pc'.Fits L t) : (SeekPc.update T u).Also L s := by
  intro d
  cases hk with
  | @update _ _ _ u' hu =>
    have hle : t.queued d + u'.stores t.intake d ≤ t.intake.maxList d := hf.1 d
    have hq : t.queued d + u'.stores s.intake d = s.queued d + u.stores s.intake d := hu.load d
    rwa [hu.intake, hq] at hle
  | @done _ _ v hu =>
    have hq : v.queued d + 0 = s.queued d + u.stores s.intake d := hu.load d
    have hle : v.queued d ≤ s.intake.maxList d := by
      rw [← hu.intake]
      unfold queued
      split
      · exact Nat.zero_le _
      · exact hu.roomy hR d
    exact hq ▸ hle

/-- Where `Seek` returns, there is space for all packets: by induction on what it and the workers of the demuxer have
still to do. -/
theorem Looping.fits (h : Looping pos f s pc) (hr : SeekReturns L s) : pc.Fits L s := by
  induction hN : pc.toGo s.intake s.demux.unread.length + s.workToGo using Nat.strong_induction_on
    generalizing s pc with
  | _ N ih =>
  have hnext : FitsNext L s pc := by
    intro n v pc' hd hs hn hp
    have hw := hd.workToGo (h.worker fun hg => by rw [hg] at hn; cases hn) hp hn
    have hI : (v.setDemux n pc').intake = s.intake := hd.intake
    have hgo : pc.toGo s.intake (v.setDemux n pc').demux.unread.length ≤ pc.toGo s.intake s.demux.unread.length :=
      pc.toGo_mono _ hd.unread_le
    exact ih _ (by rw [hI]; omega) (h.other hs nofun) (hr.step hs fun _ => nofun) rfl
  have hseek : ∀ {v pc'}, Seeks L pos f s pc v (some pc') → s.step L .ui = some (v.setUi (.seek pos f pc' :: seekEnd)) →
      (∀ T u, pc = .update T u → ¬ s.Polls u) → pc'.Fits L v := by
    intro v pc' hk hs hp
    have hgo := hk.toGo h.place hp
    have hw : (v.setUi (.seek pos f pc' :: seekEnd)).workToGo = s.workToGo := by
      unfold Player.workToGo
      show ∑ n ∈ Finset.range v.demuxN, (v.demuxW n).toGo v.intake = _
      rw [hk.intake h.place, (congrArg Player.demuxN hk.eq :), (congrArg Player.demuxW hk.eq :)]
    refine (fits_setUi v _ pc').mp (ih _ ?_ (h.seek hk hs rfl) (hr.step hs fun _ => nofun) rfl)
    rw [hw]
    show pc'.toGo v.intake v.demux.unread.length + _ < N
    rw [hk.intake h.place]
    omega
  cases pc with
  | lock | clear | flush | clearFrames | reposition | target => cases h.place
  | unlock => trivial
  | exitTest | skip | send | drop | recv =>
    obtain ⟨v, pc', hk, hs⟩ := h.next_step (L := L) (fun _ _ he => by cases he) fun he => by cases he
    exact (hk.fits_iff h.place).mpr ⟨trivial, hseek hk hs fun _ _ he => by cases he⟩
  | read T =>
    obtain ⟨v, pc', hk, hs⟩ := h.next_step (L := L) (fun _ _ he => by cases he) fun he => by cases he
    exact (hk.fits_iff h.place).mpr ⟨h.also_read hnext, hseek hk hs fun _ _ he => by cases he⟩
  | notify T x =>
    by_cases hm : s.demuxMux = none
    · obtain ⟨v, pc', hk, hs⟩ := h.next_step (L := L) (fun _ _ _ => hm) fun he => by cases he
      have hf := hseek hk hs fun _ _ he => by cases he
      refine (hk.fits_iff h.place).mpr ⟨h.also_notify hm hnext ?_, hf⟩
      cases hk
      exact hf.1
    · obtain ⟨n, u, hn⟩ := h.holder hm rfl
      by_cases hp : s.Polls u
      · exact absurd hr (Stuck.worker h hn hp).not_returns
      · exact h.fits_holder hn hp hnext
  | update T u =>
    by_cases hp : s.Polls u
    · exact absurd hr (Stuck.seek h hp).not_returns
    · obtain ⟨v, pc', hk, hs⟩ := h.next_step (L := L) (fun _ _ he => by cases he) fun he => by cases he
      have hf := hseek hk hs fun _ _ he => by cases he; exact hp
      exact (hk.fits_iff h.place).mpr ⟨hk.also_update h.orderly.room hf, hf⟩

/-! ### From the beginning of the loop -/

/-- The target of a `Seek` that is at the test of its loop. -/
def seekTarget : List Cmd → Option ℤ
  | .seek _ _ (.exitTest T) :: _ => some T
  | _ => none

/-- `Seek` begins its loop, with the workers of the decoders where it has paused them: outside of their loop bodies. -/
structure LoopBegun (T : ℤ) (s : Player K) : Prop where
  target : seekTarget s.ui = some T
  dec : ∀ d, ∀ n < s.decN d, (s.decW d n).outside = true

theorem LoopBegun.looping (hb : LoopBegun T s) (h : Orderly s) : ∃ pos f, Looping pos f s (.exitTest T) := by
  have ht := hb.target
  have ha := h.after
  unfold seekTarget at ht
  split at ht
  · rename_i pos f T' cs hui
    rw [hui] at ha
    rcases ha with ha | ha
    · cases ha
    · cases ha
      cases ht
      exact ⟨pos, f, h, hui, h.holds.outside hb.dec, trivial⟩
  · cases ht

theorem LoopBegun.returns_iff (hb : LoopBegun T s) (h : Orderly s) :
    SeekReturns L s ↔ s.onward L T (s.dec .video) s.load := by
  obtain ⟨pos, f, hl⟩ := hb.looping h
  refine ⟨fun hr => hl.fits hr, fun hf => ?_⟩
  have hR : Returning L pos f s := .inl ⟨_, hl, hf⟩
  exact hR.returns

end Player

open Player

/-- `Seek` returns from its loop exactly when there is space for the packets that it passes on and for those that the
workers of the demuxer have or take meanwhile, however they do. -/
theorem seek_returns (L : FFmpeg K) {s : Player K} (h : (player L).Reach Sys.any s) {T : ℤ} (hb : LoopBegun T s) :
    s.SeekReturns L ↔ s.onward L T (s.dec .video) s.load :=
  hb.returns_iff (reach_orderly h)

/-- `Open` of a file, `Start`, and `Seek(0)` up to its loop, with the packets `ps` to read. -/
def seekTo (ps : List AVPacket) : List Act :=
  openStart [] .opened ++ .request (.seek 0 fun _ _ => (0, ps)) :: List.replicate 15 .ui

/-- What the examples check. -/
def loopBegun (T : ℤ) (s : Player K) : Bool :=
  decide (seekTarget s.ui = some T) && decide (∀ n < s.decN .video, (s.decW .video n).outside = true) &&
    decide (∀ n < s.decN .audio, (s.decW .audio n).outside = true)

theorem loopBegun_iff {T : ℤ} {s : Player K} : loopBegun T s = true ↔ LoopBegun T s := by
  simp only [loopBegun, Bool.and_eq_true, decide_eq_true_eq]
  refine ⟨fun ⟨⟨h1, h2⟩, h3⟩ => ⟨h1, fun d => ?_⟩, fun h => ⟨⟨h.target, h.dec _⟩, h.dec _⟩⟩
  cases d
  · exact h2
  · exact h3

/-- `onward`, for the examples to check. -/
def hasSpace (L : FFmpeg K) (T : ℤ) (s : Player K) : Bool :=
  s.demux.fits L T s.intake s.demux.unread.length (s.dec .video) s.readers s.load

set_option maxRecDepth 4000 in
/-- A worker of the demuxer was about to read when `Seek` began; it will take one of the two audio packets. -/
theorem seek_returns_two : ∃ s : Player (List AVFrame), LoopBegun 0 s ∧ s.readers = 1 ∧ s.SeekReturns bytewise := by
  have hr : ((player bytewise).exec (openStart [] .opened ++ List.replicate 2 (.demux 0) ++
      .request (.seek 0 fun _ _ => (0, [⟨1, 0, 0, [0]⟩, ⟨1, 40, 40, [0]⟩])) :: List.replicate 15 .ui)
        { demux := { total := 0 } }).map (fun s => (loopBegun 0 s, s.readers, hasSpace bytewise 0 s)) =
          some (true, 1, true) := by
    decide +kernel
  obtain ⟨s, hs, he⟩ := Option.map_eq_some_iff.mp hr
  simp only [Prod.mk.injEq, loopBegun_iff] at he
  obtain ⟨hb, hn, hf⟩ := he
  exact ⟨s, hb, hn, (seek_returns bytewise ⟨_, ⟨0, rfl⟩, .of_exec_any hs⟩ hb).mpr (.inr hf)⟩

set_option maxRecDepth 4000 in
/-- After the reposition the file has 101 audio packets and no video packet. -/
theorem seek_never_returns : ¬ ∀ (s : Player (List AVFrame)) (T : ℤ), (player bytewise).Reach Sys.any s →
    LoopBegun T s → s.SeekReturns bytewise := by
  intro h
  have hr : ((player bytewise).exec (seekTo (List.replicate 101 ⟨1, 0, 0, [0]⟩)) { demux := { total := 0 } }).map
      (fun s => (loopBegun 0 s, s.isExit .player, hasSpace bytewise 0 s)) = some (true, false, false) := by
    decide +kernel
  obtain ⟨s, hs, he⟩ := Option.map_eq_some_iff.mp hr
  simp only [Prod.mk.injEq, loopBegun_iff] at he
  obtain ⟨hb, hx, hf⟩ := he
  have hreach : (player bytewise).Reach Sys.any s := ⟨_, ⟨0, rfl⟩, .of_exec_any hs⟩
  rcases (hb.returns_iff (reach_orderly hreach)).mp (h s 0 hreach hb) with hx' | hf'
  · cases hx.symm.trans hx'
  · cases hf.symm.trans hf'

end XPlayer
