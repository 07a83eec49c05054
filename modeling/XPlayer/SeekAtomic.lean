import XPlayer.Starvation
import XPlayer.SeekReturns

/-!
# `Seek` while the workers are idle

The steps of the controller alone, from a call of `Seek` to its return. `Seek` clears the queues and flushes the
codecs before `demux->Seek` looks at the request, passes the `int` of `av_seek_frame` through a `bool`, and goes on to
read and decode in any case: `seek_atomic` says when it returns and none of this shows.
-/

namespace XPlayer
variable {K : Type} {L : FFmpeg K}

/-- The number of audio packets that the loop passes to `Notify` with at most `n` packets to read, `V` being
`vDecode`. -/
def FFDemux.pushes (L : FFmpeg K) (T : ℤ) : ℕ → FFDemux → FFDecode K → ℕ
  | 0, _, _ => 0
  | n + 1, D, V =>
    let x := (D.read 0).1
    let D' := (D.read 0).2
    if x.size ≤ 0 then 0
    else if x.isAudio then (if x.pts < T then 0 else 1) + pushes L T n D' V
    else
      let r := (V.sendPacket L x).2.recvFrame L
      if r.1.wanted T then 0 else pushes L T n D' r.2

/-- Without a worker of the demuxer there is space if all packets that the loop passes on fit, `k` being whether
`aDecode` takes them. -/
theorem FFDemux.fits_zero {T : ℤ} {I : Intake} {k : ℕ} (hv : I.isAudio .video = false)
    (hk : ∀ x : XData, x.isAudio = true → I.one .audio x = k) (n : ℕ) (D : FFDemux) (V : FFDecode K) (q : Dec → ℕ)
    (hq : I.holds q = true) : fits L T I n D V 0 q = true ↔ q .audio + k * pushes L T n D V ≤ I.maxList .audio := by
  induction n generalizing D V q with
  | zero => exact iff_of_true rfl (Intake.holds_iff.mp hq .audio)
  | succ n ih =>
    have hle := Intake.holds_iff.mp hq .audio
    simp only [fits, pushes, oneFewer, Bool.true_and]
    split_ifs with hx hau hlt hw
    · exact iff_of_true rfl hle
    · rw [Nat.zero_add]
      exact ih _ _ _ hq
    · rw [Bool.and_eq_true]
      let q' : Dec → ℕ := fun d => q d + I.one d (D.read 0).1
      have hq' : q' .audio = q .audio + k := congrArg (q .audio + ·) (hk _ hau)
      show I.holds q' = true ∧ fits L T I n (D.read 0).2 V 0 q' = true ↔ _
      rw [Nat.mul_add, Nat.mul_one, ← Nat.add_assoc, ← hq']
      by_cases h : I.holds q' = true
      · exact (and_iff_right h).trans (ih _ _ _ h)
      · refine iff_of_false (fun h' => h h'.1) fun hle' => h (Intake.holds_iff.mpr fun d => ?_)
        cases d with
        | video =>
          have hone : I.one .video (D.read 0).1 = 0 := if_neg fun hc => by
            rw [hau, hv] at hc
            exact Bool.false_ne_true hc.2.symm
          show q .video + I.one .video (D.read 0).1 ≤ _
          rw [hone]
          exact Intake.holds_iff.mp hq .video
        | audio => exact (Nat.le_add_right _ _).trans hle'
    · exact iff_of_true (by rw [hw]; rfl) hle
    · rw [eq_false_of_ne_true hw, Bool.false_or]
      exact ih _ _ _ hq

namespace Player
variable {s t u v : Player K} {pos : ℚ} {f : SeekFrame}

/-- The workers are outside of their loop bodies. -/
structure Resting (s : Player K) : Prop where
  demux : ∀ n < s.demuxN, (s.demuxW n).outside = true
  dec : ∀ d, ∀ n < s.decN d, (s.decW d n).outside = true

/-- The state that a rejected request must not change. -/
structure Unchanged (s t : Player K) : Prop where
  packs : ∀ d, (t.dec d).packs = (s.dec d).packs
  frames : t.audio.frames = s.audio.frames
  codec : ∀ d, (t.dec d).codec = (s.dec d).codec
  pts : ∀ d, (t.dec d).pts = (s.dec d).pts
  synPts : ∀ d, (t.dec d).synPts = (s.dec d).synPts
  unread : t.demux.unread = s.demux.unread
  isPause : ∀ o, t.isPause o = s.isPause o

/-- `demux->Seek` repositions the container. -/
def Repositions (s : Player K) (pos : ℚ) (f : SeekFrame) : Prop := ∃ ret ∈ s.demux.seekRet pos f, 0 ≤ ret

/-- From `s` to `t`, `Seek` told the truth, and a request that was not carried out changed nothing. -/
structure SeekAtomic (pos : ℚ) (f : SeekFrame) (s t : Player K) : Prop where
  result : t.ret = true ↔ s.Repositions pos f
  unchanged : ¬ s.Repositions pos f → Unchanged s t

/-- A call of `Seek` from `s` returns, told the truth, and changed nothing if it was not carried out. -/
def SeekDone (L : FFmpeg K) (pos : ℚ) (f : SeekFrame) (s : Player K) : Prop :=
  ∃ u t, (player L).step (.request (.seek pos f)) s = some u ∧ UiRun L u t ∧ t.ui = [] ∧ SeekAtomic pos f s t

/-- Nothing for `Seek` to undo: the queues are empty, the positions zero, the codecs freshly flushed,
nothing is paused, and the loop of `Seek` will read nothing. -/
structure Blank (L : FFmpeg K) (s : Player K) : Prop where
  packs : ∀ d, (s.dec d).packs = []
  frames : s.audio.frames = []
  codec : ∀ d, L.machine.flush (s.dec d).codec = (s.dec d).codec
  pts : ∀ d, (s.dec d).pts = 0
  synPts : ∀ d, (s.dec d).synPts = 0
  unread : s.isExit .player = true ∨ s.demux.unread = []
  isPause : ∀ o, s.isPause o = false

/-- `aDecode` takes packets from `Notify`. -/
def accepting (s : Player K) : Bool := !s.isExit (.dec .audio) && (s.dec .audio).isAudio

/-- The audio packets that a call of `Seek` from `s` will store in the queue of `aDecode`. -/
def seekStores (L : FFmpeg K) (pos : ℚ) (f : SeekFrame) (s : Player K) : ℕ :=
  let D := (s.demux.seek pos f).2
  if s.accepting ∧ s.isExit .player = false then
    D.pushes L (trunc (pos * D.total)) D.unread.length ((s.dec .video).clear.flush L)
  else 0

/-! ### The runs of the controller -/

/-- The controller has one step at most in each state. -/
theorem UiRun.rest (h : UiRun L s u) (ht : UiRun L s t) (hui : t.ui = []) : UiRun L u t := by
  induction h with
  | refl => exact ht
  | @snoc v w a _ ha hs ih =>
    obtain rfl : a = .ui := ha
    rcases ih.head_cases with rfl | ⟨b, w', rfl, hs', h⟩
    · have hs : t.uiStep L = some w := hs
      simp only [uiStep, hui] at hs
      cases hs
    · cases hs.symm.trans hs'
      exact h

theorem uiRun_pauses {b : Bool} {cs : List Cmd} (hui : s.ui = pauseCmds b ++ cs) (hm : s.mux = false) :
    UiRun L s { s with flags := fun o => { s.flags o with isPause := b }, mux := false, ui := cs } := by
  have hF : (fun o => { s.flags o with isPause := b }) =
      writePause (writePause (writePause (writePause (writePause s.flags .player b) .demux b)
        (.dec .video) b) (.dec .audio) b) .audioPlay b := by
    funext o
    cases o with
    | dec d => cases d <;> simp [writePause]
    | _ => simp [writePause]
  rw [hF]
  refine uiRun_of_exec (n := 7) ?_
  simp only [List.replicate, Sys.exec, player, step, uiStep, hui, pauseCmds, List.cons_append, List.nil_append,
    cmdStep, hm, Bool.false_eq_true, ↓reduceIte, Option.bind_some]
  rfl

/-- `Seek` at the test of its loop, in a call from `s`. -/
def atLoop (L : FFmpeg K) (pos : ℚ) (f : SeekFrame) (s : Player K) (log : List Event) : Player K :=
  { s with
    mux := true
    dec := fun d => (s.dec d).clear.flush L
    audio := s.audio.clear
    demux := (s.demux.seek pos f).2
    ret := (s.demux.seek pos f).1
    log := log
    ui := .seek pos f (.exitTest (trunc (pos * (s.demux.seek pos f).2.total))) :: seekEnd }

theorem uiRun_seek {pc pc' : SeekPc} {cs : List Cmd} (hui : s.ui = .seek pos f pc :: cs)
    (hk : s.seekStep L pos f pc = some (t, some pc')) : UiRun L s (t.setUi (.seek pos f pc' :: cs)) := by
  refine .single rfl ?_
  show s.uiStep L = _
  simp only [uiStep, hui, cmdStep, hk]
  rfl

/-- `Clear` of a decoder. -/
theorem uiRun_clear {d : Dec} {cs : List Cmd} (hui : s.ui = .seek pos f (.clear d) :: cs) (hP : s.packsMutex d = none)
    (ho : (s.dec d).unopened = false) : ∃ log, UiRun L s
      { s with dec := Function.update s.dec d ((s.dec d).clear.flush L), log := log,
               ui := .seek pos f (if d = .video then .clear .audio else .clearFrames) :: cs } := by
  have h1 : s.seekStep L pos f (.clear d) = some ((s.emptied d).emit (.flushed d), some (.flush d)) := by
    simp [seekStep, clearDec, hP, emptied]
  let u : Player K := ((s.emptied d).emit (.flushed d)).setUi (.seek pos f (.flush d) :: cs)
  have hu : u.dec = Function.update s.dec d (s.dec d).clear := rfl
  have h2 : u.seekStep L pos f (.flush d) = some ({ u with dec := Function.update s.dec d ((s.dec d).clear.flush L) },
      some (if d = .video then .clear .audio else .clearFrames)) := by
    have ho : (s.dec d).clear.unopened = false := ho
    simp [seekStep, hu, ho, setDec]
  exact ⟨_, (uiRun_seek hui h1).trans (uiRun_seek rfl h2)⟩

/-- `demux->Seek`. -/
theorem uiRun_reposition {cs : List Cmd} (hui : s.ui = .seek pos f .reposition :: cs) : ∃ log, UiRun L s
    { s.moved pos f with log := log, ui := .seek pos f .target :: cs } := by
  by_cases hs : s.seekable pos = true
  · refine ⟨.reposition :: s.log, uiRun_seek (t := (s.moved pos f).emit .reposition) hui ?_⟩
    simp [seekStep, hs, moved]
  · refine ⟨s.log, uiRun_seek (t := s.moved pos f) hui ?_⟩
    simp [seekStep, hs, moved]

theorem uiRun_atLoop (hui : s.ui = .seek pos f .lock :: seekEnd) (hm : s.mux = false) (hP : ∀ d, s.packsMutex d = none)
    (ho : ∀ d, (s.dec d).unopened = false) : ∃ log, UiRun L s (s.atLoop L pos f log) := by
  let s₁ : Player K := { s with mux := true, ui := .seek pos f (.clear .video) :: seekEnd }
  have h₁ : UiRun L s s₁ := uiRun_seek (t := { s with mux := true }) hui (by simp [seekStep, hm])
  obtain ⟨l, h₂⟩ := uiRun_clear (L := L) (s := s₁) rfl (hP _) (ho _)
  let s₂ : Player K := { s₁ with
    dec := Function.update s.dec .video ((s.dec .video).clear.flush L)
    log := l
    ui := .seek pos f (.clear .audio) :: seekEnd }
  have ha : s₂.dec .audio = s.dec .audio := by simp [s₂]
  obtain ⟨l', h₃⟩ := uiRun_clear (L := L) (s := s₂) (d := .audio) rfl (hP _) (ha ▸ ho _)
  let s₃ : Player K := { s₂ with
    dec := Function.update s₂.dec .audio ((s.dec .audio).clear.flush L)
    log := l'
    ui := .seek pos f .clearFrames :: seekEnd }
  have h₃ : UiRun L s₂ s₃ := by
    rw [ha] at h₃
    exact h₃
  have hdec : (fun d => (s.dec d).clear.flush L) = s₃.dec := by
    funext d
    cases d <;> simp [s₃, s₂]
  have h₄ : UiRun L s₃ (s₃.clearFrames.setUi (.seek pos f .reposition :: seekEnd)) := uiRun_seek rfl rfl
  obtain ⟨log, h₅⟩ := uiRun_reposition (L := L) (s := s₃.clearFrames.setUi (.seek pos f .reposition :: seekEnd)) rfl
  refine ⟨log, h₁.trans (h₂.trans (h₃.trans (h₄.trans (h₅.trans ?_))))⟩
  unfold atLoop
  rw [hdec]
  let s₅ : Player K := { (s₃.clearFrames.setUi (.seek pos f .reposition :: seekEnd)).moved pos f with
    log := log, ui := .seek pos f .target :: seekEnd }
  exact uiRun_seek (s := s₅) rfl rfl

/-! ### The loop -/

/-- The rest of the call starts no worker. -/
theorem Returning.demuxW (h : Returning L pos f s) (hs : Steps L s .ui t) : t.demuxW = s.demuxW := by
  rcases h with ⟨pc, hl, -⟩ | h
  · rcases hl.cases_ui hs with ⟨v, pc', hk, rfl⟩ | ⟨-, rfl⟩
    · exact (congrArg Player.demuxW hk.eq :)
    · rfl
  · cases hs with
    | @ui c cs u cs' hui hc =>
      have hno : ∀ o, c ≠ .spawn o := by
        rintro o rfl
        rcases h with ⟨he, -⟩ | hp
        · cases he.symm.trans hui
        · rw [hui] at hp
          cases hp _ List.mem_cons_self
      cases hc with
      | spawn => exact absurd rfl (hno _)
      | seek hk => exact (congrArg Player.demuxW hk.eq :)
      | sought hk => exact (congrArg Player.demuxW hk.eq :)
      | _ => rfl

/-- With space for all that it passes on, `Seek` returns by its own steps. -/
theorem Returning.uiRun (h : Returning L pos f s) (hD : ∀ n, (s.demuxW n).outside = true) :
    ∃ t, UiRun L s t ∧ t.ui = [] := by
  have hc : (player L).Completes (· = .ui) Act.isUi (fun t => t.ui = []) s := by
    refine .of_measure (I := fun s => Returning L pos f s ∧ ∀ n, (s.demuxW n).outside = true) seekToGo
      (fun a s t h ha hs => ?_) (fun s h => ?_) ⟨h, hD⟩
    · subst ha
      obtain ⟨h1, h2⟩ := h.1.ui hs
      exact ⟨⟨h1, h.1.demuxW (steps hs) ▸ h.2⟩, h2⟩
    · by_cases hui : s.ui = []
      · exact .inl hui
      · refine .inr ⟨.ui, 0, s, .ui, rfl, rfl, rfl, rfl, ?_⟩
        rcases h with ⟨⟨pc, hl, -⟩ | he, hD⟩
        · exact hl.enabled fun T x hpc => hl.unheld hD (by rw [hpc]; rfl)
        · exact he.enabled hui
  obtain ⟨as, t, ha, he, ht⟩ := hc.exec
  exact ⟨t, .of_exec (fun a h _ => ha a h) he, ht⟩

theorem Resting.idle (hi : Resting s) : ∀ n < s.demuxN, (s.demuxW n).toGo s.intake = 0 := by
  intro n hn
  have ho := hi.demux n hn
  generalize s.demuxW n = pc at ho
  cases pc with
  | read | notify | update => cases ho
  | _ => rfl

/-- With the workers of the demuxer paused, `Seek` alone decides whether there is space. -/
theorem Looping.fits_back {pc pc' : SeekPc} (h : Looping pos f s pc) (hi : Resting s)
    (hk : Seeks L pos f s pc t (some pc')) (hf : pc'.Fits L t) : pc.Fits L s := by
  refine (hk.fits_iff h.place).mpr ⟨?_, hf⟩
  cases pc with
  | read T =>
    unfold SeekPc.Also
    rw [(load_idle hi.idle).1]
    rfl
  | notify T x =>
    refine Intake.holds_iff.mpr fun d => ?_
    show s.passed x d ≤ _
    rw [passed_idle hi.idle]
    cases hk
    exact hf.1 d
  | update => exact hk.also_update h.orderly.room hf
  | _ => trivial

theorem Looping.fits_uiRun {pc : SeekPc} (h : Looping pos f s pc) (hi : Resting s) (hr : UiRun L s t)
    (ht : t.ui = []) : pc.Fits L s := by
  by_contra hf
  have hI := hr.inv (I := fun s => ∃ pc, Looping pos f s pc ∧ Resting s ∧ ¬ pc.Fits L s) ⟨pc, h, hi, hf⟩ ?_
  · obtain ⟨pc', hl, -⟩ := hI
    rw [hl.ui] at ht
    cases ht
  · rintro a s t ⟨pc, hl, hi, hf⟩ rfl hs
    rcases hl.cases_ui (steps hs) with ⟨v, pc', hk, rfl⟩ | ⟨rfl, -⟩
    · refine ⟨pc', hl.seek hk hs rfl, ?_, fun hf' => hf (hl.fits_back hi hk ((fits_setUi v _ pc').mp hf'))⟩
      rw [hk.eq]
      exact ⟨hi.demux, hi.dec⟩
    · exact absurd trivial hf

/-- From the beginning of its loop, `Seek` returns by its own steps exactly if there is space for all that it passes
on. -/
theorem LoopBegun.uiRun_iff {T : ℤ} (hb : LoopBegun T s) (h : Orderly s) (hi : Resting s) :
    (∃ t, UiRun L s t ∧ t.ui = []) ↔ s.onward L T (s.dec .video) s.load := by
  obtain ⟨pos, f, hl⟩ := hb.looping h
  refine ⟨fun ⟨t, hr, ht⟩ => hl.fits_uiRun hi hr ht, fun hf => ?_⟩
  have hR : Returning L pos f s := .inl ⟨_, hl, hf⟩
  refine hR.uiRun fun n => ?_
  by_cases hn : n < s.demuxN
  · exact hi.demux n hn
  · rw [h.observed.spawned.demux n (not_lt.mp hn)]
    rfl

theorem onward_atLoop (hi : Resting s) (hv : (s.dec .video).isAudio = false) (log : List Event) :
    (s.atLoop L pos f log).onward L (trunc (pos * (s.demux.seek pos f).2.total)) ((s.atLoop L pos f log).dec .video)
      (s.atLoop L pos f log).load ↔ s.seekStores L pos f ≤ (s.dec .audio).maxList := by
  let t := s.atLoop L pos f log
  have hi' : Resting t := ⟨hi.demux, hi.dec⟩
  obtain ⟨hr, hl⟩ := load_idle hi'.idle
  have hq : t.queued = fun _ => 0 := by
    funext d
    unfold queued
    exact ite_self _
  have hk : ∀ x : XData, x.isAudio = true → t.intake.one .audio x = if s.accepting then 1 else 0 := by
    intro x hx
    unfold Intake.one accepting
    rw [hx]
    show (if s.isExit (.dec .audio) = false ∧ true = (s.dec .audio).isAudio then 1 else 0) = _
    cases s.isExit (.dec .audio) <;> cases (s.dec .audio).isAudio <;> rfl
  have hz := FFDemux.fits_zero (L := L) (T := trunc (pos * (s.demux.seek pos f).2.total)) (I := t.intake) hv hk
    t.demux.unread.length t.demux (t.dec .video) (fun _ => 0) rfl
  unfold onward
  rw [hr, hl, hq, hz]
  unfold seekStores
  show s.isExit .player = true ∨ _ ≤ (s.dec .audio).maxList ↔ _
  split_ifs with ha hc hc
  · rw [hc.2, Nat.one_mul, Nat.zero_add]
    exact or_iff_right Bool.false_ne_true
  · exact iff_of_true (.inl (by simpa [ha] using hc)) (Nat.zero_le _)
  · exact absurd hc.1 ha
  · exact iff_of_true (.inr (by rw [Nat.zero_mul]; exact Nat.zero_le _)) (Nat.zero_le _)

/-! ### What a call of `Seek` does -/

/-- After `SetPause(true)` at the beginning of a call of `Seek`. -/
def seekCalled (pos : ℚ) (f : SeekFrame) (s : Player K) : Player K :=
  { s.emit (.called .seek) with
    flags := fun o => { s.flags o with isPause := true }
    mux := false
    ui := .seek pos f .lock :: seekEnd }

/-- A call of `Seek` that returns leaves no trace exactly when `av_seek_frame` returned a positive value, or was not
called in a state that `Seek` leaves as it is. -/
theorem seekAtomic_iff {log : List Event} (h : UiRun L ((s.seekCalled pos f).atLoop L pos f log) t) (ht : t.ui = []) :
    SeekAtomic pos f s t ↔
      (∀ ret ∈ s.demux.seekRet pos f, 0 < ret) ∧ (s.demux.seekRet pos f = none → Blank L s) := by
  have hret : t.ret = (s.demux.seek pos f).1 := (h.late (List.forall_mem_cons.mpr ⟨rfl, seekEnd_late⟩)).1
  rw [FFDemux.seek_ret] at hret
  rcases hs : s.demux.seekRet pos f with _ | ret
  · -- the request is rejected
    have hnot : ¬ s.Repositions pos f := by
      rintro ⟨ret, hret, -⟩
      rw [hs] at hret
      cases hret
    have hdem : (s.demux.seek pos f).2.unread = s.demux.unread := by rw [FFDemux.seek_rejected hs]
    have hun : ∀ o, t.isPause o = false := h.unpaused ht rfl
    rw [hs] at hret
    have hres : t.ret = true ↔ s.Repositions pos f := by
      rw [hret]
      exact ⟨fun he => absurd he Bool.false_ne_true, fun hp => absurd hp hnot⟩
    have hloop : ((s.isExit .player = true ∨ s.demux.unread = []) ∧ (∀ d, t.dec d = (s.dec d).clear.flush L) ∧
        t.audio = s.audio.clear ∧ t.demux.unread = s.demux.unread) ∨
          s.isExit .player = false ∧ t.demux.unread.length < s.demux.unread.length := by
      rw [← hdem]
      refine (h.loop ht rfl).imp (fun ⟨hx, hd, ha, hu⟩ => ⟨hx, congrFun hd, ha, hu⟩) id
    refine ⟨fun hA => ⟨fun r hr => (by cases hr), fun _ => ?_⟩, fun hB => ⟨hres, fun _ => ?_⟩⟩
    · have hC := hA.unchanged hnot
      rcases hloop with ⟨hcause, hd, ha, -⟩ | ⟨-, hlt⟩
      · refine ⟨fun d => ?_, ?_, fun d => ?_, fun d => ?_, fun d => ?_, hcause, fun o => ?_⟩
        · rw [← hC.packs d, hd]
          rfl
        · rw [← hC.frames, ha]
          rfl
        · exact (congrArg FFDecode.codec (hd d)).symm.trans (hC.codec d)
        · rw [← hC.pts d, hd]
          rfl
        · rw [← hC.synPts d, hd]
          rfl
        · rw [← hC.isPause o, hun]
      · rw [hC.unread] at hlt
        exact absurd hlt (lt_irrefl _)
    · have hB := hB.2 rfl
      rcases hloop with ⟨-, hd, ha, hu⟩ | ⟨hne, hlt⟩
      · refine ⟨fun d => ?_, ?_, fun d => ?_, fun d => ?_, fun d => ?_, hu, fun o => ?_⟩
        · rw [hB.packs, hd]
          rfl
        · rw [hB.frames, ha]
          rfl
        · rw [hd]
          exact hB.codec d
        · rw [hB.pts, hd]
          rfl
        · rw [hB.synPts, hd]
          rfl
        · rw [hB.isPause, hun]
      · -- the loop reads nothing
        rcases hB.unread with hB | hB
        · rw [hB] at hne
          cases hne
        · rw [hB] at hlt
          cases hlt
  · rw [hs] at hret
    have hp : s.Repositions pos f ↔ 0 ≤ ret := by
      unfold Repositions
      rw [hs]
      simp
    have hret : t.ret = true ↔ ret ≠ 0 := by
      rw [hret]
      simp
    refine ⟨fun hA => ⟨fun r hr => ?_, fun hn => (by cases hn)⟩, fun hpos => ?_⟩
    · cases hr
      have hA := hret.symm.trans (hA.result.trans hp)
      omega
    · have hpos : 0 < ret := hpos.1 ret rfl
      exact ⟨hret.trans ((by omega : ret ≠ 0 ↔ 0 ≤ ret).trans hp.symm), fun hn => absurd (hp.mpr hpos.le) hn⟩

theorem LoopBegun.of_atLoop (hi : Resting s) (pos : ℚ) (f : SeekFrame) (log : List Event) :
    LoopBegun (trunc (pos * (s.demux.seek pos f).2.total)) ((s.seekCalled pos f).atLoop L pos f log) :=
  ⟨rfl, hi.dec⟩

end Player

open Player

end XPlayer
