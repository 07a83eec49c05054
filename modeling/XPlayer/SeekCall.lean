import XPlayer.PauseFlags

/-!
# A call of `Seek` on its own

The steps of the controller alone, from a call of `Seek` to its return: what it has passed on the way, and what the
return says of the state.
-/

namespace XPlayer
variable {K : Type} {L : FFmpeg K}

/-- What `av_seek_frame` returns in `demux->Seek`; nothing if it is not called. -/
def FFDemux.seekRet (d : FFDemux) (pos : ℚ) (f : SeekFrame) : Option ℤ :=
  if pos < 0 ∨ 1 < pos then none
  else d.ic.map fun ic =>
    let duration : ℤ := ((ic.file.streams[d.videoStream]?).map (·.duration)).getD 0
    (f d.videoStream (toInt64 (duration * pos))).1

theorem FFDemux.seek_ret (d : FFDemux) (pos : ℚ) (f : SeekFrame) :
    (d.seek pos f).1 = ((d.seekRet pos f).map fun ret => decide (ret ≠ 0)).getD false := by
  unfold seek seekRet
  split
  · rfl
  · split
    · rename_i h
      rw [h]
      rfl
    · rename_i ic h
      rw [h]
      rfl

theorem FFDemux.seek_rejected {d : FFDemux} {pos : ℚ} {f : SeekFrame} (h : d.seekRet pos f = none) :
    (d.seek pos f).2 = d := by
  unfold seekRet at h
  unfold seek
  split at h
  · rw [if_pos ‹_›]
  · rw [Option.map_eq_none_iff] at h
    rw [if_neg ‹_›, h]

namespace Player
variable {s t u : Player K}

def setUi (s : Player K) (cs : List Cmd) : Player K := { s with ui := cs }

/-- `t` is reached by steps of the controller. -/
def UiRun (L : FFmpeg K) (s t : Player K) : Prop := (player L).Run (fun a _ => a = .ui) s t

theorem uiRun_of_exec {n : ℕ} (h : (player L).exec (List.replicate n .ui) u = some t) :
    UiRun L u t :=
  .of_exec (fun _ ha _ => List.eq_of_mem_replicate ha) h

/-- As long as the controller has something to do, it takes the next step. -/
theorem UiRun.next {c : Cmd} {cs : List Cmd} (h : UiRun L s t) (ht : t.ui = []) (hui : s.ui = c :: cs) :
    ∃ u cs', Commands L cs s c u cs' ∧ UiRun L (u.setUi cs') t := by
  rcases h.head_cases with rfl | ⟨a, v, rfl, hs, h⟩
  · rw [hui] at ht
    cases ht
  · have hs : s.step L .ui = some v := hs
    simp only [step, uiStep, hui] at hs
    obtain ⟨u, cs', hc, rfl⟩ := commands hs
    exact ⟨u, cs', hc, h⟩

theorem UiRun.done (h : UiRun L s t) (hui : s.ui = []) : t = s := by
  rcases h.head_cases with rfl | ⟨a, v, rfl, hs, -⟩
  · rfl
  · have hs : s.step L .ui = some v := hs
    simp only [step, uiStep, hui] at hs
    cases hs

theorem UiRun.pauses {b : Bool} {cs : List Cmd} (h : UiRun L s t) (ht : t.ui = [])
    (hui : s.ui = pauseCmds b ++ cs) :
    UiRun L { s with flags := fun o => { s.flags o with isPause := b }, mux := false, ui := cs } t := by
  obtain ⟨_, _, ⟨hm⟩, h⟩ := h.next ht hui
  obtain ⟨_, _, ⟨⟩, h⟩ := h.next ht rfl
  obtain ⟨_, _, ⟨⟩, h⟩ := h.next ht rfl
  obtain ⟨_, _, ⟨⟩, h⟩ := h.next ht rfl
  obtain ⟨_, _, ⟨⟩, h⟩ := h.next ht rfl
  obtain ⟨_, _, ⟨⟩, h⟩ := h.next ht rfl
  obtain ⟨_, _, ⟨⟩, h⟩ := h.next ht rfl
  have hF : (fun o => { s.flags o with isPause := b }) =
      writePause (writePause (writePause (writePause (writePause s.flags .player b) .demux b)
        (.dec .video) b) (.dec .audio) b) .audioPlay b := by
    funext o
    cases o with
    | dec d => cases d <;> simp [writePause]
    | _ => simp [writePause]
  rw [hF]
  exact h

theorem UiRun.nextSeek {pos : ℚ} {f : SeekFrame} {pc : SeekPc} {cs : List Cmd} (h : UiRun L s t)
    (ht : t.ui = []) (hui : s.ui = .seek pos f pc :: cs) :
    (∃ u pc', Seeks L pos f s pc u (some pc') ∧ UiRun L (u.setUi (.seek pos f pc' :: cs)) t) ∨
      pc = .unlock ∧ UiRun L { s with mux := false, ui := cs } t := by
  obtain ⟨u, cs', hc, h⟩ := h.next ht hui
  cases hc with
  | seek hk => exact .inl ⟨u, _, hk, h⟩
  | sought hk =>
    cases hk
    exact .inr ⟨rfl, h⟩

/-- `avcodec_flush_buffers` is called only on contexts that it does not crash on. -/
theorem UiRun.flushes {pos : ℚ} {f : SeekFrame} {d : Dec} {cs : List Cmd} (h : UiRun L s t)
    (ht : t.ui = []) (hui : s.ui = .seek pos f (.clear d) :: cs) : (s.dec d).unopened = false ∧
      ∃ u, u.ui = .seek pos f (if d = .video then .clear .audio else .clearFrames) :: cs ∧
        (∀ d' ≠ d, u.dec d' = s.dec d') ∧ UiRun L u t := by
  obtain ⟨_, _, hk, h⟩ | ⟨⟨⟩, -⟩ := h.nextSeek ht hui
  cases hk with
  | clear hm =>
    obtain ⟨_, _, hk, h⟩ | ⟨⟨⟩, -⟩ := h.nextSeek ht rfl
    cases hk with
    | flush ho =>
      refine ⟨?_, _, rfl, fun d' hd => ?_, h⟩
      · simpa [setUi, emptied, emit, setDec, FFDecode.clear, FFDecode.unopened] using ho
      · simp [setUi, emptied, emit, setDec, hd]

theorem UiRun.opened {pos : ℚ} {f : SeekFrame} (h : UiRun L s t) (ht : t.ui = [])
    (hui : s.ui = .seek pos f .lock :: seekEnd) (d : Dec) : (s.dec d).unopened = false := by
  obtain ⟨_, _, ⟨hm⟩, h⟩ | ⟨⟨⟩, -⟩ := h.nextSeek ht hui
  obtain ⟨hv, u, hu, hd, h⟩ := h.flushes ht rfl
  cases d with
  | video => exact hv
  | audio =>
    have ha := (h.flushes ht hu).1
    rw [hd .audio Dec.noConfusion] at ha
    exact ha

/-! ### The loop of `Seek` and its end -/

end Player

/-- The places of `Seek` from its loop on. -/
def SeekPc.late : SeekPc → Bool
  | .lock | .clear _ | .flush _ | .clearFrames | .reposition | .target => false
  | _ => true

/-- The commands from the loop of `Seek` on. -/
def Cmd.late : Cmd → Bool
  | .seek _ _ pc => pc.late
  | .lock | .unlock | .pause _ _ | .ret _ => true
  | _ => false

namespace Player
variable {s t u : Player K}

theorem unread_read (D : FFDemux) (h : ℕ) : (D.read h).2.unread = D.unread.tail := by
  unfold FFDemux.read FFDemux.unread
  rcases hic : D.ic with _ | ic
  · simp [hic]
  · rcases hp : ic.packets with _ | ⟨pkt, rest⟩
    · simp [hic, hp]
    · simp only [Option.map_some, Option.getD_some, hp, List.tail_cons]
      split_ifs <;> rfl

theorem unread_readBy (s : Player K) (w : Holder) : (s.readBy w).2.demux.unread = s.demux.unread.tail := by
  rw [readBy_eq]
  exact unread_read _ _

theorem Seeks.late_next {pos : ℚ} {f : SeekFrame} {pc pc' : SeekPc} (h : Seeks L pos f s pc t (some pc'))
    (hpc : pc.late = true) : pc'.late = true := by
  generalize hr : some pc' = r at h
  cases h with
  | lock | clear | flush | clearFrames | reposition | rejected | target => cases hpc
  | unlock => cases hr
  | _ => cases hr; rfl

theorem Seeks.late {pos : ℚ} {f : SeekFrame} {pc : SeekPc} {r : Option SeekPc} (h : Seeks L pos f s pc t r)
    (hpc : pc.late = true) : t.ret = s.ret ∧ t.demux.unread.length ≤ s.demux.unread.length := by
  cases h with
  | lock | clear | flush | clearFrames | reposition | rejected | target => cases hpc
  | nothing | early | wanted | picture =>
    refine ⟨by rw [readBy_eq], ?_⟩
    rw [unread_readBy, List.length_tail]
    exact Nat.sub_le _ _
  | update hu =>
    rw [updates_eq hu]
    exact ⟨rfl, le_rfl⟩
  | done hu =>
    rw [updates_eq hu]
    exact ⟨rfl, le_rfl⟩
  | _ => exact ⟨rfl, le_rfl⟩

/-- From the loop on, the result stays and the read position goes forward. -/
theorem UiRun.late (h : UiRun L s t) (hui : ∀ c ∈ s.ui, c.late = true) :
    t.ret = s.ret ∧ t.demux.unread.length ≤ s.demux.unread.length := by
  have hI := h.inv (I := fun t => (∀ c ∈ t.ui, c.late = true) ∧ t.ret = s.ret ∧
    t.demux.unread.length ≤ s.demux.unread.length) ⟨hui, rfl, le_rfl⟩ ?_
  · exact hI.2
  rintro a v v' ⟨hl, hr, hle⟩ rfl hs
  cases steps (show v.step L .ui = some v' from hs) with
  | @ui c cs v' cs' hui hc =>
    rw [hui, List.forall_mem_cons] at hl
    obtain ⟨hcl, hl⟩ := hl
    cases hc with
    | lock | unlock | pause | ret => exact ⟨hl, hr, hle⟩
    | seek hk =>
      obtain ⟨h2, h3⟩ := hk.late hcl
      exact ⟨List.forall_mem_cons.mpr ⟨hk.late_next hcl, hl⟩, h2.trans hr, h3.trans hle⟩
    | sought hk =>
      obtain ⟨h2, h3⟩ := hk.late hcl
      exact ⟨hl, h2.trans hr, h3.trans hle⟩
    | _ => cases hcl

theorem seekEnd_late : ∀ c ∈ seekEnd, c.late = true := by
  simp [seekEnd, pauseCmds, Cmd.late]

theorem UiRun.seekDone {pos : ℚ} {f : SeekFrame} (h : UiRun L s t) (ht : t.ui = [])
    (hui : s.ui = .seek pos f .unlock :: seekEnd) : t.dec = s.dec ∧ t.audio = s.audio ∧ t.demux = s.demux := by
  obtain ⟨_, _, hk, -⟩ | ⟨-, h⟩ := h.nextSeek ht hui
  · cases hk
  have h := h.pauses ht (show _ = pauseCmds false ++ [.ret .seek] from rfl)
  obtain ⟨_, _, ⟨⟩, h⟩ := h.next ht rfl
  rw [h.done rfl]
  exact ⟨rfl, rfl, rfl⟩

/-- After `Seek`, nothing is paused. -/
theorem UiRun.unpaused {pos : ℚ} {f : SeekFrame} {pc : SeekPc} (h : UiRun L s t) (ht : t.ui = [])
    (hui : s.ui = .seek pos f pc :: seekEnd) (o : Obj) : t.isPause o = false := by
  have hI := h.inv (I := fun s => Finds (fun c _ => c.late = true ∨ ∃ pos f pc, c = .seek pos f pc)
    (fun F => ∀ o, (F o).isPause = false) s.ui s.flags) ?_ ?_
  · rw [ht] at hI
    exact hI o
  · rw [hui]
    simp only [seekEnd, pauseCmds, List.cons_append, List.nil_append, Finds, Cmd.late, Cmd.flags, true_or, true_and,
      writePause_isPause]
    refine ⟨.inr ⟨_, _, _, rfl⟩, fun o => ?_⟩
    cases o with
    | dec d => cases d <;> simp
    | _ => simp
  · rintro a v v' hF rfl hs
    refine (steps (show v.step L .ui = some v' from hs)).finds hF ?_ ?_ ?_
    · rintro o F (h | ⟨_, _, _, h⟩) <;> cases h
    · exact fun _ _ _ _ _ _ => .inr ⟨_, _, _, rfl⟩
    · intro c hc
      cases hc

/-! ### What a call of `Seek` does -/

/-- The state after the call of `Seek` has begun its loop: the loop is left before the first `Read`, or
everything that is left to read is gone, or a packet is read. -/
theorem UiRun.loop {pos : ℚ} {f : SeekFrame} {T : ℤ} (h : UiRun L s t) (ht : t.ui = [])
    (hui : s.ui = .seek pos f (.exitTest T) :: seekEnd) :
    ((s.isExit .player = true ∨ s.demux.unread = []) ∧ t.dec = s.dec ∧ t.audio = s.audio ∧
        t.demux.unread = s.demux.unread) ∨
      (s.isExit .player = false ∧ t.demux.unread.length < s.demux.unread.length) := by
  obtain ⟨_, _, hk, h⟩ | ⟨⟨⟩, -⟩ := h.nextSeek ht hui
  cases hk with
  | exit hx =>
    obtain ⟨h1, h2, h3⟩ := h.seekDone ht rfl
    exact .inl ⟨.inl hx, h1, h2, congrArg FFDemux.unread h3⟩
  | more hx =>
    obtain ⟨u, pc', hk, h⟩ | ⟨⟨⟩, -⟩ := h.nextSeek ht rfl
    have hu : u.dec = s.dec ∧ u.audio = s.audio ∧ u.demux.unread = s.demux.unread.tail := by
      cases hk <;> exact ⟨by rw [readBy_eq]; rfl, by rw [readBy_eq]; rfl, unread_readBy _ _⟩
    obtain ⟨hu1, hu2, hu3⟩ := hu
    rcases hr : s.demux.unread with _ | ⟨p, ps⟩
    · -- at the end of the file `Read` returns an empty `XData`
      have hnil : (s.demux.read s.fresh).1 = {} := by rw [FFDemux.read_nil _ hr]
      have hpc : pc' = .unlock := by
        cases hk with
        | nothing => rfl
        | early hx | wanted hx | picture hx =>
          exact absurd hx (by show ¬ 0 < (s.demux.read s.fresh).1.size; rw [hnil]; decide)
      subst hpc
      obtain ⟨h1, h2, h3⟩ := h.seekDone ht rfl
      refine .inl ⟨.inr rfl, h1.trans hu1, h2.trans hu2, ?_⟩
      rw [h3]
      show u.demux.unread = []
      rw [hu3, hr]
      rfl
    · have hl := (h.late (s := u.setUi _) (List.forall_mem_cons.mpr ⟨hk.late_next rfl, seekEnd_late⟩)).2
      have hl : t.demux.unread.length ≤ u.demux.unread.length := hl
      rw [hu3, hr] at hl
      refine .inr ⟨hx, ?_⟩
      simp only [List.tail_cons] at hl
      simp only [List.length_cons]
      omega

end Player

end XPlayer
