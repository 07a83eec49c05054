import XPlayer.Player

/-!
# What one step of a thread can do

The steps of `update`, `demuxStep`, `decStep`, `seekStep` and `cmdStep` by cases (`Updates`, `Demuxes`,
`Decodes`, `Seeks`, `Commands`), each with the place of the thread, the state with everything else changed,
and the next place; `Steps` puts them together. The proofs about
runs go by cases on these and do not unfold the step functions.
-/

namespace XPlayer
namespace Player
variable {K : Type} {L : FFmpeg K} {s s' : Player K}

/-- The steps of `update`. -/
inductive Updates (w : Holder) (s : Player K) : UpdatePc → Player K → Option UpdatePc → Prop
  | skip {d x} (h : x.isAudio ≠ (s.dec d).isAudio) : Updates w s (.enter d x) s (UpdatePc.next d x)
  | accept {d x} (h : x.isAudio = (s.dec d).isAudio) : Updates w s (.enter d x) s (some (.exitTest d x))
  | lost {d x} (h : s.isExit (.dec d) = true) : Updates w s (.exitTest d x) s (UpdatePc.next d x)
  | go {d x} (h : s.isExit (.dec d) = false) : Updates w s (.exitTest d x) s (some (.section d x))
  | push {d x} (hm : s.packsMutex d = none) (h : (s.dec d).packs.length < (s.dec d).maxList) :
    Updates w s (.section d x) (s.pushed w d x) (UpdatePc.next d x)
  | full {d x} (hm : s.packsMutex d = none) (h : (s.dec d).maxList ≤ (s.dec d).packs.length) :
    Updates w s (.section d x) s (some (.exitTest d x))

theorem updates {w : Holder} {u : UpdatePc} {r : Option UpdatePc} (h : s.update w u = some (s', r)) :
    Updates w s u s' r := by
  cases u with
  | enter d x =>
    simp only [update, Option.some.injEq, Prod.mk.injEq] at h
    obtain ⟨rfl, rfl⟩ := h
    split
    · exact .skip ‹_›
    · exact .accept (not_not.mp ‹_›)
  | exitTest d x =>
    simp only [update, Option.some.injEq, Prod.mk.injEq] at h
    obtain ⟨rfl, rfl⟩ := h
    split
    · exact .lost ‹_›
    · exact .go (eq_false_of_ne_true ‹_›)
  | «section» d x =>
    simp only [update] at h
    split at h
    · cases h
    · rename_i hm
      split at h <;> cases h
      · exact .push (not_not.mp hm) ‹_›
      · exact .full (not_not.mp hm) (not_lt.mp ‹_›)

/-- The steps of `demuxStep`, without the move of the worker. -/
inductive Demuxes (n : ℕ) (s : Player K) : DemuxPc → Player K → DemuxPc → Prop
  | exit (h : s.isExit .demux = true) : Demuxes n s .exitTest s .gone
  | more (h : s.isExit .demux = false) : Demuxes n s .exitTest s .pauseTest
  | paused (h : s.isPause .demux = true) : Demuxes n s .pauseTest s .exitTest
  | run (h : s.isPause .demux = false) : Demuxes n s .pauseTest s .read
  | read (h : 0 < (s.readBy (.demux n)).1.size) :
    Demuxes n s .read (s.readBy (.demux n)).2 (.notify (s.readBy (.demux n)).1)
  | nothing (h : (s.readBy (.demux n)).1.size ≤ 0) : Demuxes n s .read (s.readBy (.demux n)).2 .exitTest
  | notify {x} (h : s.demuxMux = none) :
    Demuxes n s (.notify x) { s with demuxMux := some (.demux n) } (.update (.enter .video x))
  | update {u s' u'} (h : Updates (.demux n) s u s' (some u')) : Demuxes n s (.update u) s' (.update u')
  | done {u s'} (h : Updates (.demux n) s u s' none) :
    Demuxes n s (.update u) { s' with demuxMux := none } .exitTest

theorem demuxes {n : ℕ} (h : s.demuxStep n = some s') :
    ∃ t pc, Demuxes n s (s.demuxW n) t pc ∧ s' = t.setDemux n pc := by
  unfold demuxStep at h
  generalize s.demuxW n = pc at h
  cases pc with
  | gone => cases h
  | exitTest =>
    cases h
    refine ⟨_, _, ?_, rfl⟩
    split
    · exact .exit ‹_›
    · exact .more (eq_false_of_ne_true ‹_›)
  | pauseTest =>
    cases h
    refine ⟨_, _, ?_, rfl⟩
    split
    · exact .paused ‹_›
    · exact .run (eq_false_of_ne_true ‹_›)
  | read =>
    simp only [Option.some.injEq] at h
    subst h
    refine ⟨_, _, ?_, rfl⟩
    by_cases hx : 0 < (s.readBy (.demux n)).1.size
    · rw [if_pos hx]
      exact .read hx
    · rw [if_neg hx]
      exact .nothing (not_lt.mp hx)
  | notify x =>
    simp only at h
    split at h <;> cases h
    exact ⟨_, _, .notify ‹_›, rfl⟩
  | update u =>
    simp only at h
    rcases hu : s.update (.demux n) u with _ | ⟨t, _ | u'⟩ <;> rw [hu] at h <;> cases h
    · exact ⟨_, _, .done (updates hu), rfl⟩
    · exact ⟨_, _, .update (updates hu), rfl⟩

/-- The steps of `decStep`, without the move of the worker. -/
inductive Decodes (L : FFmpeg K) (d : Dec) (n : ℕ) (s : Player K) : DecPc → Player K → DecPc → Prop
  | exit (h : s.isExit (.dec d) = true) : Decodes L d n s .exitTest s .gone
  | more (h : s.isExit (.dec d) = false) : Decodes L d n s .exitTest s .pauseTest
  | paused (h : s.isPause (.dec d) = true) : Decodes L d n s .pauseTest s .exitTest
  | run (h : s.isPause (.dec d) = false) : Decodes L d n s .pauseTest s .lock
  | shut (hm : s.packsMutex d = none) (h : gateClosed (s.dec d) = true) : Decodes L d n s .lock s .exitTest
  | empty (hm : s.packsMutex d = none) (h : (s.dec d).packs = []) : Decodes L d n s .lock s .exitTest
  | pop {x rest} (hm : s.packsMutex d = none) (hg : gateClosed (s.dec d) = false)
    (h : (s.dec d).packs = x :: rest) : Decodes L d n s .lock (s.popped d n x rest) (.send x)
  | sent {x} (h : ((s.dec d).sendPacket L x).1 = true) :
    Decodes L d n s (.send x) ((s.setDec d ((s.dec d).sendPacket L x).2).emit (.send (.decoder d n) x))
      (.innerExit x)
  | unsent {x} (h : ((s.dec d).sendPacket L x).1 = false) :
    Decodes L d n s (.send x) ((s.setDec d ((s.dec d).sendPacket L x).2).emit (.send (.decoder d n) x))
      (.drop x)
  | innerExit {x} (h : s.isExit (.dec d) = true) : Decodes L d n s (.innerExit x) s (.drop x)
  | inner {x} (h : s.isExit (.dec d) = false) : Decodes L d n s (.innerExit x) s (.recv x)
  | drained {x} (h : ((s.dec d).recvFrame L).1.data = .null) :
    Decodes L d n s (.recv x) (s.setDec d ((s.dec d).recvFrame L).2) (.drop x)
  | recv {x} (h : ((s.dec d).recvFrame L).1.data ≠ .null) :
    Decodes L d n s (.recv x) (s.setDec d ((s.dec d).recvFrame L).2) (.notify x ((s.dec d).recvFrame L).1)
  | show {x f} (h : d = .video) : Decodes L d n s (.notify x f) (s.emit (.notify d f)) (.innerExit x)
  | notify {x f} (h : d = .audio) : Decodes L d n s (.notify x f) (s.emit (.notify d f)) (.resample x f)
  | noData {x f} (h : f.size ≤ 0) : Decodes L d n s (.resample x f) s (.innerExit x)
  | refused {x f} (h : 0 < f.size) (hm : s.resampleMux = false)
    (hr : s.resample.resample L s.fresh f = .refused) : Decodes L d n s (.resample x f) s (.innerExit x)
  | leaked {x f} (h : 0 < f.size) (hm : s.resampleMux = false)
    (hr : s.resample.resample L s.fresh f = .leaked) :
    Decodes L d n s (.resample x f) { s with resampleMux := true } (.innerExit x)
  | pcm {x f y} (h : 0 < f.size) (hm : s.resampleMux = false)
    (hr : s.resample.resample L s.fresh f = .pcm y) :
    Decodes L d n s (.resample x f) ({ s with fresh := s.fresh + 1 }.emit (.resampled y)) (.pcmExit x y)
  | pcmLost {x y} (h : s.isExit .audioPlay = true) : Decodes L d n s (.pcmExit x y) s (.innerExit x)
  | pcmGo {x y} (h : s.isExit .audioPlay = false) : Decodes L d n s (.pcmExit x y) s (.pcmSection x y)
  | pcmFull {x y} (h : s.audio.maxFrame < s.audio.frames.length) :
    Decodes L d n s (.pcmSection x y) s (.pcmExit x y)
  | pcmPush {x y} (h : s.audio.frames.length ≤ s.audio.maxFrame) :
    Decodes L d n s (.pcmSection x y)
      ({ s with audio := { s.audio with frames := s.audio.frames ++ [y] } }.emit (.queued y)) (.innerExit x)
  | drop {x} :
    Decodes L d n s (.drop x) ((s.emit (.drop (.decoder d n) x)).setPacks d none) .exitTest

theorem decodes {d : Dec} {n : ℕ} (h : s.decStep L d n = some s') :
    ∃ t pc, Decodes L d n s (s.decW d n) t pc ∧ s' = t.setDecW d n pc := by
  unfold decStep at h
  generalize s.decW d n = pc at h
  cases pc with
  | gone => cases h
  | exitTest =>
    cases h
    refine ⟨_, _, ?_, rfl⟩
    split
    · exact .exit ‹_›
    · exact .more (eq_false_of_ne_true ‹_›)
  | pauseTest =>
    cases h
    refine ⟨_, _, ?_, rfl⟩
    split
    · exact .paused ‹_›
    · exact .run (eq_false_of_ne_true ‹_›)
  | lock =>
    simp only at h
    split at h
    · cases h
    · rename_i hm
      rw [not_not] at hm
      split at h
      · cases h
        exact ⟨_, _, .shut hm ‹_›, rfl⟩
      · rename_i hg
        rcases hp : (s.dec d).packs with _ | ⟨x, rest⟩ <;> rw [hp] at h <;> cases h
        · exact ⟨_, _, .empty hm hp, rfl⟩
        · exact ⟨_, _, .pop hm (by simpa using hg) hp, rfl⟩
  | send x =>
    simp only [Option.some.injEq] at h
    subst h
    refine ⟨_, _, ?_, rfl⟩
    by_cases hs : ((s.dec d).sendPacket L x).1 = true
    · rw [if_pos hs]
      exact .sent hs
    · rw [if_neg hs]
      exact .unsent (eq_false_of_ne_true hs)
  | innerExit x =>
    cases h
    refine ⟨_, _, ?_, rfl⟩
    split
    · exact .innerExit ‹_›
    · exact .inner (eq_false_of_ne_true ‹_›)
  | recv x =>
    simp only [Option.some.injEq] at h
    subst h
    refine ⟨_, _, ?_, rfl⟩
    by_cases hf : ((s.dec d).recvFrame L).1.data = .null
    · rw [if_pos hf]
      exact .drained hf
    · rw [if_neg hf]
      exact .recv hf
  | notify x f =>
    cases h
    refine ⟨_, _, ?_, rfl⟩
    cases d
    · exact .show rfl
    · exact .notify rfl
  | resample x f =>
    simp only at h
    split at h
    · cases h
      exact ⟨_, _, .noData ‹_›, rfl⟩
    · rename_i hf
      have hf := not_le.mp hf
      split at h
      · cases h
      · rename_i hm
        have hm : s.resampleMux = false := by simpa using hm
        rcases hr : s.resample.resample L s.fresh f with _ | _ | y <;> rw [hr] at h <;> cases h
        · exact ⟨_, _, .refused hf hm hr, rfl⟩
        · exact ⟨_, _, .leaked hf hm hr, rfl⟩
        · exact ⟨_, _, .pcm hf hm hr, rfl⟩
  | pcmExit x y =>
    cases h
    refine ⟨_, _, ?_, rfl⟩
    split
    · exact .pcmLost ‹_›
    · exact .pcmGo (eq_false_of_ne_true ‹_›)
  | pcmSection x y =>
    simp only [IAudioPlay.update] at h
    split at h
    · rename_i hu
      cases h
      split at hu <;> cases hu
      exact ⟨_, _, .pcmFull ‹_›, rfl⟩
    · rename_i hu
      cases h
      split at hu <;> cases hu
      exact ⟨_, _, .pcmPush (not_lt.mp ‹_›), rfl⟩
  | drop x =>
    cases h
    exact ⟨_, _, .drop, rfl⟩

/-! ### The controller -/

/-- What `IDecode::Clear` leaves. -/
def emptied (d : Dec) (s : Player K) : Player K :=
  { s.setDec d (s.dec d).clear with log := ((s.dec d).packs.map (.drop (.queue d))).reverse ++ s.log }

theorem clearDec_eq {d : Dec} (h : s.clearDec d = some s') : s.packsMutex d = none ∧ s' = s.emptied d := by
  unfold clearDec at h
  split at h <;> cases h
  exact ⟨not_not.mp ‹_›, rfl⟩

/-- What `demux->Seek` leaves, without the event. -/
def moved (pos : ℚ) (f : SeekFrame) (s : Player K) : Player K :=
  { s with demux := (s.demux.seek pos f).2, ret := (s.demux.seek pos f).1 }

/-- The steps of `seekStep`. -/
inductive Seeks (L : FFmpeg K) (pos : ℚ) (f : SeekFrame) (s : Player K) :
    SeekPc → Player K → Option SeekPc → Prop
  | lock (h : s.mux = false) : Seeks L pos f s .lock { s with mux := true } (some (.clear .video))
  | clear {d} (h : s.packsMutex d = none) :
    Seeks L pos f s (.clear d) ((s.emptied d).emit (.flushed d)) (some (.flush d))
  | flush {d} (h : (s.dec d).unopened = false) : Seeks L pos f s (.flush d) (s.setDec d ((s.dec d).flush L))
      (some (if d = .video then .clear .audio else .clearFrames))
  | clearFrames : Seeks L pos f s .clearFrames s.clearFrames (some .reposition)
  | reposition (h : s.seekable pos = true) :
    Seeks L pos f s .reposition ((s.moved pos f).emit .reposition) (some .target)
  | rejected (h : s.seekable pos = false) : Seeks L pos f s .reposition (s.moved pos f) (some .target)
  | target : Seeks L pos f s .target s (some (.exitTest (trunc (pos * s.demux.total))))
  | exit {t} (h : s.isExit .player = true) : Seeks L pos f s (.exitTest t) s (some .unlock)
  | more {t} (h : s.isExit .player = false) : Seeks L pos f s (.exitTest t) s (some (.read t))
  | nothing {t} (h : (s.readBy .ui).1.size ≤ 0) : Seeks L pos f s (.read t) (s.readBy .ui).2 (some .unlock)
  | early {t} (h : 0 < (s.readBy .ui).1.size) (ha : (s.readBy .ui).1.isAudio = true)
    (hp : (s.readBy .ui).1.pts < t) :
    Seeks L pos f s (.read t) (s.readBy .ui).2 (some (.skip t (s.readBy .ui).1))
  | wanted {t} (h : 0 < (s.readBy .ui).1.size) (ha : (s.readBy .ui).1.isAudio = true)
    (hp : t ≤ (s.readBy .ui).1.pts) :
    Seeks L pos f s (.read t) (s.readBy .ui).2 (some (.notify t (s.readBy .ui).1))
  | picture {t} (h : 0 < (s.readBy .ui).1.size) (ha : (s.readBy .ui).1.isAudio = false) :
    Seeks L pos f s (.read t) (s.readBy .ui).2 (some (.send t (s.readBy .ui).1))
  | skip {t x} : Seeks L pos f s (.skip t x) (s.emit (.drop .ui x)) (some (.exitTest t))
  | notify {t x} (h : s.demuxMux = none) :
    Seeks L pos f s (.notify t x) { s with demuxMux := some .ui } (some (.update t (.enter .video x)))
  | update {t u s' u'} (h : Updates .ui s u s' (some u')) :
    Seeks L pos f s (.update t u) s' (some (.update t u'))
  | done {t u s'} (h : Updates .ui s u s' none) :
    Seeks L pos f s (.update t u) { s' with demuxMux := none } (some (.exitTest t))
  | send {t x} : Seeks L pos f s (.send t x)
      ((s.setDec .video ((s.dec .video).sendPacket L x).2).emit (.send .ui x)) (some (.drop t x))
  | drop {t x} : Seeks L pos f s (.drop t x) (s.emit (.drop .ui x)) (some (.recv t))
  | found {t} (h : 0 < ((s.dec .video).recvFrame L).1.size) (hp : t ≤ ((s.dec .video).recvFrame L).1.pts) :
    Seeks L pos f s (.recv t) (s.setDec .video ((s.dec .video).recvFrame L).2) (some .unlock)
  | before {t} (h : ((s.dec .video).recvFrame L).1.size ≤ 0 ∨ ((s.dec .video).recvFrame L).1.pts < t) :
    Seeks L pos f s (.recv t) (s.setDec .video ((s.dec .video).recvFrame L).2) (some (.exitTest t))
  | unlock : Seeks L pos f s .unlock { s with mux := false } none

theorem seeks {pos : ℚ} {f : SeekFrame} {pc : SeekPc} {r : Option SeekPc}
    (h : s.seekStep L pos f pc = some (s', r)) : Seeks L pos f s pc s' r := by
  cases pc with
  | lock =>
    simp only [seekStep] at h
    split at h <;> cases h
    exact .lock (eq_false_of_ne_true ‹_›)
  | clear d =>
    obtain ⟨t, ht, he⟩ := Option.map_eq_some_iff.mp h
    obtain ⟨hm, rfl⟩ := clearDec_eq ht
    cases he
    exact .clear hm
  | flush d =>
    simp only [seekStep] at h
    split at h <;> cases h
    exact .flush (eq_false_of_ne_true ‹_›)
  | clearFrames => cases h; exact .clearFrames
  | reposition =>
    cases h
    split
    · exact .reposition ‹_›
    · exact .rejected (eq_false_of_ne_true ‹_›)
  | target => cases h; exact .target
  | exitTest t =>
    cases h
    split
    · exact .exit ‹_›
    · exact .more (eq_false_of_ne_true ‹_›)
  | read t =>
    simp only [seekStep, Option.some.injEq, Prod.mk.injEq] at h
    obtain ⟨rfl, rfl⟩ := h
    split_ifs with h1 h2 h3
    · exact .nothing h1
    · exact .early (not_le.mp h1) h2 h3
    · exact .wanted (not_le.mp h1) h2 (not_lt.mp h3)
    · exact .picture (not_le.mp h1) (eq_false_of_ne_true h2)
  | skip t x => cases h; exact .skip
  | notify t x =>
    simp only [seekStep] at h
    split at h <;> cases h
    exact .notify ‹_›
  | update t u =>
    simp only [seekStep] at h
    rcases hu : s.update .ui u with _ | ⟨t', _ | u'⟩ <;> rw [hu] at h <;> cases h
    · exact .done (updates hu)
    · exact .update (updates hu)
  | send t x => cases h; exact .send
  | drop t x => cases h; exact .drop
  | recv t =>
    simp only [seekStep, Option.some.injEq, Prod.mk.injEq] at h
    obtain ⟨rfl, rfl⟩ := h
    split_ifs with h1 h2
    · exact .before (.inl h1)
    · exact .found (not_le.mp h1) h2
    · exact .before (.inr (not_le.mp h2))
  | unlock => cases h; exact .unlock

/-- The steps of `cmdStep`: the state without the change of `ui`, and what the controller has to do
then. -/
inductive Commands (L : FFmpeg K) (cs : List Cmd) (s : Player K) : Cmd → Player K → List Cmd → Prop
  | lock (h : s.mux = false) : Commands L cs s .lock { s with mux := true } cs
  | unlock : Commands L cs s .unlock { s with mux := false } cs
  | exit {o b} : Commands L cs s (.exit o b) (s.setFlags o { s.flags o with isExit := b }) cs
  | pause {o b} : Commands L cs s (.pause o b) (s.setFlags o { s.flags o with isPause := b }) cs
  | spawn {o} : Commands L cs s (.spawn o) (s.spawn o) cs
  | clear {d} (h : s.packsMutex d = none) : Commands L cs s (.clear d) ((s.emptied d).emit (.cleared d)) cs
  | flush {d} (h : (s.dec d).unopened = false) : Commands L cs s (.flush d) (s.setDec d ((s.dec d).flush L)) cs
  | free {d} : Commands L cs s (.free d) (s.setDec d (s.dec d).free) cs
  | clearFrames : Commands L cs s .clearFrames s.clearFrames cs
  | closeDemux : Commands L cs s .closeDemux { s with demux := s.demux.close } cs
  | opened {o} (h : (s.demux.openInput o).1 = true) :
    Commands L cs s (.openDemux o) { s with demux := (s.demux.openInput o).2, ret := true } cs
  | openFailed {o} (h : (s.demux.openInput o).1 = false) :
    Commands L cs s (.openDemux o) { s with demux := (s.demux.openInput o).2, ret := false }
      [.unlock, .ret .open]
  | videoPara : Commands L cs s .videoPara { s with demux := s.demux.getVideoPara.2 } cs
  | audioPara : Commands L cs s .audioPara { s with demux := s.demux.getAudioPara.2 } cs
  | openDec {d o} : Commands L cs s (.openDec d o)
      (s.setDec d ((s.dec d).open L (if d = .video then s.demux.getVideoPara.1 else s.demux.getAudioPara.1) o)) cs
  | openResample {b p} (h : s.demux.getAudioPara.1.para = some p) :
    Commands L cs s (.openResample b) { s with resample := s.resample.open p b } cs
  | seek {pos f pc t pc'} (h : Seeks L pos f s pc t (some pc')) :
    Commands L cs s (.seek pos f pc) t (.seek pos f pc' :: cs)
  | sought {pos f pc t} (h : Seeks L pos f s pc t none) : Commands L cs s (.seek pos f pc) t cs
  | ret {k} : Commands L cs s (.ret k) (s.emit (.returned k s.ret)) cs

theorem commands {c : Cmd} {cs : List Cmd} (h : s.cmdStep L cs c = some s') :
    ∃ t cs', Commands L cs s c t cs' ∧ s' = { t with ui := cs' } := by
  cases c with
  | lock =>
    simp only [cmdStep] at h
    split at h <;> cases h
    exact ⟨_, _, .lock (eq_false_of_ne_true ‹_›), rfl⟩
  | unlock => cases h; exact ⟨_, _, .unlock, rfl⟩
  | exit o b => cases h; exact ⟨_, _, .exit, rfl⟩
  | pause o b => cases h; exact ⟨_, _, .pause, rfl⟩
  | spawn o => cases h; exact ⟨_, _, .spawn, rfl⟩
  | clear d =>
    obtain ⟨t, ht, rfl⟩ := Option.map_eq_some_iff.mp h
    obtain ⟨hm, rfl⟩ := clearDec_eq ht
    exact ⟨_, _, .clear hm, rfl⟩
  | flush d =>
    simp only [cmdStep] at h
    split at h <;> cases h
    exact ⟨_, _, .flush (eq_false_of_ne_true ‹_›), rfl⟩
  | free d => cases h; exact ⟨_, _, .free, rfl⟩
  | clearFrames => cases h; exact ⟨_, _, .clearFrames, rfl⟩
  | closeDemux => cases h; exact ⟨_, _, .closeDemux, rfl⟩
  | openDemux o =>
    simp only [cmdStep] at h
    split at h <;> rename_i ho <;> cases h
    · have ho₁ := congrArg Prod.fst ho
      have ho₂ := congrArg Prod.snd ho
      exact ⟨_, _, .opened ho₁, by rw [ho₂]⟩
    · have ho₁ := congrArg Prod.fst ho
      have ho₂ := congrArg Prod.snd ho
      exact ⟨_, _, .openFailed ho₁, by rw [ho₂]⟩
  | videoPara => cases h; exact ⟨_, _, .videoPara, rfl⟩
  | audioPara => cases h; exact ⟨_, _, .audioPara, rfl⟩
  | openDec d o => cases h; exact ⟨_, _, .openDec, rfl⟩
  | openResample b =>
    simp only [cmdStep] at h
    split at h <;> cases h
    exact ⟨_, _, .openResample ‹_›, rfl⟩
  | seek pos f pc =>
    simp only [cmdStep] at h
    rcases hp : s.seekStep L pos f pc with _ | ⟨t, _ | pc'⟩ <;> rw [hp] at h <;> cases h
    · exact ⟨_, _, .sought (seeks hp), rfl⟩
    · exact ⟨_, _, .seek (seeks hp), rfl⟩
  | ret k => cases h; exact ⟨_, _, .ret, rfl⟩

/-! ### All threads -/

/-- The steps of `step`. -/
inductive Steps (L : FFmpeg K) (s : Player K) : Act → Player K → Prop
  | demux {n t pc} (h : Demuxes n s (s.demuxW n) t pc) : Steps L s (.demux n) (t.setDemux n pc)
  | dec {d n t pc} (h : Decodes L d n s (s.decW d n) t pc) : Steps L s (.dec d n) (t.setDecW d n pc)
  | syncExit {n} (h : s.syncW n = .exitTest) (he : s.isExit .player = true) :
    Steps L s (.sync n) (s.setSync n .gone)
  | syncMore {n} (h : s.syncW n = .exitTest) (he : s.isExit .player = false) :
    Steps L s (.sync n) (s.setSync n .section)
  | sync {n} (h : s.syncW n = .section) (hm : s.mux = false) :
    Steps L s (.sync n)
      (((s.setDec .video { s.dec .video with synPts := s.audio.pts }).emit (.synced s.audio.pts)).setSync n .exitTest)
  | device (h : s.call = none) : Steps L s .device { s with call := some .exitTest }
  | call {pc} (h : s.call = some pc) : Steps L s .call
      { s with audio := (callStep (s.isExit .audioPlay) (s.isPause .audioPlay) s.audio pc).1,
               call := (callStep (s.isExit .audioPlay) (s.isPause .audioPlay) s.audio pc).2,
               log := (callEvent s.audio pc).toList ++ s.log }
  | ui {c cs t cs'} (h : s.ui = c :: cs) (hc : Commands L cs s c t cs') : Steps L s .ui { t with ui := cs' }
  | request {c} (h : s.ui = []) : Steps L s (.request c) { s.emit (.called c.kind) with ui := c.program }

theorem steps {a : Act} (h : s.step L a = some s') : Steps L s a s' := by
  cases a with
  | demux n =>
    obtain ⟨t, pc, hd, rfl⟩ := demuxes h
    exact .demux hd
  | dec d n =>
    obtain ⟨t, pc, hd, rfl⟩ := decodes h
    exact .dec hd
  | sync n =>
    simp only [step, syncStep] at h
    split at h
    · cases h
    · cases h
      split
      · exact .syncExit ‹_› ‹_›
      · exact .syncMore ‹_› (eq_false_of_ne_true ‹_›)
    · split at h <;> cases h
      exact .sync ‹_› (eq_false_of_ne_true ‹_›)
  | device =>
    simp only [step, deviceStep] at h
    split at h <;> cases h
    exact .device ‹_›
  | call =>
    obtain ⟨pc, hpc, rfl⟩ := Option.map_eq_some_iff.mp h
    exact .call hpc
  | ui =>
    simp only [step, uiStep] at h
    rcases hui : s.ui with _ | ⟨c, cs⟩ <;> rw [hui] at h
    · cases h
    · obtain ⟨t, cs', hc, rfl⟩ := commands h
      exact .ui hui hc
  | request c =>
    simp only [step] at h
    split at h <;> cases h
    exact .request ‹_›

theorem readBy_eq (s : Player K) (w : Holder) : (s.readBy w).2 = { s with
    demux := (s.demux.read s.fresh).2, fresh := s.fresh + 1,
    log := (if (s.demux.read s.fresh).1.data = .null then [] else [.read w (s.demux.read s.fresh).1]) ++ s.log } := by
  simp only [readBy]
  split <;> rfl

theorem updates_eq {w : Holder} {u : UpdatePc} {r : Option UpdatePc} (h : Updates w s u s' r) :
    s' = { s with dec := s'.dec, log := s'.log } := by
  cases h <;> rfl

/-! The parts of the state that the steps of a thread may change, without the move of the thread. -/

theorem Demuxes.eq {n : ℕ} {pc pc' : DemuxPc} (h : Demuxes n s pc s' pc') :
    s' = { s with demux := s'.demux, demuxMux := s'.demuxMux, dec := s'.dec, fresh := s'.fresh, log := s'.log } := by
  cases h with
  | read | nothing => rw [readBy_eq]
  | update hu => rw [updates_eq hu]
  | done hu => rw [updates_eq hu]
  | _ => rfl

theorem Decodes.eq {d : Dec} {n : ℕ} {pc pc' : DecPc} (h : Decodes L d n s pc s' pc') :
    s' = { s with dec := s'.dec, packsMutex := s'.packsMutex, resampleMux := s'.resampleMux, audio := s'.audio,
                  fresh := s'.fresh, log := s'.log } := by
  cases h <;> rfl

theorem Seeks.eq {pos : ℚ} {f : SeekFrame} {pc : SeekPc} {r : Option SeekPc} (h : Seeks L pos f s pc s' r) :
    s' = { s with mux := s'.mux, demux := s'.demux, demuxMux := s'.demuxMux, dec := s'.dec, audio := s'.audio,
                  ret := s'.ret, fresh := s'.fresh, log := s'.log } := by
  cases h with
  | nothing | early | wanted | picture => rw [readBy_eq]
  | update hu => rw [updates_eq hu]
  | done hu => rw [updates_eq hu]
  | _ => rfl

@[simp] theorem setDec_self (s : Player K) (d : Dec) (D : FFDecode K) : (s.setDec d D).dec d = D :=
  Function.update_self ..

theorem setDec_ne (s : Player K) {d d' : Dec} (D : FFDecode K) (h : d' ≠ d) : (s.setDec d D).dec d' = s.dec d' :=
  Function.update_of_ne h ..

@[simp] theorem setDec_video_audio (s : Player K) (V : FFDecode K) : (s.setDec .video V).dec .audio = s.dec .audio :=
  setDec_ne s V nofun

theorem isExit_congr (hF : s'.flags = s.flags) (o : Obj) : s'.isExit o = s.isExit o :=
  congrArg Flags.isExit (congrFun hF o)

theorem isPause_congr (hF : s'.flags = s.flags) (o : Obj) : s'.isPause o = s.isPause o :=
  congrArg Flags.isPause (congrFun hF o)

/-- What the new decoder has in common with the old one. -/
theorem setDec_congr {β : Type*} (g : FFDecode K → β) (s : Player K) {d : Dec} {D : FFDecode K}
    (h : g D = g (s.dec d)) (d' : Dec) : g ((s.setDec d D).dec d') = g (s.dec d') := by
  by_cases hd : d' = d
  · subst hd
    rw [setDec_self, h]
  · rw [setDec_ne _ _ hd]

/-! What `Notify` of `demux` and the workers of a decoder may change of a decoder. -/

theorem Updates.dec_fields {w : Holder} {u : UpdatePc} {r : Option UpdatePc} (h : Updates w s u s' r) (d : Dec) :
    s'.dec d = { s.dec d with packs := (s'.dec d).packs } := by
  cases h with
  | @push d' x =>
    by_cases hd : d = d'
    · subst hd
      simp [pushed, emit, setDec]
    · simp [pushed, emit, setDec, hd]
  | _ => rfl

theorem Demuxes.dec_fields {n : ℕ} {pc pc' : DemuxPc} (h : Demuxes n s pc s' pc') (d : Dec) :
    s'.dec d = { s.dec d with packs := (s'.dec d).packs } := by
  cases h with
  | read | nothing => rw [readBy_eq]
  | update h => exact h.dec_fields d
  | done h => exact (h.dec_fields d :)
  | _ => rfl

theorem Decodes.dec_other {n : ℕ} {d d' : Dec} {pc pc' : DecPc} (h : Decodes L d n s pc s' pc')
    (hd : d' ≠ d) : s'.dec d' = s.dec d' := by
  cases h with
  | pop => simp [popped, emit, setDec, setPacks, hd]
  | sent | unsent => simp [emit, setDec, hd]
  | drained | recv => simp [setDec, hd]
  | _ => rfl

theorem Decodes.dec_fields {n : ℕ} {d : Dec} {pc pc' : DecPc} (h : Decodes L d n s pc s' pc') (d' : Dec) :
    s'.dec d' = { s.dec d' with packs := (s'.dec d').packs, codec := (s'.dec d').codec, pts := (s'.dec d').pts } := by
  by_cases hd : d' = d
  · subst hd
    cases h with
    | pop => simp [popped, emit, setDec, setPacks]
    | @sent x | @unsent x =>
      simp only [emit, setDec, Function.update_self]
      unfold FFDecode.sendPacket
      split
      · rfl
      · split <;> rfl
    | drained | recv =>
      simp only [setDec, Function.update_self]
      unfold FFDecode.recvFrame
      split <;> rfl
    | _ => rfl
  · rw [h.dec_other hd]

end Player

end XPlayer
