import XPlayer.SeekStop

/-!
# The target of `Seek`

What comes after the loop of `Seek`: the frames that are shown and the audio packets that `aDecode` takes, in every run
from there. The frame that ends the loop is dropped, so `Seek` does not land on its target by finding it; `seek_lands`
says when it lands there nevertheless.
-/

namespace XPlayer
variable {K : Type} {L : FFmpeg K}

/-! ### What comes after -/

/-- The packets that the workers of `d` take from its queue. -/
def Event.popped (d : Dec) : Event → Option XData
  | .pop d' _ x => if d' = d then some x else none
  | _ => none

/-- The timestamps of the packets for `d` that `Read` has still to return. -/
def FFDemux.comingPts (D : FFDemux) (d : Dec) : List ℤ := (D.coming d).map fun p => toInt32 p.pts

theorem FFDemux.read_comingPts (D : FFDemux) (h : ℕ) (d : Dec) : D.comingPts d =
    (if 0 < (D.read h).1.size ∧ (D.read h).1.isAudio = d.kind then [(D.read h).1.pts] else []) ++
      (D.read h).2.comingPts d := by
  have hs : (D.read h).1.sendable.map (fun p => toInt32 p.pts) =
      if 0 < (D.read h).1.size then some (D.read h).1.pts else none := by
    rcases hic : D.ic with _ | ic
    · simp [read, hic, XData.sendable]
    · rcases hp : ic.packets with _ | ⟨p, rest⟩
      · simp [read, hic, hp, XData.sendable]
      · rw [read_cons hic hp]
        rcases D.classify p.stream_index with _ | _ | _ <;> by_cases hz : 0 < p.size <;>
          simp [XData.sendable, packetData, XData.pkt, hz, ← not_lt]
  unfold comingPts
  rw [read_coming D h d, List.map_append]
  congr 1
  by_cases hk : (D.read h).1.isAudio = d.kind
  · rw [if_pos hk, List.map_filterMap, List.filterMap_cons, hs]
    by_cases hz : 0 < (D.read h).1.size <;> simp [hz, hk]
  · simp [hk]

namespace Player
variable {s t w : Player K} {pos : ℚ} {f : SeekFrame} {pc pc' : SeekPc} {T : ℤ}

/-- What has happened since `s`. -/
def since (s t : Player K) : List Event := t.log.take (t.log.length - s.log.length)

/-- The frames that the video view has been given since `s`. -/
def shown (s t : Player K) : List XData := ((since s t).filterMap (Event.notified .video)).reverse

/-- The packets that `aDecode` has taken since `s`. -/
def reached (s t : Player K) : List XData := ((since s t).filterMap (Event.popped .audio)).reverse

/-- `IPlayer::PlayPos`. -/
def playPos (s : Player K) : ℚ := if 0 < s.demux.total then (s.dec .video).pts / s.demux.total else 0

/-- The timestamps of the packets that `d` has still to take. -/
def line (s : Player K) (d : Dec) : List ℤ :=
  ((s.dec d).packs ++ (s.demuxW 0).ahead d).map XData.pts ++ s.demux.comingPts d

/-- The timestamps of all packets for `d`. -/
def track (s : Player K) (d : Dec) : List ℤ :=
  (s.log.filterMap (Event.popped d)).reverse.map XData.pts ++ s.line d

/-- The player has been opened and started once: `demux` and the decoders have a worker each. -/
structure Underway (s : Player K) : Prop where
  demuxN : s.demuxN = 1
  decN : ∀ d, s.decN d = 1
  isExit : ∀ d, s.isExit (.dec d) = false
  isAudio : (s.dec .audio).isAudio = true

theorem Underway.of_eq (h : Underway s) (hN : t.demuxN = s.demuxN) (hM : t.decN = s.decN)
    (hF : ∀ d, t.isExit (.dec d) = s.isExit (.dec d)) (hA : (t.dec .audio).isAudio = (s.dec .audio).isAudio) :
    Underway t :=
  ⟨hN.trans h.demuxN, fun d => hM ▸ h.decN d, fun d => (hF d).trans (h.isExit d), hA.trans h.isAudio⟩

theorem Seeks.late_audio {r : Option SeekPc} (h : Seeks L pos f s pc t r) (hpc : pc.late = true) :
    (t.dec .audio).isAudio = (s.dec .audio).isAudio := by
  cases h with
  | lock | clear | flush | clearFrames | reposition | rejected | target => cases hpc
  | nothing | early | wanted | picture => rw [(s.readBy_still .ui).1]
  | update hu => exact (congrArg FFDecode.isAudio (hu.dec_fields .audio) :)
  | done hu => exact (congrArg FFDecode.isAudio (hu.dec_fields .audio) :)
  | @send T x => exact congrArg FFDecode.isAudio (s.setDec_video_audio ((s.dec .video).sendPacket L x).2)
  | found | before => exact congrArg FFDecode.isAudio (s.setDec_video_audio _)
  | _ => rfl

theorem Underway.step (h : Underway s) (hl : ∀ c ∈ s.ui, c.late = true) {a : Act} (ha : Unasked a s)
    (hs : Steps L s a t) : Underway t ∧ ∀ c ∈ t.ui, c.late = true := by
  cases hs with
  | @demux n u pc hd =>
    have hA : (u.dec .audio).isAudio = (s.dec .audio).isAudio := (congrArg FFDecode.isAudio (hd.dec_fields .audio) :)
    refine ⟨h.of_eq (congrArg Player.demuxN hd.eq :) (congrArg Player.decN hd.eq :)
      (fun d => isExit_congr (congrArg Player.flags hd.eq :) _) hA, ?_⟩
    exact (congrArg Player.ui hd.eq :) ▸ hl
  | @dec d n u pc hd =>
    have hA : (u.dec .audio).isAudio = (s.dec .audio).isAudio := (congrArg FFDecode.isAudio (hd.dec_fields .audio) :)
    refine ⟨h.of_eq (congrArg Player.demuxN hd.eq :) (congrArg Player.decN hd.eq :)
      (fun d => isExit_congr (congrArg Player.flags hd.eq :) _) hA, ?_⟩
    exact (congrArg Player.ui hd.eq :) ▸ hl
  | syncExit | syncMore | sync | device | call => exact ⟨h.of_eq rfl rfl (fun _ => rfl) rfl, hl⟩
  | request => exact absurd rfl (ha _)
  | @ui c cs u cs' hui hc =>
    rw [hui, List.forall_mem_cons] at hl
    obtain ⟨hcl, hl⟩ := hl
    cases hc with
    | lock | unlock | ret => exact ⟨h.of_eq rfl rfl (fun _ => rfl) rfl, hl⟩
    | @pause o b => exact ⟨h.of_eq rfl rfl (fun _ => writePause_isExit ..) rfl, hl⟩
    | seek hk =>
      exact ⟨h.of_eq (congrArg Player.demuxN hk.eq :) (congrArg Player.decN hk.eq :)
        (fun d => isExit_congr (congrArg Player.flags hk.eq :) _) (hk.late_audio hcl),
        List.forall_mem_cons.mpr ⟨hk.late_next hcl, hl⟩⟩
    | sought hk =>
      exact ⟨h.of_eq (congrArg Player.demuxN hk.eq :) (congrArg Player.decN hk.eq :)
        (fun d => isExit_congr (congrArg Player.flags hk.eq :) _) (hk.late_audio hcl), hl⟩
    | _ => cases hcl

/-- `Notify` of the demuxer and `Read` move the packets for a decoder, in their order. -/
theorem Demuxes.line {pc pc' : DemuxPc} (h : Demuxes 0 s pc t pc') (hk : ∀ d, (s.dec d).isAudio = d.kind)
    (hpc : pc.Kind) (hx : ∀ d, s.isExit (.dec d) = false) (d : Dec) :
    ((t.dec d).packs ++ pc'.ahead d).map XData.pts ++ t.demux.comingPts d =
      ((s.dec d).packs ++ pc.ahead d).map XData.pts ++ s.demux.comingPts d := by
  have hread : ∀ {pc' : DemuxPc}, (pc'.ahead d).map XData.pts =
      (if 0 < (s.readBy (.demux 0)).1.size ∧ (s.readBy (.demux 0)).1.isAudio = d.kind then
        [(s.readBy (.demux 0)).1.pts] else []) →
      (((s.readBy (.demux 0)).2.dec d).packs ++ pc'.ahead d).map XData.pts ++
        (s.readBy (.demux 0)).2.demux.comingPts d = ((s.dec d).packs ++ []).map XData.pts ++ s.demux.comingPts d := by
    intro pc' he
    have hr : (s.readBy (.demux 0)).1 = (s.demux.read s.fresh).1 := rfl
    rw [List.map_append, he, hr, readBy_eq]
    simp only [List.append_nil, List.append_assoc]
    rw [← FFDemux.read_comingPts]
  cases h with
  | read hz =>
    refine hread ?_
    rw [DemuxPc.ahead]
    split_ifs with h1 h2 h2
    · rfl
    · exact absurd ⟨hz, h1⟩ h2
    · exact absurd h2.2 h1
    · rfl
  | nothing hz =>
    refine hread ?_
    rw [if_neg fun he => absurd he.1 (not_lt.mpr hz)]
    rfl
  | @update u _ u' hu =>
    obtain ⟨h1, -⟩ := hu.ahead hk hpc d fun d' _ _ _ => hx d
    rw [updates_eq hu]
    exact congrArg (fun l => l.map XData.pts ++ s.demux.comingPts d) h1
  | @done u _ hu =>
    obtain ⟨h1, -⟩ := hu.ahead hk hpc d fun d' _ _ _ => hx d
    rw [updates_eq hu]
    exact congrArg (fun l => l.map XData.pts ++ s.demux.comingPts d) h1
  | _ => rfl

theorem popped_moves (d : Dec) (e : Event) (h : e.moves = true) : e.popped d = none := by
  cases e <;> first | rfl | cases h

theorem Decodes.popped {d d' : Dec} {n : ℕ} {pc pc' : DecPc} (h : Decodes L d' n s pc t pc') :
    (t.log.filterMap (Event.popped d)).reverse ++ (t.dec d).packs =
      (s.log.filterMap (Event.popped d)).reverse ++ (s.dec d).packs := by
  by_cases hd : d' = d
  · subst hd
    cases h with
    | @pop x rest hm hg hp =>
      have hq : ((s.popped d' n x rest).dec d').packs = rest := congrArg FFDecode.packs (s.setDec_self d' _)
      rw [hq, hp]
      simp [Player.popped, emit, Event.popped, setPacks, setDec]
    | sent | unsent =>
      exact congrArg (_ ++ ·) ((congrArg FFDecode.packs (s.setDec_self d' _)).trans (sendPacket_packs ..))
    | drained | recv =>
      exact congrArg (_ ++ ·) ((congrArg FFDecode.packs (s.setDec_self d' _)).trans (recvFrame_packs _))
    | «show» | notify | pcm | pcmPush | drop => rfl
    | _ => rfl
  · rw [h.dec_other (Ne.symm hd)]
    congr 2
    cases h with
    | pop => exact List.filterMap_cons_none (if_neg hd)
    | _ => rfl

/-- A step of a run that plays on keeps the timestamps of the packets for a decoder. -/
theorem Plays.track {d₀ : Dec} {F : List XData × Option (AVCodecContext K)} (h : Plays L d₀ F s) (hp : Underway s)
    (hl : ∀ c ∈ s.ui, c.late = true) {a : Act} (ha : Unasked a s) (hs : Steps L s a t) (d : Dec) :
    t.track d = s.track d := by
  cases hs with
  | @demux n u pc hd =>
    obtain rfl := h.only_demux hd
    have hm : (u.setDemux 0 pc).demuxW 0 = pc := by simp [setDemux]
    have hln := hd.line h.kind h.matched hp.isExit d
    unfold Player.track Player.line
    rw [hm]
    exact congrArg₂ (fun l₁ l₂ => (l₁.reverse.map XData.pts ++ l₂ : List ℤ)) (hd.log_eq (popped_moves d)) hln
  | @dec d' n u pc hd =>
    have hW : (u.demuxW 0).ahead d = (s.demuxW 0).ahead d := by rw [(congrArg Player.demuxW hd.eq :)]
    have hD : u.demux.comingPts d = s.demux.comingPts d := by rw [(congrArg Player.demux hd.eq :)]
    have hpop := congrArg (fun l => l.map XData.pts ++ (((s.demuxW 0).ahead d).map XData.pts ++ s.demux.comingPts d))
      (hd.popped (d := d))
    show (u.log.filterMap _).reverse.map _ ++
      (((u.dec d).packs ++ (u.demuxW 0).ahead d).map _ ++ u.demux.comingPts d) = _
    rw [hW, hD]
    simpa [Player.track, Player.line] using hpop
  | sync =>
    have hd : ((s.setDec .video { s.dec .video with synPts := s.audio.pts }).dec d).packs = (s.dec d).packs := by
      cases d <;> rfl
    exact congrArg (fun l => (s.log.filterMap _).reverse.map XData.pts ++
      ((l ++ (s.demuxW 0).ahead d).map XData.pts ++ s.demux.comingPts d)) hd
  | syncExit | syncMore | device => rfl
  | @call pc =>
    have hlog : ((callEvent s.audio pc).toList ++ s.log).filterMap (Event.popped d) =
        s.log.filterMap (Event.popped d) := by
      rw [List.filterMap_append, callEvent_log (fun _ => rfl) fun _ => rfl]
      rfl
    exact congrArg (fun l => l.reverse.map XData.pts ++ s.line d) hlog
  | request => exact absurd rfl (ha _)
  | @ui c cs u cs' hui hc =>
    have hst := h.starts
    rw [hui, List.forall_mem_cons] at hl hst
    cases hc with
    | lock | unlock | pause | ret => rfl
    | seek | sought => cases hst.1
    | _ => cases hl.1

/-! ### The history -/

theorem Updates.suffix {x : Holder} {u : UpdatePc} {r : Option UpdatePc} (h : Updates x s u t r) : s.log <:+ t.log := by
  cases h with
  | push => exact List.suffix_cons _ _
  | _ => exact List.suffix_rfl

theorem readBy_suffix (s : Player K) (x : Holder) : s.log <:+ (s.readBy x).2.log := by
  rw [readBy_eq]
  simp only
  split
  · exact List.suffix_rfl
  · exact List.suffix_cons _ _

theorem Demuxes.suffix {n : ℕ} {pc pc' : DemuxPc} (h : Demuxes n s pc t pc') : s.log <:+ t.log := by
  cases h with
  | read | nothing => exact s.readBy_suffix _
  | update hu => exact hu.suffix
  | done hu => exact (hu.suffix :)
  | _ => exact List.suffix_rfl

theorem Decodes.suffix {d : Dec} {n : ℕ} {pc pc' : DecPc} (h : Decodes L d n s pc t pc') : s.log <:+ t.log := by
  cases h with
  | pop | sent | unsent | «show» | notify | pcm | pcmPush | drop => exact List.suffix_cons _ _
  | _ => exact List.suffix_rfl

theorem Seeks.suffix {r : Option SeekPc} (h : Seeks L pos f s pc t r) : s.log <:+ t.log := by
  cases h with
  | clear => exact (List.suffix_append ..).trans (List.suffix_cons _ _)
  | clearFrames => exact List.suffix_append ..
  | nothing | early | wanted | picture => exact s.readBy_suffix _
  | update hu => exact hu.suffix
  | done hu => exact (hu.suffix :)
  | reposition | skip | send | drop => exact List.suffix_cons _ _
  | _ => exact List.suffix_rfl

theorem Commands.suffix {c : Cmd} {cs cs' : List Cmd} (h : Commands L cs s c t cs') : s.log <:+ t.log := by
  cases h with
  | @spawn o => cases o <;> exact List.suffix_rfl
  | clear => exact (List.suffix_append ..).trans (List.suffix_cons _ _)
  | clearFrames => exact List.suffix_append ..
  | seek hk => exact hk.suffix
  | sought hk => exact hk.suffix
  | ret => exact List.suffix_cons _ _
  | _ => exact List.suffix_rfl

theorem Steps.suffix {a : Act} (h : Steps L s a t) : s.log <:+ t.log := by
  cases h with
  | demux hd => exact (hd.suffix :)
  | dec hd => exact (hd.suffix :)
  | ui _ hc => exact (hc.suffix :)
  | sync | request => exact List.suffix_cons _ _
  | call => exact List.suffix_append ..
  | _ => exact List.suffix_rfl

theorem suffix_since (h : s.log <:+ t.log) : t.log = since s t ++ s.log := by
  obtain ⟨new, hn⟩ := h
  rw [since, ← hn, List.length_append, Nat.add_sub_cancel, List.take_left' rfl]

/-- A run of the player after `Seek` has left its loop. -/
structure After (L : FFmpeg K) (t w : Player K) : Prop where
  plays : Plays L .video (t.output L .video) w
  playing : Underway w
  late : ∀ c ∈ w.ui, c.late = true
  track : w.track .audio = t.track .audio
  suffix : t.log <:+ w.log

theorem After.step (h : After L t s) {a : Act} (ha : Unasked a s) (hs : Steps L s a w) : After L t w := by
  have hon : PlaysOn .video a s := by
    cases a with
    | request c => exact absurd rfl (ha c)
    | demux n => exact fun _ => h.playing.isExit .video
    | _ => trivial
  obtain ⟨h1, h2⟩ := h.playing.step h.late ha hs
  exact ⟨h.plays.step hon hs, h1, h2, (h.plays.track h.playing h.late ha hs .audio).trans h.track,
    h.suffix.trans hs.suffix⟩

/-- The frames shown since, and those still to be shown. -/
theorem After.shown (h : After L t w) : shown t w ++ (w.future L .video).1 = (t.future L .video).1 := by
  have ho := congrArg Prod.fst h.plays.output
  have hn : w.notified .video = t.notified .video ++ Player.shown t w := by
    rw [Player.notified, suffix_since h.suffix, List.filterMap_append, List.reverse_append]
    rfl
  simp only [Player.output, hn, List.append_assoc] at ho
  exact List.append_cancel_left ho

/-- The audio packets taken since, and those still to be taken. -/
theorem After.reached (h : After L t w) : (reached t w).map XData.pts ++ w.line .audio = t.line .audio := by
  have ht := h.track
  have hn : (w.log.filterMap (Event.popped .audio)).reverse =
      (t.log.filterMap (Event.popped .audio)).reverse ++ Player.reached t w := by
    rw [suffix_since h.suffix, List.filterMap_append, List.reverse_append]
    rfl
  simp only [Player.track, hn, List.map_append, List.append_assoc] at ht
  exact List.append_cancel_left ht

/-! ### The end of the loop -/

/-- The frames that `vDecode` yields after the loop. -/
def next (L : FFmpeg K) (s : Player K) (T : ℤ) : List XData :=
  let o := (s.seekLoop L T (s.dec .video)).stop
  (L.machine.feed o.codec ((s.dec .video).packs.filterMap XData.sendable ++ o.demux.coming .video)).1.map
    (frameData ((o.codec.map (·.codec_type)).getD .unknown))

/-- The frames that `vDecode` yields from the beginning of the loop on, in their order. -/
def decoded (L : FFmpeg K) (s : Player K) (T : ℤ) : List XData :=
  (s.seekLoop L T (s.dec .video)).received ++ s.next L T

theorem seekLoop_total (s : Player K) (T : ℤ) (V : FFDecode K) :
    (s.seekLoop L T V).stop.demux.total = s.demux.total := by
  unfold seekLoop
  split
  · rfl
  · exact FFDemux.seekLoop_total ..

theorem seekLoop_pts (s : Player K) (T : ℤ) (V : FFDecode K) : (s.seekLoop L T V).stop.pts =
    (((s.seekLoop L T V).received.getLast?).map XData.pts).getD V.pts := by
  unfold seekLoop
  split
  · rfl
  · exact FFDemux.seekLoop_pts ..

theorem LoopAlone.late (hb : LoopAlone T s) (h : Orderly s) : ∀ c ∈ s.ui, c.late = true := by
  obtain ⟨pos, f, hui, -⟩ := hb.alone h
  rw [hui]
  exact List.forall_mem_cons.mpr ⟨rfl, seekEnd_late⟩

theorem seekEnd_starts : ∀ c ∈ seekEnd, c.starts = true := by
  simp [seekEnd, pauseCmds, Cmd.starts]

theorem seekEnd_spawns (o : Obj) : seekEnd.countP (Cmd.spawns o) = 0 := rfl

theorem Aiming.after {o : LoopStop K} {ps : List XData} (hA : Aiming L T o ps t .unlock) (h : Orderly t)
    (hp : Underway t) (ht : t.ui = seekEnd) : After L t t := by
  have hm : (t.demuxW 0).Kind := by
    have ho := hA.alone.demux 0
    generalize t.demuxW 0 = pc at ho
    cases pc with
    | update => cases ho
    | _ => trivial
  refine ⟨⟨h.holds, h.observed.spawned, ?_, ?_, fun d => ?_, ?_, fun d _ => hp.isExit d, fun _ => hp.isExit _,
    fun d => ?_, hm, rfl⟩, hp, ht ▸ seekEnd_late, rfl, List.suffix_rfl⟩
  · rw [ht]
    exact seekEnd_starts
  · rw [ht]
    simp [seekEnd, pauseCmds, Finds, SpawnsRunning]
  · rw [ht, seekEnd_spawns, seekEnd_spawns, hp.decN, hp.demuxN]
  · rw [ht, seekEnd_spawns, hp.demuxN]
  · cases d
    · exact hA.alone.video
    · exact hp.isAudio

theorem Aiming.ahead {o : LoopStop K} {ps : List XData} (hA : Aiming L T o ps t .unlock) (d : Dec) :
    (t.demuxW 0).ahead d = [] := by
  have ho := hA.alone.demux 0
  generalize t.demuxW 0 = pc at ho
  cases pc with
  | notify | update => cases ho
  | _ => rfl

theorem Aiming.future {o : LoopStop K} {ps : List XData} (hA : Aiming L T o ps t .unlock) :
    (t.future L .video).1 = (L.machine.feed o.codec (ps.filterMap XData.sendable ++ o.demux.coming .video)).1.map
      (frameData ((o.codec.map (·.codec_type)).getD .unknown)) := by
  have hr : ∀ ty, (t.decW .video 0).rest L ty (t.dec .video).codec = ([], (t.dec .video).codec) := by
    intro ty
    have ho := hA.alone.dec .video 0
    generalize t.decW .video 0 = pc at ho
    cases pc with
    | gone | exitTest | pauseTest => rfl
    | _ => cases ho
  obtain rfl : (⟨t.demux, (t.dec .video).codec, (t.dec .video).pts⟩ : LoopStop K) = o := hA.stop
  unfold Player.future Player.ahead
  rw [hr, hA.ahead, List.append_nil, hA.packs]
  rfl

theorem Aiming.line {o : LoopStop K} {ps : List XData} (hA : Aiming L T o ps t .unlock) :
    t.line .audio = (t.dec .audio).packs.map XData.pts ++ o.demux.comingPts .audio := by
  obtain rfl : (⟨t.demux, (t.dec .video).codec, (t.dec .video).pts⟩ : LoopStop K) = o := hA.stop
  unfold Player.line
  rw [hA.ahead, List.append_nil]

theorem Aiming.playPos {o : LoopStop K} {ps : List XData} (hA : Aiming L T o ps t .unlock) :
    t.playPos = if 0 < o.demux.total then (o.pts : ℚ) / o.demux.total else 0 := by
  obtain rfl : (⟨t.demux, (t.dec .video).codec, (t.dec .video).pts⟩ : LoopStop K) = o := hA.stop
  rfl

/-! ### The target -/

/-- `Seek` from `s` to `t` has landed on its target, as far as the run goes on to `w`. -/
structure SeekLands (L : FFmpeg K) (T : ℤ) (s t w : Player K) : Prop where
  first : (shown t w).head? =
    ((s.seekLoop L T (s.dec .video)).received ++ shown t w).find? fun f => decide (T ≤ f.pts)
  position : (T : ℚ) / t.demux.total ≤ t.playPos
  audio : ∀ x ∈ reached t w, T ≤ x.pts

/-- The loop is left without a frame, and the target is not after the position of `vDecode`; what comes next is not
before the target. -/
structure OnTarget (L : FFmpeg K) (T : ℤ) (s : Player K) : Prop where
  before : ∀ f ∈ (s.seekLoop L T (s.dec .video)).received, f.pts < T
  unmoved : (s.seekLoop L T (s.dec .video)).received = [] ∨ s.demux.total ≤ 0
  position : (T : ℚ) / s.demux.total ≤ s.playPos
  frame : ∀ f ∈ (s.next L T).head?, T ≤ f.pts
  audio : ∀ pts ∈ (s.seekLoop L T (s.dec .video)).stop.demux.comingPts .audio, T ≤ pts

end Player

/-- In a sequence without repetitions, the first element after a part of it is the first one with `p` if there is none
in that part. -/
theorem head?_eq_find?_append {α : Type*} {r : α → α → Prop} (hr : ∀ a, ¬ r a a) {p : α → Bool} {R F : List α}
    (h : (R ++ F).Pairwise r) :
    F.head? = (R ++ F).find? p ↔ (∀ a ∈ R, p a = false) ∧ ∀ a ∈ F.head?, p a = true := by
  rw [List.find?_append]
  refine ⟨fun he => ?_, fun ⟨h1, h2⟩ => ?_⟩
  · rcases hR : R.find? p with _ | a
    · rw [hR, Option.none_or] at he
      refine ⟨fun a ha => by simpa using List.find?_eq_none.mp hR a ha, fun a ha => ?_⟩
      exact List.find?_some (he.symm.trans ha)
    · rw [hR, Option.some_or] at he
      have haR : a ∈ R := List.mem_of_find?_eq_some hR
      have haF : a ∈ F := List.mem_of_mem_head? he
      exact absurd ((List.pairwise_append.mp h).2.2 a haR a haF) (hr a)
  · rw [List.find?_eq_none.mpr fun a ha => by simp [h1 a ha], Option.none_or]
    cases F with
    | nil => rfl
    | cons a F => rw [List.find?_cons_of_pos (h2 a rfl), List.head?_cons]

namespace Player
variable {s t w : Player K} {pos : ℚ} {f : SeekFrame} {T : ℤ}

theorem Ended.line (h : Ended s) (d : Dec) : s.line d = [] := by
  unfold Player.line FFDemux.comingPts
  rw [h.packs, h.demux_ahead, h.coming]
  rfl

theorem Ended.future (h : Ended s) (L : FFmpeg K) (d : Dec) : (s.future L d).1 = [] :=
  List.append_cancel_left ((congrArg Prod.fst (h.output L d)).trans (List.append_nil _).symm)

/-- `vDecode` is where it was, or there is no position to speak of. -/
theorem Aiming.playPos_eq (hA : Aiming L T (s.seekLoop L T (s.dec .video)).stop (s.dec .video).packs t .unlock)
    (hu : (s.seekLoop L T (s.dec .video)).received = [] ∨ s.demux.total ≤ 0) : t.playPos = s.playPos := by
  rw [hA.playPos, seekLoop_total, Player.playPos]
  rcases hu with hu | hu
  · rw [seekLoop_pts, hu]
    rfl
  · rw [if_neg (not_lt.mpr hu), if_neg (not_lt.mpr hu)]

/-- After a frame before the target, the position is before the target. -/
theorem Aiming.unmoved (hA : Aiming L T (s.seekLoop L T (s.dec .video)).stop (s.dec .video).packs t .unlock)
    (hb : ∀ f ∈ (s.seekLoop L T (s.dec .video)).received, f.pts < T) (hp : (T : ℚ) / s.demux.total ≤ t.playPos) :
    (s.seekLoop L T (s.dec .video)).received = [] ∨ s.demux.total ≤ 0 := by
  by_contra hn
  obtain ⟨hne, ht⟩ := not_or.mp hn
  have ht : 0 < s.demux.total := not_le.mp ht
  rw [hA.playPos, seekLoop_total, if_pos ht, seekLoop_pts, List.getLast?_eq_getLast_of_ne_nil hne] at hp
  have htq : (0 : ℚ) < s.demux.total := by exact_mod_cast ht
  rw [div_le_div_iff_of_pos_right htq] at hp
  have hle : T ≤ ((s.seekLoop L T (s.dec .video)).received.getLast hne).pts := by exact_mod_cast hp
  exact absurd (hb _ (List.getLast_mem hne)) (not_lt.mpr hle)

theorem OnTarget.lands (h : OnTarget L T s)
    (hA : Aiming L T (s.seekLoop L T (s.dec .video)).stop (s.dec .video).packs t .unlock) (hw : After L t w) :
    SeekLands L T s t w := by
  refine ⟨?_, ?_, fun x hx => ?_⟩
  · have hsh : Player.shown t w ++ (w.future L .video).1 = s.next L T := hw.shown.trans hA.future
    rw [List.find?_append, List.find?_eq_none.mpr fun f hf => by simp [h.before f hf], Option.none_or]
    rcases hs : Player.shown t w with _ | ⟨g, gs⟩
    · rfl
    · rw [hs] at hsh
      have hg : T ≤ g.pts := h.frame g (by rw [← hsh]; rfl)
      simp [hg]
  · have ht : t.demux.total = s.demux.total := by
      rw [← seekLoop_total (L := L) s T (s.dec .video), ← hA.stop]
      rfl
    rw [ht, hA.playPos_eq h.unmoved]
    exact h.position
  · have hr := hw.reached
    have hm : x.pts ∈ t.line .audio := by
      rw [← hr]
      exact List.mem_append_left _ (List.mem_map_of_mem hx)
    rw [hA.line, List.mem_append] at hm
    rcases hm with hm | hm
    · obtain ⟨y, hy, he⟩ := List.mem_map.mp hm
      exact he ▸ hA.queued y hy
    · exact h.audio _ hm

theorem SeekLands.onTarget (h : SeekLands L T s t w)
    (hA : Aiming L T (s.seekLoop L T (s.dec .video)).stop (s.dec .video).packs t .unlock) (hw : After L t w)
    (he : w.Ended) (hinc : (s.decoded L T).Pairwise fun f g => f.pts < g.pts) : OnTarget L T s := by
  have hsh : Player.shown t w = s.next L T := by
    have hs := hw.shown.trans hA.future
    rw [he.future, List.append_nil] at hs
    exact hs
  have hf := h.first
  rw [hsh, head?_eq_find?_append (r := fun f g => f.pts < g.pts) (fun f => lt_irrefl f.pts) hinc] at hf
  have hb : ∀ f ∈ (s.seekLoop L T (s.dec .video)).received, f.pts < T := fun f hm => by simpa using hf.1 f hm
  have ht : t.demux.total = s.demux.total := by
    rw [← seekLoop_total (L := L) s T (s.dec .video), ← hA.stop]
    rfl
  have hp := h.position
  rw [ht] at hp
  have hu := hA.unmoved hb hp
  refine ⟨hb, hu, (hA.playPos_eq hu) ▸ hp, fun f hm => by simpa using hf.2 f hm, fun pts hm => ?_⟩
  have hr := hw.reached
  rw [he.line, List.append_nil, hA.line] at hr
  have hm : pts ∈ (Player.reached t w).map XData.pts := hr ▸ List.mem_append_right _ hm
  obtain ⟨x, hx, rfl⟩ := List.mem_map.mp hm
  exact h.audio x hx

theorem LoopAlone.after (hb : LoopAlone T s) (h : (player L).Reach Sys.any s) (hp : Underway s)
    (hr : (player L).Run Unasked s t) (ht : t.ui = seekEnd) (hw : (player L).Run Unasked t w) : After L t w := by
  have hO : Orderly s := reach_orderly h
  have hOt : Orderly t := reach_orderly (h.run (hr.mono fun _ _ _ => trivial))
  have hI := hr.inv (I := fun u => Underway u ∧ ∀ c ∈ u.ui, c.late = true) ⟨hp, hb.late hO⟩
    fun a u v hI ha hs => hI.1.step hI.2 ha (steps hs)
  exact hw.inv ((hb.stopped (L := L) hO hr ht).after hOt hI.1 ht) fun a u v hI ha hs => hI.step ha (steps hs)

end Player

open Player

/-- `SetPause(false)`, and the steps of `demux`, `vDecode` and `aDecode` one after the other. -/
def playOn (n m k : ℕ) : List Act :=
  List.replicate 8 .ui ++ List.replicate n (.demux 0) ++ List.replicate m (.dec .video 0) ++
    List.replicate k (.dec .audio 0)

theorem playOn_unasked (n m k : ℕ) : ∀ a ∈ playOn n m k, ∀ s : Player K, Unasked a s := by
  rintro a ha s c rfl
  simp only [playOn, List.mem_append, List.mem_replicate] at ha
  rcases ha with ((⟨-, ha⟩ | ⟨-, ha⟩) | ⟨-, ha⟩) | ⟨-, ha⟩ <;> cases ha

/-- What the examples check. -/
def underway (s : Player K) : Bool :=
  decide (s.demuxN = 1) && decide (s.decN .video = 1) && decide (s.decN .audio = 1) &&
    !s.isExit (.dec .video) && !s.isExit (.dec .audio) && (s.dec .audio).isAudio

theorem underway_iff {s : Player K} : underway s = true ↔ Underway s := by
  simp only [underway, Bool.and_eq_true, decide_eq_true_eq, Bool.not_eq_true']
  refine ⟨fun ⟨⟨⟨⟨⟨h1, h2⟩, h3⟩, h4⟩, h5⟩, h6⟩ => ⟨h1, fun d => ?_, fun d => ?_, h6⟩,
    fun h => ⟨⟨⟨⟨⟨h.demuxN, h.decN _⟩, h.decN _⟩, h.isExit _⟩, h.isExit _⟩, h.isAudio⟩⟩
  · cases d
    · exact h2
    · exact h3
  · cases d
    · exact h4
    · exact h5

def loopAlone (T : ℤ) (s : Player K) : Bool :=
  loopBegun T s && decide (∀ n < s.demuxN, (s.demuxW n).outside = true) && (s.dec .audio).packs.isEmpty

theorem loopAlone_iff {T : ℤ} {s : Player K} : loopAlone T s = true ↔ LoopAlone T s := by
  simp only [loopAlone, Bool.and_eq_true, decide_eq_true_eq, List.isEmpty_iff, loopBegun_iff]
  exact ⟨fun ⟨⟨h1, h2⟩, h3⟩ => ⟨h1, h2, h3⟩, fun h => ⟨⟨h.toLoopBegun, h.demux⟩, h.empty⟩⟩

/-- The timestamps of the frames that the loop receives, of those that follow, of the frames shown, and of the audio
packets. -/
def timestamps (s t w : Player (List AVFrame)) : List (List ℤ) :=
  let o := s.seekLoop bytewise 0 (s.dec .video)
  [o.received, s.next bytewise 0, shown t w, reached t w].map (List.map XData.pts) ++ [o.stop.demux.comingPts .audio]

/-- `Seek(0)` with the packets `ps` to read: its loop in `n` steps, and `playOn` to the end of the file. -/
theorem seekTo_played (ps : List AVPacket) (n : ℕ) (as : List Act) (ls : List (List ℤ))
    (ha : ∀ a ∈ as, ∀ s : Player (List AVFrame), Unasked a s)
    (hr : ((player bytewise).exec (seekTo ps) { demux := { total := 0 } }).bind (fun s =>
      ((player bytewise).exec (List.replicate n .ui) s).bind fun t => ((player bytewise).exec as t).map fun w =>
        (loopAlone 0 s && underway s && decide (t.ui.length = 8) && w.ended && decide ((s.dec .video).pts = 0) &&
          !(s.seekLoop bytewise 0 (s.dec .video)).ended, timestamps s t w)) = some (true, ls)) :
    ∃ s t w : Player (List AVFrame), (player bytewise).Reach Sys.any s ∧ Underway s ∧ LoopAlone 0 s ∧
      (player bytewise).Run Unasked s t ∧ t.ui = seekEnd ∧ (player bytewise).Run Unasked t w ∧ w.Ended ∧
      (s.seekLoop bytewise 0 (s.dec .video)).ended = false ∧ (s.dec .video).pts = 0 ∧ timestamps s t w = ls := by
  obtain ⟨s, hs, hr⟩ := Option.bind_eq_some_iff.mp hr
  obtain ⟨t, ht, hr⟩ := Option.bind_eq_some_iff.mp hr
  obtain ⟨w, hw, he⟩ := Option.map_eq_some_iff.mp hr
  simp only [Prod.mk.injEq, Bool.and_eq_true, Bool.not_eq_true', decide_eq_true_eq, loopAlone_iff, underway_iff] at he
  obtain ⟨⟨⟨⟨⟨⟨hb, hu⟩, hl⟩, he⟩, hp⟩, hends⟩, hls⟩ := he
  have hreach : (player bytewise).Reach Sys.any s := ⟨_, ⟨0, rfl⟩, .of_exec_any hs⟩
  have hst : (player bytewise).Run Unasked s t := .of_exec (fun a ha _ c hc => by
    rw [List.eq_of_mem_replicate ha] at hc
    cases hc) ht
  have htw : (player bytewise).Run Unasked t w := .of_exec ha hw
  have hui := hb.left (reach_orderly hreach) hst hl
  exact ⟨s, t, w, hreach, hu, hb, hst, hui, htw, (hb.after hreach hu hst hui htw).plays.ended he, hends, hp, hls⟩

theorem playPos_zero {s : Player K} (h : (s.dec .video).pts = 0) : s.playPos = 0 := by
  unfold playPos
  rw [h, Int.cast_zero, zero_div, ite_self]

end XPlayer
