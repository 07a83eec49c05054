import XPlayer.SeekReturns

/-!
# Where the loop of `Seek` stops

The loop of `Seek` as a function of the packets and of the codec (`FFDemux.seekLoop`): where it leaves the container
and `vDecode`, and the frames it receives. In a run of the player, with the workers paused outside of their loop
bodies, `Seek` leaves its loop there, and the audio packets it has passed on are not before the target
(`LoopAlone.stopped`).
-/

namespace XPlayer
variable {K : Type} {L : FFmpeg K}

/-! ### What the loop comes to -/

/-- Where the loop leaves the demuxer and `vDecode`. -/
structure LoopStop (K : Type) where
  demux : FFDemux
  codec : Option (AVCodecContext K)
  pts : ℤ

/-- The loop of `Seek`: where it stops, the frames it receives, and whether it stops at the end of the container. -/
structure LoopOutcome (K : Type) where
  stop : LoopStop K
  received : List XData
  ended : Bool

/-- The loop with at most `n` packets to read, `V` being `vDecode`. -/
def FFDemux.seekLoop (L : FFmpeg K) (T : ℤ) : ℕ → FFDemux → FFDecode K → LoopOutcome K
  | 0, D, V => ⟨⟨D, V.codec, V.pts⟩, [], true⟩
  | n + 1, D, V =>
    let x := (D.read 0).1
    let D' := (D.read 0).2
    if x.size ≤ 0 then ⟨⟨D', V.codec, V.pts⟩, [], false⟩
    else if x.isAudio then seekLoop L T n D' V
    else
      let r := (V.sendPacket L x).2.recvFrame L
      let o := if r.1.wanted T then ⟨⟨D', r.2.codec, r.2.pts⟩, [], false⟩ else seekLoop L T n D' r.2
      { o with received := if r.1.data = .null then o.received else r.1 :: o.received }

theorem FFDecode.recvFrame_position (V : FFDecode K) : (V.recvFrame L).2.pts =
    if (V.recvFrame L).1.data = .null then V.pts else (V.recvFrame L).1.pts := by
  split
  · exact recvFrame_null ‹_›
  · exact (recvFrame_pts ‹_›).symm

theorem FFDecode.recvFrame_same {V V' : FFDecode K} (hV : V.codec = V'.codec) (hp : V.pts = V'.pts) :
    (V.recvFrame L).1 = (V'.recvFrame L).1 ∧ (V.recvFrame L).2.codec = (V'.recvFrame L).2.codec ∧
      (V.recvFrame L).2.pts = (V'.recvFrame L).2.pts := by
  obtain ⟨h1, h2⟩ := recvFrame_congr (L := L) hV
  exact ⟨h1, h2, by rw [recvFrame_position, recvFrame_position, h1, hp]⟩

theorem FFDecode.sendRecv_same {V V' : FFDecode K} {x y : XData} (hV : V.codec = V'.codec) (hp : V.pts = V'.pts)
    (hx : x.sendable = y.sendable) : ((V.sendPacket L x).2.recvFrame L).1 = ((V'.sendPacket L y).2.recvFrame L).1 ∧
      ((V.sendPacket L x).2.recvFrame L).2.codec = ((V'.sendPacket L y).2.recvFrame L).2.codec ∧
      ((V.sendPacket L x).2.recvFrame L).2.pts = ((V'.sendPacket L y).2.recvFrame L).2.pts :=
  recvFrame_same (sendPacket_congr hV hx) (by rw [sendPacket_pts, sendPacket_pts, hp])

/-- Only the codec and the position of `vDecode` matter. -/
theorem FFDemux.seekLoop_congr (T : ℤ) (n : ℕ) (D : FFDemux) {V V' : FFDecode K} (hV : V.codec = V'.codec)
    (hp : V.pts = V'.pts) : seekLoop L T n D V = seekLoop L T n D V' := by
  induction n generalizing D V V' with
  | zero => simp only [seekLoop, hV, hp]
  | succ n ih =>
    obtain ⟨h1, h2, h3⟩ := FFDecode.sendRecv_same (L := L) (x := (D.read 0).1) hV hp rfl
    simp only [seekLoop, h1, h2, h3, hV, hp, ih _ hV hp, ih _ h2 h3]

/-- The next packet, whatever its handle is. -/
theorem FFDemux.seekLoop_read (T : ℤ) (D : FFDemux) (V : FFDecode K) (h : ℕ) (hne : D.unread ≠ []) :
    (seekLoop L T D.unread.length D V).stop =
      if (D.read h).1.size ≤ 0 then ⟨(D.read h).2, V.codec, V.pts⟩
      else if (D.read h).1.isAudio then (seekLoop L T (D.read h).2.unread.length (D.read h).2 V).stop
      else if ((V.sendPacket L (D.read h).1).2.recvFrame L).1.wanted T then
        ⟨(D.read h).2, ((V.sendPacket L (D.read h).1).2.recvFrame L).2.codec,
          ((V.sendPacket L (D.read h).1).2.recvFrame L).2.pts⟩
      else (seekLoop L T (D.read h).2.unread.length (D.read h).2
        ((V.sendPacket L (D.read h).1).2.recvFrame L).2).stop := by
  obtain ⟨hx, hD⟩ := D.read_alike h 0
  obtain ⟨h1, h2, h3⟩ := FFDecode.sendRecv_same (L := L) (V := V) rfl rfl hx.sendable
  simp only [D.length_unread_read h hne, seekLoop, hx.size, hx.isAudio, h1, h2, h3, hD, seekLoop_congr T _ _ h2 h3]
  split_ifs <;> rfl

theorem FFDemux.read_total (D : FFDemux) (h : ℕ) : (D.read h).2.total = D.total := by
  unfold read
  split
  · rfl
  · split
    · rfl
    · split_ifs <;> rfl

theorem FFDemux.seekLoop_total (T : ℤ) (n : ℕ) (D : FFDemux) (V : FFDecode K) :
    (seekLoop L T n D V).stop.demux.total = D.total := by
  induction n generalizing D V with
  | zero => rfl
  | succ n ih =>
    simp only [seekLoop]
    split_ifs <;> simp only [ih, read_total]

/-- `vDecode` is at the frame that it yielded last. -/
theorem FFDemux.seekLoop_pts (T : ℤ) (n : ℕ) (D : FFDemux) (V : FFDecode K) : (seekLoop L T n D V).stop.pts =
    (((seekLoop L T n D V).received.getLast?).map XData.pts).getD V.pts := by
  induction n generalizing D V with
  | zero => rfl
  | succ n ih =>
    simp only [seekLoop]
    split_ifs with h1 h2 h3 h4 h4
    · rfl
    · exact ih _ _
    · rw [FFDecode.recvFrame_position, if_pos h4, sendPacket_pts]
      rfl
    · rw [FFDecode.recvFrame_position, if_neg h4]
      rfl
    · rw [ih, FFDecode.recvFrame_position, if_pos h4, sendPacket_pts]
    · rw [ih, FFDecode.recvFrame_position, if_neg h4, List.getLast?_cons]
      cases (seekLoop L T n (D.read 0).2 ((V.sendPacket L (D.read 0).1).2.recvFrame L).2).received.getLast? <;> rfl

namespace Player
variable {s t w : Player K} {pos : ℚ} {f : SeekFrame} {pc pc' : SeekPc} {T : ℤ}

/-- The loop from its test of `isExit` on. -/
def seekLoop (L : FFmpeg K) (s : Player K) (T : ℤ) (V : FFDecode K) : LoopOutcome K :=
  if s.isExit .player then ⟨⟨s.demux, V.codec, V.pts⟩, [], false⟩
  else s.demux.seekLoop L T s.demux.unread.length V

end Player

/-- Where the loop will stop from `pc` on. -/
def SeekPc.stop (L : FFmpeg K) (s : Player K) : SeekPc → LoopStop K
  | .exitTest T | .skip T _ | .notify T _ | .update T _ => (s.seekLoop L T (s.dec .video)).stop
  | .read T => (s.demux.seekLoop L T s.demux.unread.length (s.dec .video)).stop
  | .send T x =>
    let r := ((s.dec .video).sendPacket L x).2.recvFrame L
    if r.1.wanted T then ⟨s.demux, r.2.codec, r.2.pts⟩ else (s.seekLoop L T r.2).stop
  | .drop T _ | .recv T =>
    let r := (s.dec .video).recvFrame L
    if r.1.wanted T then ⟨s.demux, r.2.codec, r.2.pts⟩ else (s.seekLoop L T r.2).stop
  | _ => ⟨s.demux, (s.dec .video).codec, (s.dec .video).pts⟩

/-- The target of the loop, and a packet in hand that is not before it. -/
def SeekPc.Aims (T : ℤ) : SeekPc → Prop
  | .exitTest T' | .read T' | .skip T' _ | .send T' _ | .drop T' _ | .recv T' => T' = T
  | .notify T' x => T' = T ∧ T ≤ x.pts
  | .update T' u => T' = T ∧ T ≤ u.packet.pts
  | _ => True

namespace Player
variable {s t w : Player K} {pos : ℚ} {f : SeekFrame} {pc pc' : SeekPc} {T : ℤ}

/-! ### The steps of the loop -/

theorem seekLoop_congr (hD : t.demux = s.demux) (hF : t.flags = s.flags) {V V' : FFDecode K} (hV : V.codec = V'.codec)
    (hp : V.pts = V'.pts) : t.seekLoop L T V = s.seekLoop L T V' := by
  unfold seekLoop
  rw [isExit_congr hF, hD, FFDemux.seekLoop_congr T _ _ hV hp, hV, hp]

theorem stop_congr (hD : t.demux = s.demux) (hF : t.flags = s.flags)
    (hV : (t.dec .video).codec = (s.dec .video).codec) (hp : (t.dec .video).pts = (s.dec .video).pts) (pc : SeekPc) :
    pc.stop L t = pc.stop L s := by
  cases pc with
  | exitTest | skip | notify | update => exact congrArg LoopOutcome.stop (seekLoop_congr hD hF hV hp)
  | read T =>
    show (t.demux.seekLoop L T t.demux.unread.length (t.dec .video)).stop = _
    rw [hD, FFDemux.seekLoop_congr T _ _ hV hp]
    rfl
  | send T x =>
    obtain ⟨h1, h2, h3⟩ := FFDecode.sendRecv_same (L := L) (x := x) hV hp rfl
    simp only [SeekPc.stop, h1, h2, h3, hD, seekLoop_congr hD hF h2 h3]
  | drop | recv =>
    obtain ⟨h1, h2, h3⟩ := FFDecode.recvFrame_same (L := L) hV hp
    simp only [SeekPc.stop, h1, h2, h3, hD, seekLoop_congr hD hF h2 h3]
  | _ => simp only [SeekPc.stop, hD, hV, hp]

theorem stop_readBy (hx : 0 < (s.readBy .ui).1.size) (V : FFDecode K) :
    (s.demux.seekLoop L T s.demux.unread.length V).stop =
      if (s.readBy .ui).1.isAudio then
        ((s.readBy .ui).2.demux.seekLoop L T (s.readBy .ui).2.demux.unread.length V).stop
      else if ((V.sendPacket L (s.readBy .ui).1).2.recvFrame L).1.wanted T then
        ⟨(s.readBy .ui).2.demux, ((V.sendPacket L (s.readBy .ui).1).2.recvFrame L).2.codec,
          ((V.sendPacket L (s.readBy .ui).1).2.recvFrame L).2.pts⟩
      else ((s.readBy .ui).2.demux.seekLoop L T (s.readBy .ui).2.demux.unread.length
        ((V.sendPacket L (s.readBy .ui).1).2.recvFrame L).2).stop := by
  obtain ⟨hne, hx⟩ := readBy_next hx
  rw [FFDemux.seekLoop_read T s.demux V s.fresh hne, if_neg hx, readBy_eq]
  rfl

theorem seekLoop_readBy (hx : s.isExit .player = false) (V : FFDecode K) : (s.readBy .ui).2.seekLoop L T V =
    (s.readBy .ui).2.demux.seekLoop L T (s.readBy .ui).2.demux.unread.length V := by
  rw [seekLoop, isExit_congr (s.readBy_still .ui).2, if_neg (Bool.eq_false_iff.mp hx)]

/-- A step of the loop does not change where it will stop. -/
theorem Seeks.stop (h : Seeks L pos f s pc t (some pc')) (hl : s.Place pc) : pc'.stop L t = pc.stop L s := by
  obtain ⟨hrd, hrf⟩ := s.readBy_still .ui
  cases h with
  | lock | clear | flush | clearFrames | reposition | rejected | target => cases hl
  | @exit T hx =>
    show _ = (s.seekLoop L T (s.dec .video)).stop
    rw [seekLoop, if_pos hx]
    rfl
  | @more T hx =>
    show _ = (s.seekLoop L T (s.dec .video)).stop
    rw [seekLoop, if_neg (by rw [hx]; simp)]
    rfl
  | @nothing T hx =>
    show (⟨(s.readBy .ui).2.demux, ((s.readBy .ui).2.dec .video).codec, ((s.readBy .ui).2.dec .video).pts⟩ :
      LoopStop K) = (s.demux.seekLoop L T s.demux.unread.length (s.dec .video)).stop
    rw [hrd, readBy_eq]
    by_cases hn : s.demux.unread = []
    · simp only [hn, FFDemux.read_nil _ hn]
      rfl
    · have hx : (s.demux.read s.fresh).1.size ≤ 0 := hx
      rw [FFDemux.seekLoop_read T s.demux _ s.fresh hn, if_pos hx]
  | @early T hx ha hp =>
    show ((s.readBy .ui).2.seekLoop L T ((s.readBy .ui).2.dec .video)).stop =
      (s.demux.seekLoop L T s.demux.unread.length (s.dec .video)).stop
    rw [seekLoop_readBy hl, stop_readBy hx, if_pos ha, hrd]
  | @wanted T hx ha hp =>
    show ((s.readBy .ui).2.seekLoop L T ((s.readBy .ui).2.dec .video)).stop =
      (s.demux.seekLoop L T s.demux.unread.length (s.dec .video)).stop
    rw [seekLoop_readBy hl, stop_readBy hx, if_pos ha, hrd]
  | @picture T hx ha =>
    let r := (((s.readBy .ui).2.dec .video).sendPacket L (s.readBy .ui).1).2.recvFrame L
    show (if r.1.wanted T then _ else ((s.readBy .ui).2.seekLoop L T r.2).stop) =
      (s.demux.seekLoop L T s.demux.unread.length (s.dec .video)).stop
    have hna : ¬ (s.readBy .ui).1.isAudio = true := by rw [ha]; exact Bool.false_ne_true
    rw [seekLoop_readBy hl, stop_readBy hx, if_neg hna]
    simp only [r, hrd]
  | skip | notify => rfl
  | update hu =>
    exact stop_congr (by rw [updates_eq hu]) (by rw [updates_eq hu]) (congrArg FFDecode.codec (hu.dec_fields .video) :)
      (congrArg FFDecode.pts (hu.dec_fields .video) :) (.exitTest _)
  | done hu =>
    exact stop_congr (by rw [updates_eq hu]) (by rw [updates_eq hu]) (congrArg FFDecode.codec (hu.dec_fields .video) :)
      (congrArg FFDecode.pts (hu.dec_fields .video) :) (.exitTest _)
  | @send T x =>
    let V := ((s.dec .video).sendPacket L x).2
    show (if (((s.setDec .video V).dec .video).recvFrame L).1.wanted T then _ else
      ((s.setDec .video V).seekLoop L T (((s.setDec .video V).dec .video).recvFrame L).2).stop) = _
    rw [setDec_self]
    rfl
  | drop => rfl
  | @found T hx hp =>
    let V := ((s.dec .video).recvFrame L).2
    show (⟨s.demux, ((s.setDec .video V).dec .video).codec, ((s.setDec .video V).dec .video).pts⟩ : LoopStop K) =
      if ((s.dec .video).recvFrame L).1.wanted T then _ else _
    rw [if_pos (by simp [XData.wanted, hx, hp]), setDec_self]
  | @before T hx =>
    let V := ((s.dec .video).recvFrame L).2
    show ((s.setDec .video V).seekLoop L T ((s.setDec .video V).dec .video)).stop =
      if ((s.dec .video).recvFrame L).1.wanted T then _ else (s.seekLoop L T V).stop
    rw [setDec_self, if_neg]
    · rfl
    · simp only [XData.wanted, Bool.and_eq_true, decide_eq_true_eq, not_and, not_le]
      omega

/-- `Seek` is at `pc` of its loop, and all workers are paused, outside of their loop bodies. -/
structure Alone (s : Player K) (pc : SeekPc) : Prop where
  paused : ∀ o, s.isPause o = true
  demux : ∀ n, (s.demuxW n).outside = true
  dec : ∀ d n, (s.decW d n).outside = true
  video : (s.dec .video).isAudio = false
  place : s.Place pc

theorem Alone.seek (h : Alone s pc) (hk : Seeks L pos f s pc t (some pc')) : Alone t pc' where
  paused o := (isPause_congr (congrArg Player.flags hk.eq :) o).trans (h.paused o)
  demux := (congrArg Player.demuxW hk.eq :) ▸ h.demux
  dec := (congrArg Player.decW hk.eq :) ▸ h.dec
  video := (congrFun (congrArg Intake.isAudio (hk.intake h.place)) .video :).trans h.video
  place := hk.place h.place h.video

theorem Demuxes.only {n : ℕ} {pc pc' : DemuxPc} (h : Demuxes n s pc t pc') (hp : s.isPause .demux = true)
    (ho : pc.outside = true) : t = s := by
  cases h with
  | exit | more | paused => rfl
  | run hp' => exact absurd (hp'.symm.trans hp) Bool.false_ne_true
  | _ => cases ho

/-- The other threads go on to poll. -/
theorem Alone.still (h : Alone s pc) {a : Act} (hs : Steps L s a t) (ha : a ≠ .ui) (hui : s.ui ≠ []) : Calm s t := by
  cases hs with
  | @demux n u pc' hd =>
    obtain rfl := hd.only (h.paused .demux) (h.demux n)
    exact ⟨rfl, rfl, rfl, fun _ => rfl⟩
  | @dec d n u pc' hd =>
    obtain rfl := hd.only (h.paused (.dec d)) (h.dec d n)
    exact ⟨rfl, rfl, rfl, fun _ => rfl⟩
  | sync =>
    refine ⟨rfl, rfl, rfl, fun d => ?_⟩
    cases d <;> simp [setDec, emit, setSync]
  | ui => exact absurd rfl ha
  | request he => exact absurd he hui
  | syncExit | syncMore | device | call => exact ⟨rfl, rfl, rfl, fun _ => rfl⟩

theorem Alone.other (h : Alone s pc) {a : Act} (hs : Steps L s a t) (ha : a ≠ .ui) (hui : s.ui ≠ []) : Alone t pc := by
  have hS := h.still hs ha hui
  have hv : ∀ d, (t.dec d).isAudio = (s.dec d).isAudio := fun d => (congrArg FFDecode.isAudio (hS.dec d) :)
  refine ⟨fun o => (isPause_congr hS.flags o).trans (h.paused o), fun n => ?_, hs.dec_outside ha h.paused h.dec,
    (hv _).trans h.video, h.place.congr hS.flags (hv _)⟩
  cases hs with
  | @demux m u pc' hd =>
    show (Function.update u.demuxW m pc' n).outside = true
    rw [Function.update_apply, (congrArg Player.demuxW hd.eq :)]
    split_ifs
    · exact hd.outside (h.paused .demux) (h.demux m)
    · exact h.demux n
  | @dec d m u pc' hd =>
    show (u.demuxW n).outside = true
    rw [(congrArg Player.demuxW hd.eq :)]
    exact h.demux n
  | ui => exact absurd rfl ha
  | _ => exact h.demux n

/-- `Seek` is in its loop at `pc`: it will stop at `o`, and passes no audio packet before the target on; `ps` is the
queue of `vDecode`. -/
structure Aiming (L : FFmpeg K) (T : ℤ) (o : LoopStop K) (ps : List XData) (s : Player K) (pc : SeekPc) : Prop where
  alone : Alone s pc
  stop : pc.stop L s = o
  inHand : pc.Aims T
  queued : ∀ x ∈ (s.dec .audio).packs, T ≤ x.pts
  packs : (s.dec .video).packs = ps

variable {o : LoopStop K} {ps : List XData}

theorem Updates.queued {u : UpdatePc} {r : Option UpdatePc} (h : Updates .ui s u t r) (hu : T ≤ u.packet.pts)
    (hq : ∀ x ∈ (s.dec .audio).packs, T ≤ x.pts) :
    (∀ x ∈ (t.dec .audio).packs, T ≤ x.pts) ∧ ∀ u', r = some u' → T ≤ u'.packet.pts := by
  cases h with
  | @push d x =>
    refine ⟨fun y hy => ?_, fun u' he => ?_⟩
    · cases d with
      | video => exact hq y hy
      | audio =>
        have hd : ((s.pushed .ui .audio x).dec .audio).packs = (s.dec .audio).packs ++ [x] := by
          simp [pushed, emit, setDec]
        rw [hd, List.mem_append, List.mem_singleton] at hy
        rcases hy with hy | rfl
        · exact hq y hy
        · exact hu
    · cases d <;> cases he
      exact hu
  | @skip d x | @lost d x =>
    refine ⟨hq, fun u' he => ?_⟩
    cases d <;> cases he
    exact hu
  | accept | go | full =>
    refine ⟨hq, fun u' he => ?_⟩
    cases he
    exact hu

theorem Updates.video {u : UpdatePc} {r : Option UpdatePc} (h : Updates .ui s u t r) (hl : s.Place (.update T u)) :
    t.dec .video = s.dec .video := by
  cases h with
  | push =>
    obtain ⟨rfl, -⟩ : _ = Dec.audio ∧ _ := hl
    simp [pushed, emit, setDec]
  | _ => rfl

theorem Aiming.seek (h : Aiming L T o ps s pc) (hk : Seeks L pos f s pc t (some pc')) : Aiming L T o ps t pc' := by
  have hl := h.alone.seek hk
  have hs := (hk.stop h.alone.place).trans h.stop
  have hp := h.alone.place
  have hi := h.inHand
  obtain ⟨hrd, -⟩ := s.readBy_still .ui
  cases hk with
  | lock | clear | flush | clearFrames | reposition | rejected | target => cases hp
  | exit => exact ⟨hl, hs, trivial, h.queued, h.packs⟩
  | nothing => exact ⟨hl, hs, trivial, hrd ▸ h.queued, hrd ▸ h.packs⟩
  | early | picture => exact ⟨hl, hs, hi, hrd ▸ h.queued, hrd ▸ h.packs⟩
  | wanted _ _ hx =>
    cases (hi : _ = T)
    exact ⟨hl, hs, ⟨rfl, hx⟩, hrd ▸ h.queued, hrd ▸ h.packs⟩
  | more | skip | notify | drop => exact ⟨hl, hs, hi, h.queued, h.packs⟩
  | update hu =>
    obtain ⟨h1, h2⟩ := hu.queued hi.2 h.queued
    exact ⟨hl, hs, ⟨hi.1, h2 _ rfl⟩, h1, (congrArg FFDecode.packs (hu.video hp)).trans h.packs⟩
  | done hu =>
    obtain ⟨h1, -⟩ := hu.queued hi.2 h.queued
    exact ⟨hl, hs, hi.1, h1, (congrArg FFDecode.packs (hu.video hp)).trans h.packs⟩
  | @send T' x =>
    let V := ((s.dec .video).sendPacket L x).2
    refine ⟨hl, hs, hi, ?_, ?_⟩
    · show ∀ x ∈ ((s.setDec .video V).dec .audio).packs, _
      rw [setDec_video_audio]
      exact h.queued
    · show ((s.setDec .video V).dec .video).packs = ps
      rw [setDec_self]
      exact (sendPacket_packs ..).trans h.packs
  | found | before =>
    refine ⟨hl, hs, by first | exact trivial | exact hi, ?_, ?_⟩
    · rw [setDec_video_audio]
      exact h.queued
    · rw [setDec_self]
      exact (recvFrame_packs _).trans h.packs

theorem Aiming.other (h : Aiming L T o ps s pc) {a : Act} (hs : Steps L s a t) (ha : a ≠ .ui) (hui : s.ui ≠ []) :
    Aiming L T o ps t pc ∧ t.ui = s.ui := by
  have hS := h.alone.still hs ha hui
  have hq : ∀ d, (t.dec d).packs = (s.dec d).packs := fun d => (congrArg FFDecode.packs (hS.dec d) :)
  refine ⟨⟨h.alone.other hs ha hui, ?_, h.inHand, (hq _).symm ▸ h.queued, (hq _).trans h.packs⟩, hS.ui⟩
  exact (stop_congr hS.demux hS.flags (congrArg FFDecode.codec (hS.dec .video) :)
    (congrArg FFDecode.pts (hS.dec .video) :) pc).trans h.stop

/-! ### From the loop to its end -/

/-- No further call. -/
def Unasked (a : Act) (_ : Player K) : Prop := ∀ c, a ≠ .request c

/-- `Seek` is in its loop, or has just left it, or is done with more than that. -/
def Leaving (L : FFmpeg K) (T : ℤ) (o : LoopStop K) (ps : List XData) (pos : ℚ) (f : SeekFrame) (s : Player K) : Prop :=
  (∃ pc, s.ui = .seek pos f pc :: seekEnd ∧ Aiming L T o ps s pc) ∨ (s.ui = seekEnd ∧ Aiming L T o ps s .unlock) ∨
    (∀ c ∈ s.ui, c.prompt = true) ∧ s.ui.length < seekEnd.length

theorem Aiming.of_ui {cs : List Cmd} {b : Bool} (h : Aiming L T o ps s pc) :
    Aiming L T o ps { s with ui := cs, mux := b } pc :=
  ⟨⟨h.alone.paused, h.alone.demux, h.alone.dec, h.alone.video, h.alone.place⟩,
    (stop_congr rfl rfl rfl rfl pc).trans h.stop, h.inHand, h.queued, h.packs⟩

theorem Leaving.ui (h : Leaving L T o ps pos f s) (hs : Steps L s .ui t) : Leaving L T o ps pos f t := by
  cases hs with
  | @ui c cs u cs' hui' hc =>
    rcases h with ⟨pc, hui, hl⟩ | ⟨hui, hl⟩ | ⟨hp, hlt⟩
    · cases hui.symm.trans hui'
      cases hc with
      | @seek _ _ _ _ pc' hk => exact .inl ⟨pc', rfl, (hl.seek hk).of_ui⟩
      | sought hk =>
        cases hk
        exact .inr (.inl ⟨rfl, hl.of_ui⟩)
    · cases hui.symm.trans hui'
      cases hc
      exact .inr (.inr ⟨by simp [Cmd.prompt], Nat.lt_succ_self _⟩)
    · rw [hui', List.forall_mem_cons] at hp
      rw [hui', List.length_cons] at hlt
      have hcs : cs' = cs := by
        cases hc with
        | openFailed | seek | sought => cases hp.1
        | _ => rfl
      subst hcs
      exact .inr (.inr ⟨hp.2, Nat.lt_of_succ_lt hlt⟩)

theorem Leaving.step (h : Leaving L T o ps pos f s) {a : Act} (ha : Unasked a s) (hs : Steps L s a t) :
    Leaving L T o ps pos f t := by
  by_cases hu : a = .ui
  · subst hu
    exact h.ui hs
  · rcases h with ⟨pc, hui, hl⟩ | ⟨hui, hl⟩ | ⟨hp, hlt⟩
    · obtain ⟨h1, h2⟩ := hl.other hs hu (by rw [hui]; exact List.cons_ne_nil _ _)
      exact .inl ⟨pc, h2.trans hui, h1⟩
    · obtain ⟨h1, h2⟩ := hl.other hs hu (by rw [hui]; exact List.cons_ne_nil _ _)
      exact .inr (.inl ⟨h2.trans hui, h1⟩)
    · have he := (hs.other hu ha).1
      exact .inr (.inr (he ▸ ⟨hp, hlt⟩))

/-- `Seek` begins its loop with all workers where it has paused them, and with the queue of `aDecode` empty. -/
structure LoopAlone (T : ℤ) (s : Player K) : Prop extends LoopBegun T s where
  demux : ∀ n < s.demuxN, (s.demuxW n).outside = true
  empty : (s.dec .audio).packs = []

theorem LoopAlone.alone (hb : LoopAlone T s) (h : Orderly s) :
    ∃ pos f, s.ui = .seek pos f (.exitTest T) :: seekEnd ∧ Alone s (.exitTest T) := by
  obtain ⟨pos, f, hl⟩ := hb.looping h
  refine ⟨pos, f, hl.ui, hl.paused, fun n => ?_, hl.dec, h.video, hl.place⟩
  by_cases hn : n < s.demuxN
  · exact hb.demux n hn
  · rw [h.observed.spawned.demux n (not_lt.mp hn)]
    rfl

theorem LoopAlone.leaving (hb : LoopAlone T s) (h : Orderly s) (hr : (player L).Run Unasked s t) :
    ∃ pos f, Leaving L T (s.seekLoop L T (s.dec .video)).stop (s.dec .video).packs pos f t := by
  obtain ⟨pos, f, hui, hl⟩ := hb.alone h
  have hA : Aiming L T (s.seekLoop L T (s.dec .video)).stop (s.dec .video).packs s (.exitTest T) :=
    ⟨hl, rfl, rfl, fun x hx => absurd hx (by simp [hb.empty]), rfl⟩
  exact ⟨pos, f, hr.inv (I := Leaving L T _ _ pos f) (.inl ⟨_, hui, hA⟩) fun a s t hI ha hs => hI.step ha (steps hs)⟩

/-- When the loop is left, `Seek` is where it was to stop. -/
theorem LoopAlone.stopped (hb : LoopAlone T s) (h : Orderly s) (hr : (player L).Run Unasked s t) (ht : t.ui = seekEnd) :
    Aiming L T (s.seekLoop L T (s.dec .video)).stop (s.dec .video).packs t .unlock := by
  obtain ⟨pos, f, ⟨pc, he, -⟩ | ⟨-, hA⟩ | ⟨-, hlt⟩⟩ := hb.leaving h hr
  · cases ht.symm.trans he
  · exact hA
  · rw [ht] at hlt
    exact absurd hlt (Nat.lt_irrefl _)

theorem LoopAlone.left (hb : LoopAlone T s) (h : Orderly s) (hr : (player L).Run Unasked s t)
    (ht : t.ui.length = seekEnd.length) : t.ui = seekEnd := by
  obtain ⟨pos, f, ⟨pc, he, -⟩ | ⟨he, -⟩ | ⟨-, hlt⟩⟩ := hb.leaving h hr
  · rw [he] at ht
    cases ht
  · exact he
  · exact absurd hlt (Nat.not_lt.mpr ht.ge)

end Player

end XPlayer
