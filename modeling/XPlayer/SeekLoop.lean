import XPlayer.Orderly
import XPlayer.SeekSpace

/-!
# The loop of `Seek`

`Seek` in its loop, with the workers of the decoders paused outside of their loop bodies (`Looping`). What has to fit
into the queues for it to go on (`SeekPc.Fits`) is kept by the steps of all other threads, the workers of the demuxer
included (`Looping.fits_demux`), and a step of `Seek` takes it to its next place (`Seeks.fits_iff`).
-/

namespace XPlayer
variable {K : Type} {L : FFmpeg K}

namespace Player
variable {s t : Player K} {pos : ℚ} {f : SeekFrame} {pc pc' : SeekPc}

/-- Where `Seek` is in its loop, and what it has in hand: only an audio packet is passed to `Notify`. -/
def Place (s : Player K) : SeekPc → Prop
  | .exitTest _ | .skip .. | .send .. | .drop .. | .recv _ | .unlock => True
  | .read _ => s.isExit .player = false
  | .notify _ x | .update _ (.enter _ x) => x.isAudio = true
  | .update _ (.exitTest d _) | .update _ (.section d _) => d = .audio ∧ (s.dec .audio).isAudio = true
  | _ => False

/-- `Seek` is in its loop at `pc`, and the workers of the decoders are where `SetPause` has them: outside of their loop
bodies. -/
structure Looping (pos : ℚ) (f : SeekFrame) (s : Player K) (pc : SeekPc) : Prop where
  orderly : Orderly s
  ui : s.ui = .seek pos f pc :: seekEnd
  dec : ∀ d n, (s.decW d n).outside = true
  place : s.Place pc

theorem Place.seeking (h : s.Place pc) : seeking (.seek pos f pc :: seekEnd) = true := by
  cases pc with
  | lock | clear | flush | clearFrames | reposition | target => cases h
  | _ => rfl

theorem Looping.paused (h : Looping pos f s pc) (o : Obj) : s.isPause o = true :=
  Finds.seek_paused h.orderly.paused (h.ui ▸ h.place.seeking) o

theorem Looping.free (h : Looping pos f s pc) (d : Dec) : s.packsMutex d = none := h.orderly.holds.free h.dec d

theorem Looping.held (h : Looping pos f s pc) : s.demuxMux = some .ui ↔ pc.updating = true := by
  rw [h.orderly.observed.holder .ui]
  show updating s.ui = true ↔ _
  rw [h.ui]
  exact Iff.rfl

/-! ### The steps of `Seek` -/

/-- `Read` yields a packet with data only if there is one. -/
theorem readBy_next {w : Holder} (hx : 0 < (s.readBy w).1.size) :
    s.demux.unread ≠ [] ∧ ¬ (s.demux.read s.fresh).1.size ≤ 0 := by
  have hx : 0 < (s.demux.read s.fresh).1.size := hx
  refine ⟨fun hn => ?_, not_le.mpr hx⟩
  rw [FFDemux.read_nil _ hn] at hx
  cases hx

theorem unread_readBy_lt {w : Holder} (hx : 0 < (s.readBy w).1.size) :
    (s.readBy w).2.demux.unread.length < s.demux.unread.length := by
  rw [unread_readBy]
  rcases hu : s.demux.unread with _ | ⟨p, ps⟩
  · exact absurd hu (readBy_next hx).1
  · exact Nat.lt_succ_self _

theorem Updates.place {T : ℤ} {u u' : UpdatePc} (h : Updates .ui s u t (some u')) (hp : s.Place (.update T u))
    (hv : (s.dec .video).isAudio = false) : t.Place (.update T u') := by
  generalize hr : some u' = r at h
  cases h with
  | @skip d x hd => cases d <;> cases hr; exact hp
  | @accept d x hd =>
    cases hr
    replace hp : x.isAudio = true := hp
    cases d with
    | video => exact absurd (hp.symm.trans (hd.trans hv)) Bool.false_ne_true.symm
    | audio => exact ⟨rfl, hd.symm.trans hp⟩
  | @lost d x hd =>
    obtain ⟨rfl, -⟩ : d = .audio ∧ _ := hp
    cases hr
  | @go d x hd =>
    obtain ⟨rfl, ha⟩ : d = .audio ∧ (s.dec .audio).isAudio = true := hp
    cases hr
    exact ⟨rfl, ha⟩
  | @push d x hm hn =>
    obtain ⟨rfl, -⟩ : d = .audio ∧ _ := hp
    cases hr
  | @full d x hm hn =>
    obtain ⟨rfl, ha⟩ : d = .audio ∧ (s.dec .audio).isAudio = true := hp
    cases hr
    exact ⟨rfl, ha⟩

theorem Seeks.place (hk : Seeks L pos f s pc t (some pc')) (hp : s.Place pc) (hv : (s.dec .video).isAudio = false) :
    t.Place pc' := by
  cases hk with
  | lock | clear | flush | clearFrames | reposition | rejected | target => cases hp
  | more hx => exact hx
  | wanted hx ha => exact ha
  | notify => exact hp
  | update hu => exact hu.place hp hv
  | _ => trivial

theorem Looping.seek (h : Looping pos f s pc) (hk : Seeks L pos f s pc t (some pc')) {t' : Player K}
    (hs : s.step L .ui = some t') (ht : t' = t.setUi (.seek pos f pc' :: seekEnd)) : Looping pos f t' pc' := by
  subst ht
  refine ⟨h.orderly.step hs, rfl, ?_, hk.place h.place h.orderly.video⟩
  have hW : t.decW = s.decW := (congrArg Player.decW hk.eq :)
  show ∀ d n, (t.decW d n).outside = true
  rw [hW]
  exact h.dec

/-! ### The steps of the other threads -/

/-- What threads with nothing in hand leave alone. -/
structure Calm (s t : Player K) : Prop where
  flags : t.flags = s.flags
  demux : t.demux = s.demux
  ui : t.ui = s.ui
  dec : ∀ d, t.dec d = { s.dec d with synPts := (t.dec d).synPts }

/-- What the threads but for the demuxer's leave alone. -/
structure Aside (s t : Player K) : Prop extends Calm s t where
  demuxW : t.demuxW = s.demuxW
  demuxN : t.demuxN = s.demuxN

theorem Place.congr (h : s.Place pc) (hF : t.flags = s.flags) (hA : (t.dec .audio).isAudio = (s.dec .audio).isAudio) :
    t.Place pc := by
  unfold Place at h ⊢
  rw [isExit_congr hF, hA]
  exact h

theorem Decodes.only {n : ℕ} {d : Dec} {pc pc' : DecPc} (h : Decodes L d n s pc t pc')
    (hp : s.isPause (.dec d) = true) (ho : pc.outside = true) : t = s := by
  cases h with
  | exit | more | paused => rfl
  | run hp' => exact absurd (hp'.symm.trans hp) Bool.false_ne_true
  | _ => cases ho

/-- The steps besides those of `Seek`: one of a worker of the demuxer, or one that does not matter here. -/
theorem Looping.cases_other (h : Looping pos f s pc) {a : Act} (hs : Steps L s a t) (ha : a ≠ .ui) :
    Aside s t ∨ ∃ n u pc', a = .demux n ∧ Demuxes n s (s.demuxW n) u pc' ∧ t = u.setDemux n pc' := by
  cases hs with
  | @demux n u pc' hd => exact .inr ⟨n, u, pc', rfl, hd, rfl⟩
  | @dec d n u pc' hd =>
    obtain rfl := hd.only (h.paused (.dec d)) (h.dec d n)
    exact .inl ⟨⟨rfl, rfl, rfl, fun _ => rfl⟩, rfl, rfl⟩
  | sync =>
    refine .inl ⟨⟨rfl, rfl, rfl, fun d => ?_⟩, rfl, rfl⟩
    cases d <;> simp [setDec, emit, setSync]
  | ui => exact absurd rfl ha
  | request he =>
    rw [h.ui] at he
    cases he
  | syncExit | syncMore | device | call => exact .inl ⟨⟨rfl, rfl, rfl, fun _ => rfl⟩, rfl, rfl⟩

/-- A paused decoder stays outside of its loop body. -/
theorem Steps.dec_outside {a : Act} (hs : Steps L s a t) (ha : a ≠ .ui) (hp : ∀ o, s.isPause o = true)
    (hW : ∀ d n, (s.decW d n).outside = true) : ∀ d n, (t.decW d n).outside = true := by
  cases hs with
  | @demux n u pc' hd =>
    show ∀ d n, (u.decW d n).outside = true
    rw [(congrArg Player.decW hd.eq :)]
    exact hW
  | @dec d n u pc' hd =>
    intro d' m
    rw [setDecW_decW]
    split
    · exact hd.outside (hp (.dec d)) (hW d n)
    · rw [(congrArg Player.decW hd.eq :)]
      exact hW d' m
  | ui => exact absurd rfl ha
  | _ => exact hW

theorem Looping.other (h : Looping pos f s pc) {a : Act} (hs : s.step L a = some t) (ha : a ≠ .ui) :
    Looping pos f t pc := by
  have hO := h.orderly.step hs
  have hdec := (steps hs).dec_outside ha h.paused h.dec
  rcases h.cases_other (steps hs) ha with hA | ⟨n, u, pc', rfl, hd, rfl⟩
  · exact ⟨hO, hA.ui.trans h.ui, hdec, h.place.congr hA.flags (by rw [hA.dec])⟩
  · refine ⟨hO, (congrArg Player.ui hd.eq :).trans h.ui, hdec, h.place.congr (congrArg Player.flags hd.eq :) ?_⟩
    show (u.dec .audio).isAudio = _
    rw [hd.dec_fields]

/-- A worker of the demuxer that is not in `Notify` changes nothing of the decoders. -/
theorem Demuxes.dec_still {n : ℕ} {pc pc' : DemuxPc} (h : Demuxes n s pc t pc') (hu : pc.updating = false) :
    t.dec = s.dec := by
  cases h with
  | read | nothing => exact (s.readBy_still _).1
  | update | done => cases hu
  | _ => rfl

/-- While `Seek` is in `Notify`, no worker of the demuxer is. -/
theorem Looping.alone (h : Looping pos f s pc) (hu : pc.updating = true) (n : ℕ) : (s.demuxW n).updating = false := by
  have hm := h.held.mpr hu
  rw [Bool.eq_false_iff]
  intro hn
  have hN := (h.orderly.observed.holder (.demux n)).mpr hn
  rw [hm] at hN
  cases hN

/-! ### What has to fit -/

/-- From the loop's test of `isExit` on, there will be space for the packets, `q` being in the queues and under way. -/
def onward (L : FFmpeg K) (s : Player K) (T : ℤ) (V : FFDecode K) (q : Dec → ℕ) : Prop :=
  s.isExit .player = true ∨ s.demux.fits L T s.intake s.demux.unread.length V s.readers q = true

end Player

/-- From `pc` on, there will be space for the packets. -/
def SeekPc.Fits (L : FFmpeg K) (s : Player K) : SeekPc → Prop
  | .exitTest T | .skip T _ => s.onward L T (s.dec .video) s.load
  | .read T => s.demux.fits L T s.intake s.demux.unread.length (s.dec .video) s.readers s.load = true
  | .notify T x => s.intake.holds (fun d => s.load d + s.intake.one d x + s.intake.next s.readers s.demux d) = true ∧
      s.onward L T (s.dec .video) fun d => s.load d + s.intake.one d x
  | .update T u => (∀ d, s.queued d + u.stores s.intake d ≤ s.intake.maxList d) ∧
      s.onward L T (s.dec .video) fun d => s.load d + u.stores s.intake d
  | .send T x =>
    let o := ((s.dec .video).sendPacket L x).2.recvFrame L
    o.1.wanted T = true ∨ s.onward L T o.2 s.load
  | .drop T _ | .recv T =>
    let o := (s.dec .video).recvFrame L
    o.1.wanted T = true ∨ s.onward L T o.2 s.load
  | _ => True

/-- What `Fits` says besides what it says after the next step of `Seek`. -/
def SeekPc.Also (L : FFmpeg K) (s : Player K) : SeekPc → Prop
  | .read T =>
    oneFewer (fun r => (s.demux.read s.fresh).2.fits L T s.intake (s.demux.read s.fresh).2.unread.length
      (s.dec .video) r fun d => s.load d + s.intake.taken (s.demux.read s.fresh).1 d) s.readers = true
  | .notify _ x => s.intake.holds (fun d => s.load d + s.intake.one d x + s.intake.next s.readers s.demux d) = true
  | .update _ u => ∀ d, s.queued d + u.stores s.intake d ≤ s.intake.maxList d
  | _ => True

namespace Player
variable {s t : Player K} {pos : ℚ} {f : SeekFrame} {pc pc' : SeekPc} {T : ℤ}

theorem onward_congr {V V' : FFDecode K} {q q' : Dec → ℕ} (hF : t.flags = s.flags) (hD : t.demux = s.demux)
    (hI : t.intake = s.intake) (hr : t.readers = s.readers) (hV : V.codec = V'.codec) (hq : q = q') :
    t.onward L T V q ↔ s.onward L T V' q' := by
  unfold onward
  rw [isExit_congr hF, hD, hI, hr, hq, FFDemux.fits_congr T s.intake _ _ _ _ hV]

/-- Of `vDecode`, only the codec matters to `Seek`. -/
theorem fits_of_eq (hF : t.flags = s.flags) (hD : t.demux = s.demux) (hI : t.intake = s.intake)
    (hr : t.readers = s.readers) (hl : t.load = s.load) (hV : (t.dec .video).codec = (s.dec .video).codec)
    (hq : pc.updating = true → t.queued = s.queued) : pc.Fits L t ↔ pc.Fits L s := by
  obtain ⟨h1, h2⟩ := FFDecode.recvFrame_congr (L := L) hV
  cases pc with
  | exitTest | skip => exact onward_congr hF hD hI hr hV hl
  | read T =>
    simp only [SeekPc.Fits]
    rw [hD, hI, hr, hl, FFDemux.fits_congr T s.intake _ _ _ _ hV]
  | notify T x =>
    refine and_congr ?_ (onward_congr hF hD hI hr hV (by rw [hl, hI]))
    rw [hI, hr, hl, hD]
  | update T u =>
    refine and_congr ?_ (onward_congr hF hD hI hr hV (by rw [hl, hI]))
    rw [hq rfl, hI]
  | send T x =>
    have hs : ((t.dec .video).sendPacket L x).2.codec = ((s.dec .video).sendPacket L x).2.codec :=
      FFDecode.sendPacket_congr hV rfl
    obtain ⟨h3, h4⟩ := FFDecode.recvFrame_congr (L := L) hs
    simp only [SeekPc.Fits, h3, onward_congr hF hD hI hr h4 hl]
  | drop | recv => simp only [SeekPc.Fits, h1, onward_congr hF hD hI hr h2 hl]
  | _ => exact Iff.rfl

theorem queued_congr (hF : t.flags = s.flags) (hp : ∀ d, (t.dec d).packs = (s.dec d).packs) : t.queued = s.queued := by
  funext d
  unfold queued
  rw [isExit_congr hF, hp]

/-- The packets under way are as before, but for those in the queues. -/
theorem load_congr (hW : t.demuxW = s.demuxW) (hN : t.demuxN = s.demuxN) (hI : t.intake = s.intake) {d : Dec} {a b : ℕ}
    (hq : t.queued d + a = s.queued d + b) : t.load d + a = s.load d + b := by
  unfold load
  rw [hW, hN, hI]
  omega

theorem readers_congr (hW : t.demuxW = s.demuxW) (hN : t.demuxN = s.demuxN) : t.readers = s.readers := by
  unfold readers
  rw [hW, hN]

theorem Aside.fits (h : Aside s t) (pc : SeekPc) : pc.Fits L t ↔ pc.Fits L s := by
  have hI : t.intake = s.intake := intake_congr h.flags (fun d => by rw [h.dec]) fun d => by rw [h.dec]
  have hq : t.queued = s.queued := queued_congr h.flags fun d => by rw [h.dec]
  have hl : t.load = s.load := funext fun d => load_congr h.demuxW h.demuxN hI (congrArg (· + 0) (congrFun hq d))
  exact fits_of_eq h.flags h.demux hI (readers_congr h.demuxW h.demuxN) hl (by rw [h.dec]) fun _ => hq

theorem onward_taken {V V' : FFDecode K} {q : Dec → ℕ} (hF : t.flags = s.flags) (hI : t.intake = s.intake)
    (hD : t.demux = (s.demux.read s.fresh).2) (hr : t.readers + 1 = s.readers) (hV : V.codec = V'.codec)
    (h : s.onward L T V' q) : t.onward L T V fun d => q d + s.intake.taken (s.demux.read s.fresh).1 d := by
  refine h.imp (fun hx => (isExit_congr hF _).trans hx) fun h => ?_
  rw [hD, hI, FFDemux.fits_congr T s.intake _ _ _ _ hV]
  by_cases hne : s.demux.unread = []
  · rw [unread_read, hne]
    rfl
  · rw [FFDemux.fits_read T s.intake s.demux V' _ q s.fresh hne, ← hr, Bool.and_eq_true] at h
    exact h.1

/-- The workers of the demuxer may take packets meanwhile, and pass them on. -/
theorem Looping.fits_demux (h : Looping pos f s pc) {n : ℕ} {pc' : DemuxPc} (hd : Demuxes n s (s.demuxW n) t pc')
    (hf : pc.Fits L s) : pc.Fits L (t.setDemux n pc') := by
  have hn : n < s.demuxN ∨ s.demuxW n = .gone := (Nat.lt_or_ge n s.demuxN).imp id (h.orderly.observed.spawned.demux n)
  have hn : n < s.demuxN := hn.resolve_right fun hg => by
    rw [hg] at hd
    cases hd
  have hF : (t.setDemux n pc').flags = s.flags := (congrArg Player.flags hd.eq :)
  have hV : ((t.setDemux n pc').dec .video).codec = (s.dec .video).codec :=
    (congrArg FFDecode.codec (hd.dec_fields .video) :)
  have hI : (t.setDemux n pc').intake = s.intake := hd.intake
  have hq : pc.updating = true → (t.setDemux n pc').queued = s.queued := fun hu =>
    queued_congr hF fun d => congrArg FFDecode.packs (congrFun (hd.dec_still (h.alone hu n)) d)
  rcases hd.load hn (h.paused .demux) with ⟨-, hD, hr, hl⟩ | ⟨-, hD, hr, hl⟩
  · exact (fits_of_eq hF hD hI hr hl hV hq).mpr hf
  · have hon : ∀ {T : ℤ} {V V' : FFDecode K} {q q' : Dec → ℕ}, V.codec = V'.codec →
        (∀ d, q' d = q d + s.intake.taken (s.demux.read s.fresh).1 d) → s.onward L T V' q →
          (t.setDemux n pc').onward L T V q' := by
      intro T V V' q q' hV hq h
      rw [funext hq]
      exact onward_taken hF hI hD hr hV h
    have hl : ∀ d, (t.setDemux n pc').load d = s.load d + s.intake.taken (s.demux.read s.fresh).1 d := congrFun hl
    obtain ⟨h1, h2⟩ := FFDecode.recvFrame_congr (L := L) hV
    cases pc with
    | exitTest | skip => exact hon hV hl hf
    | read T =>
      have hx : s.isExit .player = false := h.place
      refine (hon hV hl (.inr hf)).resolve_left ?_
      rw [isExit_congr hF, hx]
      exact Bool.false_ne_true
    | notify T x =>
      refine ⟨?_, hon hV (fun d => ?_) hf.2⟩
      · have hnext : ∀ d, (t.setDemux n pc').load d + (t.setDemux n pc').intake.one d x +
            (t.setDemux n pc').intake.next (t.setDemux n pc').readers (t.setDemux n pc').demux d =
              s.load d + s.intake.one d x + s.intake.next s.readers s.demux d := by
          intro d
          rw [hl, hI, ← hr, s.intake.next_read _ _ s.fresh, show (t.setDemux n pc').demux = _ from hD]
          omega
        rw [funext hnext, hI]
        exact hf.1
      · rw [hl, hI]
        omega
    | update T u =>
      refine ⟨fun d => ?_, hon hV (fun d => ?_) hf.2⟩
      · rw [hq rfl, hI]
        exact hf.1 d
      · rw [hl, hI]
        omega
    | send T x =>
      have hs : (((t.setDemux n pc').dec .video).sendPacket L x).2.codec = ((s.dec .video).sendPacket L x).2.codec :=
        FFDecode.sendPacket_congr hV rfl
      obtain ⟨h3, h4⟩ := FFDecode.recvFrame_congr (L := L) hs
      exact hf.imp (fun hw => by rw [h3]; exact hw) (hon h4 hl)
    | drop | recv => exact hf.imp (fun hw => by rw [h1]; exact hw) (hon h2 hl)
    | _ => trivial

/-! ### The steps of `Seek` -/

theorem Updates.bound {w : Holder} {u : UpdatePc} {r : Option UpdatePc} (h : Updates w s u t r) (d : Dec) :
    t.load d + (r.map (UpdatePc.stores s.intake d)).getD 0 = s.load d + u.stores s.intake d :=
  load_congr (by rw [updates_eq h]) (by rw [updates_eq h]) h.intake (h.load d)

theorem fits_readBy (hx : 0 < (s.readBy .ui).1.size) (V : FFDecode K) (q : Dec → ℕ) :
    s.demux.fits L T s.intake s.demux.unread.length V s.readers q =
      (oneFewer (fun r => (s.demux.read s.fresh).2.fits L T s.intake (s.demux.read s.fresh).2.unread.length V r
        fun d => q d + s.intake.taken (s.demux.read s.fresh).1 d) s.readers &&
      (if (s.readBy .ui).1.isAudio then
        if (s.readBy .ui).1.pts < T then
          (s.readBy .ui).2.demux.fits L T s.intake (s.readBy .ui).2.demux.unread.length V s.readers q
        else s.intake.holds (fun d => q d + s.intake.one d (s.readBy .ui).1 +
            s.intake.next s.readers (s.readBy .ui).2.demux d) &&
          (s.readBy .ui).2.demux.fits L T s.intake (s.readBy .ui).2.demux.unread.length V s.readers fun d =>
            q d + s.intake.one d (s.readBy .ui).1
      else ((V.sendPacket L (s.readBy .ui).1).2.recvFrame L).1.wanted T ||
        (s.readBy .ui).2.demux.fits L T s.intake (s.readBy .ui).2.demux.unread.length
          ((V.sendPacket L (s.readBy .ui).1).2.recvFrame L).2 s.readers q)) := by
  obtain ⟨hne, hx⟩ := readBy_next hx
  rw [FFDemux.fits_read T s.intake s.demux V _ q s.fresh hne, if_neg hx, readBy_eq]
  rfl

theorem onward_readBy (hx : s.isExit .player = false) (V : FFDecode K) (q : Dec → ℕ) : (s.readBy .ui).2.onward L T V q ↔
    (s.readBy .ui).2.demux.fits L T s.intake (s.readBy .ui).2.demux.unread.length V s.readers q = true := by
  have hI : (s.readBy .ui).2.intake = s.intake := by
    rw [readBy_eq]
    rfl
  have hr : (s.readBy .ui).2.readers = s.readers := by
    rw [readBy_eq]
    rfl
  unfold onward
  rw [isExit_congr (s.readBy_still .ui).2, hx, hI, hr]
  exact or_iff_right Bool.false_ne_true

theorem setDec_load {D : FFDecode K} (hA : D.isAudio = (s.dec .video).isAudio) (hM : D.maxList = (s.dec .video).maxList)
    (hP : D.packs = (s.dec .video).packs) :
    (s.setDec .video D).intake = s.intake ∧ (s.setDec .video D).load = s.load := by
  have hI : (s.setDec .video D).intake = s.intake := intake_congr rfl (setDec_congr FFDecode.isAudio s hA)
    (setDec_congr FFDecode.maxList s hM)
  have hq : (s.setDec .video D).queued = s.queued := queued_congr rfl (setDec_congr FFDecode.packs s hP)
  exact ⟨hI, funext fun d =>
    load_congr (t := s.setDec .video D) (s := s) rfl rfl hI (a := 0) (b := 0) (congrFun hq d)⟩

/-- A step of the loop: what has to fit after it, and what else had to before. -/
theorem Seeks.fits_iff (h : Seeks L pos f s pc t (some pc')) (hp : s.Place pc) :
    pc.Fits L s ↔ pc.Also L s ∧ pc'.Fits L t := by
  have hload : (s.readBy .ui).2.load = s.load := by
    rw [readBy_eq]
    rfl
  have hI : (s.readBy .ui).2.intake = s.intake := by
    rw [readBy_eq]
    rfl
  have hr : (s.readBy .ui).2.readers = s.readers := by
    rw [readBy_eq]
    rfl
  have hdec := (s.readBy_still .ui).1
  cases h with
  | lock | clear | flush | clearFrames | reposition | rejected | target => cases hp
  | @exit T hx => exact iff_of_true (.inl hx) ⟨trivial, trivial⟩
  | @more T hx =>
    refine Iff.trans (or_iff_right ?_) (and_iff_right trivial).symm
    rw [hx]
    exact Bool.false_ne_true
  | @nothing T hx =>
    have hx : (s.demux.read s.fresh).1.size ≤ 0 := hx
    simp only [SeekPc.Fits, SeekPc.Also, and_true]
    by_cases hn : s.demux.unread = []
    · rw [hn, unread_read, hn]
      cases s.readers <;> exact iff_of_true rfl rfl
    · rw [FFDemux.fits_read T s.intake s.demux _ _ _ s.fresh hn, if_pos hx, Bool.and_true]
  | @early T hx ha hlt =>
    have hp : s.isExit .player = false := hp
    simp only [SeekPc.Fits, SeekPc.Also]
    rw [fits_readBy hx, if_pos ha, if_pos hlt, Bool.and_eq_true, onward_readBy hp, hload, hdec]
  | @wanted T hx ha hge =>
    have hp : s.isExit .player = false := hp
    simp only [SeekPc.Fits, SeekPc.Also]
    rw [fits_readBy hx, if_pos ha, if_neg (not_lt.mpr hge), Bool.and_eq_true, Bool.and_eq_true, onward_readBy hp, hload,
      hdec, hI, hr]
  | @picture T hx ha =>
    have hp : s.isExit .player = false := hp
    simp only [SeekPc.Fits, SeekPc.Also]
    rw [fits_readBy hx, if_neg (by rw [ha]; exact Bool.false_ne_true), Bool.and_eq_true, Bool.or_eq_true,
      onward_readBy hp, hload, hdec]
  | @notify T x hm =>
    have hle : ∀ d, s.queued d ≤ s.load d := fun d => Nat.le_add_right _ _
    refine ⟨fun ⟨h1, h2⟩ => ⟨h1, fun d => ?_, h2⟩, fun ⟨h1, _, h2⟩ => ⟨h1, h2⟩⟩
    have h3 : s.load d + s.intake.one d x + s.intake.next s.readers s.demux d ≤ s.intake.maxList d :=
      Intake.holds_iff.mp h1 d
    have h4 := hle d
    show s.queued d + s.intake.one d x ≤ s.intake.maxList d
    omega
  | @update T u _ u' hu =>
    have hq : ∀ d, t.queued d + u'.stores s.intake d = s.queued d + u.stores s.intake d := fun d => hu.load d
    have hl : (fun d => t.load d + u'.stores s.intake d) = fun d => s.load d + u.stores s.intake d := funext hu.bound
    have hon : t.onward L T (t.dec .video) (fun d => t.load d + u'.stores s.intake d) ↔
        s.onward L T (s.dec .video) fun d => s.load d + u.stores s.intake d :=
      onward_congr (by rw [updates_eq hu]) (by rw [updates_eq hu]) hu.intake (readers_congr (by rw [updates_eq hu])
        (by rw [updates_eq hu])) (congrArg FFDecode.codec (hu.dec_fields .video) :) hl
    simp only [SeekPc.Fits, SeekPc.Also, hu.intake, hon, hq]
    tauto
  | @done T u v hu =>
    have hl : v.load = fun d => s.load d + u.stores s.intake d := funext hu.bound
    have hon : v.onward L T (v.dec .video) v.load ↔
        s.onward L T (s.dec .video) fun d => s.load d + u.stores s.intake d :=
      onward_congr (by rw [updates_eq hu]) (by rw [updates_eq hu]) hu.intake (readers_congr (by rw [updates_eq hu])
        (by rw [updates_eq hu])) (congrArg FFDecode.codec (hu.dec_fields .video) :) hl
    exact and_congr_right fun _ => hon.symm
  | skip | drop => exact (and_iff_right trivial).symm
  | @send T x =>
    let V := ((s.dec .video).sendPacket L x).2
    obtain ⟨hI, hl⟩ := setDec_load (s := s) (D := V) (sendPacket_isAudio ..) (sendPacket_maxList ..)
      (sendPacket_packs ..)
    refine Iff.trans ?_ (and_iff_right trivial).symm
    show (V.recvFrame L).1.wanted T = true ∨ s.onward L T (V.recvFrame L).2 s.load ↔
      (((s.setDec .video V).dec .video).recvFrame L).1.wanted T = true ∨
        (s.setDec .video V).onward L T (((s.setDec .video V).dec .video).recvFrame L).2 (s.setDec .video V).load
    rw [setDec_self]
    exact or_congr_right (onward_congr (t := s.setDec .video V) (s := s) rfl rfl hI rfl rfl hl).symm
  | @found T hx hge =>
    refine iff_of_true (.inl ?_) ⟨trivial, trivial⟩
    simp [XData.wanted, hx, hge]
  | @before T hx =>
    obtain ⟨hI, hl⟩ := setDec_load (s := s) (D := ((s.dec .video).recvFrame L).2) (recvFrame_isAudio _)
      (recvFrame_maxList _) (recvFrame_packs _)
    refine Iff.trans (or_iff_right ?_) (Iff.trans ?_ (and_iff_right trivial).symm)
    · simp only [XData.wanted, Bool.and_eq_true, decide_eq_true_eq, not_and, not_le]
      omega
    · exact (onward_congr (t := s.setDec .video _) (s := s) rfl rfl hI rfl
        (congrArg FFDecode.codec (setDec_self s .video _)) hl).symm

end Player

end XPlayer
