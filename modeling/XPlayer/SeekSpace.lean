import XPlayer.Playback
import XPlayer.SeekFlush
import Mathlib.Algebra.BigOperators.Fin

/-!
# The space that `Seek` needs

After the reposition `Seek` reads and decodes up to its target, and passes the audio packets from the target on to
`Notify`, while the worker that takes them from the queue of `aDecode` is paused. A worker of the demuxer that
`SetPause` did not stop in time may still read a packet, and pass on the one that it has. Packets in the queues and
packets under way are the same in number at each step of `Notify` and of a worker (`Updates.load`, `Demuxes.load`), so
what has to fit into the queues is a function of the packets, of the codec and of the places of these workers
(`FFDemux.fits`).
-/

namespace XPlayer
variable {K : Type} {L : FFmpeg K}

/-! ### What is passed on to the queues -/

/-- `if (data.pts >= seekPts) break`, for a frame that was received. -/
def XData.wanted (T : ℤ) (f : XData) : Bool := decide (0 < f.size) && decide (T ≤ f.pts)

/-- The fields of the decoders that `Update` looks at. -/
structure Intake where
  isExit : Dec → Bool
  isAudio : Dec → Bool
  maxList : Dec → ℕ

namespace Intake

/-- Whether `d` stores a packet that is passed to it. -/
def one (I : Intake) (d : Dec) (x : XData) : ℕ := if I.isExit d = false ∧ x.isAudio = I.isAudio d then 1 else 0

/-- The packets that a worker of the demuxer adds to those under way when it reads `x`. -/
def taken (I : Intake) (x : XData) (d : Dec) : ℕ := if 0 < x.size then I.one d x else 0

/-- The packets for `d` among the next `r` ones. -/
def next (I : Intake) : ℕ → FFDemux → Dec → ℕ
  | 0, _, _ => 0
  | r + 1, D, d => I.taken (D.read 0).1 d + next I r (D.read 0).2 d

/-- No queue would be longer than it may be with `q` packets in it. -/
def holds (I : Intake) (q : Dec → ℕ) : Bool :=
  decide (q .video ≤ I.maxList .video) && decide (q .audio ≤ I.maxList .audio)

theorem holds_iff {I : Intake} {q : Dec → ℕ} : I.holds q = true ↔ ∀ d, q d ≤ I.maxList d := by
  simp only [holds, Bool.and_eq_true, decide_eq_true_eq]
  refine ⟨fun h d => ?_, fun h => ⟨h _, h _⟩⟩
  cases d
  · exact h.1
  · exact h.2

end Intake

/-- `p` for one worker fewer than `r`, if there is one. -/
def oneFewer (p : ℕ → Bool) : ℕ → Bool
  | 0 => true
  | r + 1 => p r

/-- There is space for all packets whenever the loop passes one on, `q` being in the queues and under way, however `r`
workers of the demuxer take packets out of those that the loop reads; `V` is `vDecode`, and at most `n` packets are
left. -/
def FFDemux.fits (L : FFmpeg K) (T : ℤ) (I : Intake) : ℕ → FFDemux → FFDecode K → ℕ → (Dec → ℕ) → Bool
  | 0, _, _, _, _ => true
  | n + 1, D, V, r, q =>
    let x := (D.read 0).1
    let D' := (D.read 0).2
    oneFewer (fun r => fits L T I n D' V r fun d => q d + I.taken x d) r &&
    (if x.size ≤ 0 then true
     else if x.isAudio then
       if x.pts < T then fits L T I n D' V r q
       else I.holds (fun d => q d + I.one d x + I.next r D' d) && fits L T I n D' V r fun d => q d + I.one d x
     else
       let o := (V.sendPacket L x).2.recvFrame L
       o.1.wanted T || fits L T I n D' o.2 r q)

/-- What `Read` returns but for the handle. -/
structure XData.Alike (x y : XData) : Prop where
  size : x.size = y.size
  isAudio : x.isAudio = y.isAudio
  pts : x.pts = y.pts
  sendable : x.sendable = y.sendable

theorem FFDemux.read_alike (D : FFDemux) (h h' : ℕ) :
    (D.read h).1.Alike (D.read h').1 ∧ (D.read h).2 = (D.read h').2 := by
  rcases hic : D.ic with _ | ic
  · simp only [read, hic]
    exact ⟨⟨rfl, rfl, rfl, rfl⟩, trivial⟩
  · rcases hp : ic.packets with _ | ⟨p, rest⟩
    · simp only [read, hic, hp]
      exact ⟨⟨rfl, rfl, rfl, rfl⟩, trivial⟩
    · rw [read_cons hic hp, read_cons hic hp]
      refine ⟨?_, rfl⟩
      rcases D.classify p.stream_index with _ | _ | _ <;> exact ⟨rfl, rfl, rfl, rfl⟩

theorem FFDecode.sendPacket_congr {V V' : FFDecode K} {x y : XData} (hV : V.codec = V'.codec)
    (hx : x.sendable = y.sendable) : (V.sendPacket L x).2.codec = (V'.sendPacket L y).2.codec := by
  rw [sendPacket_eq, sendPacket_eq, hx]
  rcases y.sendable with _ | p
  · exact hV
  · show (L.machine.send V.codec p).2 = (L.machine.send V'.codec p).2
    rw [hV]

theorem FFDecode.recvFrame_congr {V V' : FFDecode K} (hV : V.codec = V'.codec) :
    (V.recvFrame L).1 = (V'.recvFrame L).1 ∧ (V.recvFrame L).2.codec = (V'.recvFrame L).2.codec := by
  unfold recvFrame
  rw [hV]
  rcases L.machine.recv V'.codec with ⟨_ | f, c⟩ <;> exact ⟨rfl, rfl⟩

namespace Intake
variable (I : Intake)

theorem one_alike {x y : XData} (h : x.Alike y) (d : Dec) : I.one d x = I.one d y := by
  unfold one
  rw [h.isAudio]

theorem taken_alike {x y : XData} (h : x.Alike y) (d : Dec) : I.taken x d = I.taken y d := by
  unfold taken
  rw [h.size, I.one_alike h]

theorem next_read (r : ℕ) (D : FFDemux) (h : ℕ) (d : Dec) :
    I.next (r + 1) D d = I.taken (D.read h).1 d + I.next r (D.read h).2 d := by
  obtain ⟨hx, hD⟩ := D.read_alike h 0
  rw [I.taken_alike hx, hD]
  rfl

end Intake

theorem FFDemux.length_unread_read (D : FFDemux) (h : ℕ) (hne : D.unread ≠ []) :
    D.unread.length = (D.read h).2.unread.length + 1 := by
  rw [Player.unread_read]
  rcases hu : D.unread with _ | ⟨p, ps⟩
  · exact absurd hu hne
  · rfl

section
variable (T : ℤ) (I : Intake)

theorem FFDemux.fits_congr (n : ℕ) (D : FFDemux) {V V' : FFDecode K} (r : ℕ) (q : Dec → ℕ) (hV : V.codec = V'.codec) :
    fits L T I n D V r q = fits L T I n D V' r q := by
  induction n generalizing D V V' r q with
  | zero => rfl
  | succ n ih =>
    have hs : (V.sendPacket L (D.read 0).1).2.codec = (V'.sendPacket L (D.read 0).1).2.codec :=
      FFDecode.sendPacket_congr hV rfl
    obtain ⟨h1, h2⟩ := FFDecode.recvFrame_congr (L := L) hs
    simp only [fits, h1, ih _ _ _ hV, ih _ _ _ h2]

/-- The next packet, whatever its handle is. -/
theorem FFDemux.fits_read (D : FFDemux) (V : FFDecode K) (r : ℕ) (q : Dec → ℕ) (h : ℕ) (hne : D.unread ≠ []) :
    fits L T I D.unread.length D V r q =
      (oneFewer (fun r => fits L T I (D.read h).2.unread.length (D.read h).2 V r fun d =>
        q d + I.taken (D.read h).1 d) r &&
      (if (D.read h).1.size ≤ 0 then true
       else if (D.read h).1.isAudio then
         if (D.read h).1.pts < T then fits L T I (D.read h).2.unread.length (D.read h).2 V r q
         else I.holds (fun d => q d + I.one d (D.read h).1 + I.next r (D.read h).2 d) &&
           fits L T I (D.read h).2.unread.length (D.read h).2 V r fun d => q d + I.one d (D.read h).1
       else ((V.sendPacket L (D.read h).1).2.recvFrame L).1.wanted T ||
         fits L T I (D.read h).2.unread.length (D.read h).2 ((V.sendPacket L (D.read h).1).2.recvFrame L).2 r q)) := by
  obtain ⟨hx, hD⟩ := D.read_alike h 0
  have hs : (V.sendPacket L (D.read h).1).2.codec = (V.sendPacket L (D.read 0).1).2.codec :=
    FFDecode.sendPacket_congr rfl hx.sendable
  obtain ⟨h1, h2⟩ := FFDecode.recvFrame_congr (L := L) hs
  have ht : I.taken (D.read h).1 = I.taken (D.read 0).1 := funext (I.taken_alike hx)
  simp only [D.length_unread_read h hne, fits, hx.size, hx.isAudio, hx.pts, h1, hD, fits_congr T I _ _ _ _ h2,
    I.one_alike hx, ht]

end

/-! ### What is under way -/

def UpdatePc.stores (I : Intake) (d : Dec) : UpdatePc → ℕ
  | .enter .video x => I.one d x
  | .enter .audio x => if d = .audio then I.one d x else 0
  | .exitTest d' x | .section d' x =>
    (if d' = d ∧ I.isExit d = false then 1 else 0) + if d' = .video ∧ d = .audio then I.one d x else 0

/-- The packets that a worker of the demuxer has still to store in the queue of `d`. -/
def DemuxPc.stores (I : Intake) (d : Dec) : DemuxPc → ℕ
  | .notify x => I.one d x
  | .update u => u.stores I d
  | _ => 0

/-- The worker is about to read a packet. -/
def DemuxPc.reads : DemuxPc → ℕ
  | .read => 1
  | _ => 0

namespace Player
variable {s t : Player K}

def intake (s : Player K) : Intake where
  isExit d := s.isExit (.dec d)
  isAudio d := (s.dec d).isAudio
  maxList d := (s.dec d).maxList

/-- The packets in the queue of a decoder that goes on. -/
def queued (s : Player K) (d : Dec) : ℕ := if s.isExit (.dec d) then 0 else (s.dec d).packs.length

/-- The workers of the demuxer that are about to read a packet. -/
def readers (s : Player K) : ℕ := ∑ n ∈ Finset.range s.demuxN, (s.demuxW n).reads

/-- The packets in the queue of `d`, and those that the workers of the demuxer have for it. -/
def load (s : Player K) (d : Dec) : ℕ := s.queued d + ∑ n ∈ Finset.range s.demuxN, (s.demuxW n).stores s.intake d

theorem intake_congr (hF : t.flags = s.flags) (hA : ∀ d, (t.dec d).isAudio = (s.dec d).isAudio)
    (hM : ∀ d, (t.dec d).maxList = (s.dec d).maxList) : t.intake = s.intake := by
  unfold intake
  simp only [isExit_congr hF, hA, hM]

theorem sum_update {N n : ℕ} (hn : n < N) (w : ℕ → DemuxPc) (pc : DemuxPc) (g : DemuxPc → ℕ) :
    ∑ m ∈ Finset.range N, g (Function.update w n pc m) + g (w n) = ∑ m ∈ Finset.range N, g (w m) + g pc := by
  have hm := Finset.mem_range.mpr hn
  rw [← Finset.add_sum_erase _ _ hm, ← Finset.add_sum_erase _ (fun m => g (w m)) hm, Function.update_self]
  have he : ∑ m ∈ (Finset.range N).erase n, g (Function.update w n pc m) = ∑ m ∈ (Finset.range N).erase n, g (w m) :=
    Finset.sum_congr rfl fun m hm => by rw [Function.update_of_ne (Finset.ne_of_mem_erase hm)]
  rw [he]
  omega

/-! ### The steps of `Notify` -/

theorem Updates.intake {w : Holder} {u : UpdatePc} {r : Option UpdatePc} (h : Updates w s u t r) :
    t.intake = s.intake :=
  intake_congr (by rw [updates_eq h]) (fun d => (congrArg FFDecode.isAudio (h.dec_fields d) :))
    fun d => (congrArg FFDecode.maxList (h.dec_fields d) :)

/-- `Notify` stores the packet, or the decoder does not take it. -/
theorem Updates.load {w : Holder} {u : UpdatePc} {r : Option UpdatePc} (h : Updates w s u t r) (d : Dec) :
    t.queued d + (r.map (UpdatePc.stores s.intake d)).getD 0 = s.queued d + u.stores s.intake d := by
  cases h with
  | @skip d' x hd =>
    refine congrArg (s.queued d + ·) ?_
    have hone : s.intake.one d' x = 0 := if_neg fun hc => hd hc.2
    cases d' <;> cases d <;> simp [UpdatePc.next, UpdatePc.stores, hone]
  | @accept d' x hd =>
    refine congrArg (s.queued d + ·) ?_
    have hone : s.intake.one d' x = if s.intake.isExit d' = false then 1 else 0 := by
      unfold Intake.one
      rw [show x.isAudio = s.intake.isAudio d' from hd]
      simp
    cases d' <;> cases d <;> simp [UpdatePc.stores, hone]
  | @lost d' x hx =>
    refine congrArg (s.queued d + ·) ?_
    have hx : s.intake.isExit d' = true := hx
    cases d' <;> cases d <;> simp [UpdatePc.next, UpdatePc.stores, hx]
  | go | full => rfl
  | @push d' x =>
    have hq : (s.pushed w d' x).queued d = s.queued d + if d' = d ∧ s.intake.isExit d = false then 1 else 0 := by
      have hx : (s.pushed w d' x).isExit (.dec d) = s.isExit (.dec d) := rfl
      have hi : s.intake.isExit d = s.isExit (.dec d) := rfl
      unfold queued
      rw [hx, hi]
      by_cases hd : d' = d
      · subst hd
        have hp : ((s.pushed w d' x).dec d').packs = (s.dec d').packs ++ [x] := by simp [pushed, emit, setDec]
        rw [hp]
        cases s.isExit (.dec d') <;> simp
      · have hp : ((s.pushed w d' x).dec d).packs = (s.dec d).packs :=
          congrArg FFDecode.packs (s.setDec_ne _ (Ne.symm hd))
        rw [hp]
        simp [hd]
    rw [hq, UpdatePc.stores]
    cases d' <;> cases d <;> simp [UpdatePc.next, UpdatePc.stores]

/-! ### The steps of a worker of the demuxer -/

theorem Demuxes.intake {n : ℕ} {pc pc' : DemuxPc} (h : Demuxes n s pc t pc') : t.intake = s.intake :=
  intake_congr (congrArg Player.flags h.eq :) (fun d => (congrArg FFDecode.isAudio (h.dec_fields d) :))
    fun d => (congrArg FFDecode.maxList (h.dec_fields d) :)

/-- While the demuxer is paused, its workers read no more than the packets that they were about to read, and pass on
those that they have. -/
theorem Demuxes.load {n : ℕ} {pc : DemuxPc} (h : Demuxes n s (s.demuxW n) t pc) (hn : n < s.demuxN)
    (hp : s.isPause .demux = true) :
    (s.demuxW n ≠ .read ∧ t.demux = s.demux ∧ (t.setDemux n pc).readers = s.readers ∧
      (t.setDemux n pc).load = s.load) ∨
    s.demuxW n = .read ∧ t.demux = (s.demux.read s.fresh).2 ∧ (t.setDemux n pc).readers + 1 = s.readers ∧
      (t.setDemux n pc).load = fun d => s.load d + s.intake.taken (s.demux.read s.fresh).1 d := by
  have hW : t.demuxW = s.demuxW := (congrArg Player.demuxW h.eq :)
  have hN : t.demuxN = s.demuxN := (congrArg Player.demuxN h.eq :)
  have hI : (t.setDemux n pc).intake = s.intake := h.intake
  -- the sums over the workers
  have hsum : ∀ g : DemuxPc → ℕ, ∑ m ∈ Finset.range t.demuxN, g ((t.setDemux n pc).demuxW m) + g (s.demuxW n) =
      ∑ m ∈ Finset.range s.demuxN, g (s.demuxW m) + g pc := by
    intro g
    rw [hN, ← sum_update hn s.demuxW pc g, ← hW]
    rfl
  have hload : ∀ d, (t.setDemux n pc).load d + (s.demuxW n).stores s.intake d + s.queued d =
      s.load d + pc.stores s.intake d + t.queued d := by
    intro d
    have hg := hsum (DemuxPc.stores s.intake d)
    unfold Player.load
    rw [hI]
    show t.queued d + ∑ m ∈ Finset.range t.demuxN, _ + _ + _ = _
    omega
  have hread : (t.setDemux n pc).readers + (s.demuxW n).reads = s.readers + pc.reads := hsum DemuxPc.reads
  have hsame : t.demux = s.demux → (s.demuxW n).reads = pc.reads →
      (∀ d, t.queued d + pc.stores s.intake d = s.queued d + (s.demuxW n).stores s.intake d) →
      t.demux = s.demux ∧ (t.setDemux n pc).readers = s.readers ∧ (t.setDemux n pc).load = s.load := by
    intro h1 h2 h3
    refine ⟨h1, by omega, funext fun d => ?_⟩
    have := hload d
    have := h3 d
    omega
  have htake : (s.demuxW n).reads = pc.reads + 1 → t = (s.readBy (.demux n)).2 →
      (∀ d, pc.stores s.intake d = (s.demuxW n).stores s.intake d + s.intake.taken (s.demux.read s.fresh).1 d) →
      t.demux = (s.demux.read s.fresh).2 ∧ (t.setDemux n pc).readers + 1 = s.readers ∧
        (t.setDemux n pc).load = fun d => s.load d + s.intake.taken (s.demux.read s.fresh).1 d := by
    intro h2 h1 h3
    have hq : ∀ d, t.queued d = s.queued d := fun d => by
      rw [h1, readBy_eq]
      rfl
    refine ⟨by rw [h1, readBy_eq], by omega, funext fun d => ?_⟩
    have := hload d
    have := h3 d
    have := hq d
    omega
  generalize s.demuxW n = pc₀ at h hsum hload hread hsame htake
  cases h with
  | run hr => exact absurd (hr.symm.trans hp) Bool.false_ne_true
  | read hx =>
    refine .inr ⟨rfl, htake rfl rfl fun d => ?_⟩
    rw [Intake.taken, if_pos (show 0 < (s.demux.read s.fresh).1.size from hx)]
    exact (Nat.zero_add _).symm
  | nothing hx =>
    refine .inr ⟨rfl, htake rfl rfl fun d => ?_⟩
    rw [Intake.taken, if_neg (show ¬ 0 < (s.demux.read s.fresh).1.size from not_lt.mpr hx)]
    rfl
  | update hu => exact .inl ⟨nofun, hsame (by rw [updates_eq hu]) rfl fun d => hu.load d⟩
  | done hu => exact .inl ⟨nofun, hsame (by rw [updates_eq hu]) rfl fun d => (hu.load d :)⟩
  | _ => exact .inl ⟨nofun, hsame rfl rfl fun _ => rfl⟩

end Player

end XPlayer
