import XPlayer.SeekCall
import XPlayer.SeekFlush
import XPlayer.Lead

/-!
# What the decoders show of a file

Along a run that plays a file from its beginning, what a decoder has passed to `Notify` and what the packets
under way and the rest of the file will still yield is together what the codec yields for the packets of its
stream (`Plays`). `IDecode::Main` never announces the end of the stream, so at the end the frames that the
codec holds back are missing (`playback_complete`).

For `aDecode` this needs a condition: `Start` starts the demuxer before `aDecode`, whose `isExit` is still set
by the `Close` in `Open`, and `Update` forgets a packet then.
-/

namespace XPlayer
variable {K : Type} {L : FFmpeg K}

/-! ### The packets of a stream -/

def Dec.mediaType : Dec → AVMediaType
  | .video => .video
  | .audio => .audio

/-- The `isAudio` of the packets for `d`. -/
def Dec.kind : Dec → Bool
  | .video => false
  | .audio => true

def Dec.class : Dec → FFDemux.Class
  | .video => .video
  | .audio => .audio

/-- The packet with the timestamps that `Read` gives it. -/
def FFDemux.converted (ic : AVFormatContext) (p : AVPacket) : AVPacket :=
  { p with pts := toMillis ic p.stream_index p.pts, dts := toMillis ic p.stream_index p.dts }

/-- The packets of the stream that `d` decodes. -/
def Container.stream (c : Container) (d : Dec) (ps : List AVPacket) : List AVPacket :=
  (ps.filter fun p => (p.stream_index : ℤ) = c.best d.mediaType).map (FFDemux.converted ⟨c, []⟩)

/-- Those of them that are not empty: the only ones that are passed on. -/
def Container.playable (c : Container) (d : Dec) (ps : List AVPacket) : List AVPacket :=
  (c.stream d ps).filter fun p => 0 < p.size

/-- The packets for `d` that `Read` has still to return. -/
def FFDemux.coming (D : FFDemux) (d : Dec) : List AVPacket :=
  match D.ic with
  | none => []
  | some ic =>
    (ic.packets.filter fun p => decide (D.classify p.stream_index = d.class) && decide (0 < p.size)).map
      (converted ic)

/-- The packet that `SendPacket` passes to the codec. -/
def XData.sendable (x : XData) : Option AVPacket := if x.size ≤ 0 then none else x.pkt

theorem FFDemux.read_coming (D : FFDemux) (h : ℕ) (d : Dec) : D.coming d =
    (if (D.read h).1.isAudio = d.kind then [(D.read h).1] else []).filterMap XData.sendable ++ (D.read h).2.coming d := by
  rcases hic : D.ic with _ | ic
  · cases d <;> simp [read, coming, hic, XData.sendable]
  · rcases hp : ic.packets with _ | ⟨p, rest⟩
    · cases d <;> simp [read, coming, hic, hp, XData.sendable]
    · have hc : D.coming d = (if decide (D.classify p.stream_index = d.class) && decide (0 < p.size) then
          [converted ic p] else []) ++ ({ D with ic := some { ic with packets := rest } } : FFDemux).coming d := by
        simp only [coming, hic, hp, List.filter_cons]
        split <;> rfl
      have hs : ∀ b, (packetData ic h p b).sendable = if 0 < p.size then some (converted ic p) else none := by
        intro b
        simp only [XData.sendable, packetData, XData.pkt, converted, ← not_lt]
        split <;> simp_all
      have hk : ∀ b, (packetData ic h p b).isAudio = b := fun _ => rfl
      have hn : ({} : XData).sendable = none := rfl
      rw [hc, read_cons hic hp]
      congr 1
      rcases D.classify p.stream_index with _ | _ | _ <;> cases d <;>
        by_cases hz : 0 < p.size <;> simp [Dec.class, Dec.kind, hk, hn, hs, hz]

theorem FFDecode.sendPacket_eq (D : FFDecode K) (x : XData) : D.sendPacket L x =
    match x.sendable with
    | none => (false, D)
    | some p => ((L.machine.send D.codec p).1, { D with codec := (L.machine.send D.codec p).2 }) := by
  unfold sendPacket XData.sendable
  by_cases hx : x.size ≤ 0
  · simp [hx]
  · rcases hd : x.data with _ | ⟨h, p⟩ | f | h <;> simp [hx, hd, XData.pkt]

/-- The type of the codec context. -/
def FFDecode.type (D : FFDecode K) : AVMediaType := (D.codec.map (·.codec_type)).getD .unknown

theorem FFmpeg.onCtx_type {α : Type} (a : α) (f : K → α × K) (c : Option (AVCodecContext K)) :
    (onCtx a f c).2.map (·.codec_type) = c.map (·.codec_type) := by
  unfold onCtx
  split <;> rfl

theorem FFDecode.sendPacket_type (D : FFDecode K) (x : XData) : (D.sendPacket L x).2.type = D.type := by
  rw [sendPacket_eq]
  split
  · rfl
  · exact congrArg (fun t => Option.getD t _) (FFmpeg.onCtx_type ..)

theorem FFDecode.recvFrame_none {D : FFDecode K} (h : (D.recvFrame L).1.data = .null) :
    L.machine.recv D.codec = (none, (D.recvFrame L).2.codec) := by
  unfold recvFrame at h ⊢
  rcases hr : L.machine.recv D.codec with ⟨_ | f, c⟩
  · rfl
  · rw [hr] at h
    cases h

theorem FFDecode.recvFrame_some {D : FFDecode K} (h : (D.recvFrame L).1.data ≠ .null) : ∃ f,
    L.machine.recv D.codec = (some f, (D.recvFrame L).2.codec) ∧ (D.recvFrame L).1 = frameData D.type f := by
  unfold recvFrame at h ⊢
  rcases hr : L.machine.recv D.codec with ⟨_ | f, c⟩ <;> rw [hr] at h
  · exact absurd rfl h
  · exact ⟨f, rfl, rfl⟩

theorem FFDecode.recvFrame_type (D : FFDecode K) : (D.recvFrame L).2.type = D.type := by
  have hc : (D.recvFrame L).2.codec = (L.machine.recv D.codec).2 := by
    unfold recvFrame
    rcases L.machine.recv D.codec with ⟨_ | f, c⟩ <;> rfl
  unfold type
  rw [hc]
  exact congrArg (fun t => Option.getD t _) (FFmpeg.onCtx_type ..)

/-! ### What is still to come -/

/-- The packets that a worker of the demuxer has still to pass to `d`. -/
def UpdatePc.ahead (d : Dec) : UpdatePc → List XData
  | .enter .video x => if x.isAudio = d.kind then [x] else []
  | .enter .audio x => if d = .audio ∧ x.isAudio = true then [x] else []
  | .exitTest d' x | .section d' x => if d' = d then [x] else []

def DemuxPc.ahead (d : Dec) : DemuxPc → List XData
  | .notify x => if x.isAudio = d.kind then [x] else []
  | .update u => u.ahead d
  | _ => []

/-- `Update` goes on only with the packets of its own kind. -/
def DemuxPc.Kind : DemuxPc → Prop
  | .update (.exitTest d x) | .update (.section d x) => x.isAudio = d.kind
  | _ => True

/-- The frames that a worker has still to pass to `Notify`, and the codec afterwards; `t` is the type of the
codec. -/
def DecPc.rest (L : FFmpeg K) (t : AVMediaType) (c : Option (AVCodecContext K)) :
    DecPc → List XData × Option (AVCodecContext K)
  | .send x =>
    match x.sendable with
    | none => ([], c)
    | some p => ((L.machine.feedOne c p).1.map (frameData t), (L.machine.feedOne c p).2)
  | .innerExit _ | .recv _ | .resample _ _ | .pcmExit _ _ | .pcmSection _ _ =>
    ((L.machine.drain c).1.map (frameData t), (L.machine.drain c).2)
  | .notify _ f => (f :: (L.machine.drain c).1.map (frameData t), (L.machine.drain c).2)
  | _ => ([], c)

/-- The frame that a worker is about to pass to `Notify`. -/
def DecPc.showing : DecPc → List XData
  | .notify _ f => [f]
  | _ => []

/-- The frames that `d` passes to `Notify`. -/
def Event.notified (d : Dec) : Event → Option XData
  | .notify d' f => if d' = d then some f else none
  | _ => none

namespace Player
variable {s s' t : Player K}

/-- The frames that `d` has passed to `Notify`, in order. -/
def notified (s : Player K) (d : Dec) : List XData := (s.log.filterMap (Event.notified d)).reverse

/-- The packets that `d` has still to decode. -/
def ahead (s : Player K) (d : Dec) : List AVPacket :=
  ((s.dec d).packs ++ (s.demuxW 0).ahead d).filterMap XData.sendable ++ s.demux.coming d

/-- The frames that `d` has still to pass to `Notify`, and the codec afterwards. -/
def future (L : FFmpeg K) (s : Player K) (d : Dec) : List XData × Option (AVCodecContext K) :=
  let r := (s.decW d 0).rest L (s.dec d).type (s.dec d).codec
  (r.1 ++ (L.machine.feed r.2 (s.ahead d)).1.map (frameData (s.dec d).type), (L.machine.feed r.2 (s.ahead d)).2)

/-- What `d` has passed to `Notify` and will still do. -/
def output (L : FFmpeg K) (s : Player K) (d : Dec) : List XData × Option (AVCodecContext K) :=
  (s.notified d ++ (s.future L d).1, (s.future L d).2)

theorem output_congr {d : Dec} (hn : t.log.filterMap (Event.notified d) = s.log.filterMap (Event.notified d))
    (hr : (t.decW d 0).rest L (t.dec d).type (t.dec d).codec = (s.decW d 0).rest L (s.dec d).type (s.dec d).codec)
    (ht : (t.dec d).type = (s.dec d).type) (ha : t.ahead d = s.ahead d) : t.output L d = s.output L d := by
  unfold output future notified
  rw [hn, hr, ht, ha]

theorem Updates.ahead {w : Holder} {u : UpdatePc} {r : Option UpdatePc} (h : Updates w s u t r)
    (hk : ∀ d, (s.dec d).isAudio = d.kind) (hu : (DemuxPc.update u).Kind) (d : Dec)
    (hl : ∀ d' x, u = .exitTest d' x → d' = d → s.isExit (.dec d) = false) :
    (t.dec d).packs ++ (r.map (UpdatePc.ahead d)).getD [] = (s.dec d).packs ++ u.ahead d ∧
      ∀ u', r = some u' → (DemuxPc.update u').Kind := by
  cases h with
  | @skip d' x h =>
    rw [hk] at h
    cases d' <;> cases d <;> simp_all [UpdatePc.next, UpdatePc.ahead, Dec.kind, DemuxPc.Kind]
  | @accept d' x h =>
    rw [hk] at h
    cases d' <;> cases d <;> simp_all [UpdatePc.ahead, Dec.kind, DemuxPc.Kind]
  | @lost d' x h =>
    have hne : d' ≠ d := by
      rintro rfl
      exact absurd (h.symm.trans (hl _ _ rfl rfl)) Bool.false_ne_true.symm
    cases d' <;> cases d <;> simp_all [UpdatePc.next, UpdatePc.ahead, Dec.kind, DemuxPc.Kind]
  | @go d' x h => exact ⟨rfl, fun u' he => by cases he; exact hu⟩
  | @push d' x hm h =>
    cases d' <;> cases d <;>
      simp_all [UpdatePc.next, UpdatePc.ahead, Dec.kind, DemuxPc.Kind, pushed, emit, setDec]
  | @full d' x => exact ⟨rfl, fun u' he => by cases he; exact hu⟩

theorem Demuxes.ahead {pc pc' : DemuxPc} (h : Demuxes 0 s pc t pc') (hk : ∀ d, (s.dec d).isAudio = d.kind)
    (hpc : pc.Kind) (d : Dec)
    (hl : ∀ d' x, pc = .update (.exitTest d' x) → d' = d → s.isExit (.dec d) = false) :
    ((t.dec d).packs ++ pc'.ahead d).filterMap XData.sendable ++ t.demux.coming d =
      ((s.dec d).packs ++ pc.ahead d).filterMap XData.sendable ++ s.demux.coming d ∧ pc'.Kind := by
  have hread : ∀ {pc' : DemuxPc}, (pc'.ahead d).filterMap XData.sendable =
      (if (s.readBy (.demux 0)).1.isAudio = d.kind then [(s.readBy (.demux 0)).1] else []).filterMap XData.sendable →
      (((s.readBy (.demux 0)).2.dec d).packs ++ pc'.ahead d).filterMap XData.sendable ++
        (s.readBy (.demux 0)).2.demux.coming d =
          ((s.dec d).packs ++ []).filterMap XData.sendable ++ s.demux.coming d := by
    intro pc' he
    have hr : (s.readBy (.demux 0)).1 = (s.demux.read s.fresh).1 := rfl
    rw [List.filterMap_append, he, hr, readBy_eq]
    simp only [List.append_nil, List.append_assoc]
    rw [← FFDemux.read_coming]
  cases h with
  | read hx => exact ⟨hread rfl, trivial⟩
  | nothing hx =>
    refine ⟨hread ?_, trivial⟩
    have hn : (s.readBy (.demux 0)).1.sendable = none := if_pos hx
    split <;> simp [hn, DemuxPc.ahead]
  | notify => exact ⟨rfl, trivial⟩
  | @update u _ u' hu =>
    obtain ⟨h1, h2⟩ := hu.ahead hk hpc d fun d' x he => hl d' x (by rw [he])
    refine ⟨?_, h2 _ rfl⟩
    rw [updates_eq hu]
    exact congrArg (fun l => l.filterMap XData.sendable ++ s.demux.coming d) h1
  | @done u _ hu =>
    obtain ⟨h1, -⟩ := hu.ahead hk hpc d fun d' x he => hl d' x (by rw [he])
    refine ⟨?_, trivial⟩
    rw [updates_eq hu]
    exact congrArg (fun l => l.filterMap XData.sendable ++ s.demux.coming d) h1
  | _ => exact ⟨rfl, trivial⟩

theorem notified_moves (d : Dec) (e : Event) (h : e.moves = true) : e.notified d = none := by
  cases e <;> first | rfl | cases h

theorem Decodes.packs_eq {d : Dec} {n : ℕ} {pc pc' : DecPc} (h : Decodes L d n s pc t pc') (hl : pc.locked = true) :
    (t.dec d).packs = (s.dec d).packs := by
  cases h with
  | pop => cases hl
  | sent | unsent => exact (congrArg FFDecode.packs (s.setDec_self d _)).trans (sendPacket_packs ..)
  | drained | recv => exact (congrArg FFDecode.packs (s.setDec_self d _)).trans (recvFrame_packs _)
  | _ => rfl

theorem Decodes.notified_eq {d : Dec} {n : ℕ} {pc pc' : DecPc} (h : Decodes L d n s pc t pc') :
    t.notified d = s.notified d ++ pc.showing := by
  cases h with
  | «show» | notify => simp [Player.notified, emit, Event.notified, DecPc.showing]
  | _ => exact (List.append_nil _).symm

theorem sent_rest {D : FFDecode K} {x : XData} (h : (D.sendPacket L x).1 = true) (ty : AVMediaType) :
    (DecPc.innerExit x).rest L ty (D.sendPacket L x).2.codec = (DecPc.send x).rest L ty D.codec := by
  rw [FFDecode.sendPacket_eq] at h ⊢
  rcases hp : x.sendable with _ | p
  · rw [hp] at h
    cases h
  · rw [hp] at h
    have hs : L.machine.send D.codec p = (true, (L.machine.send D.codec p).2) := Prod.ext h rfl
    simp only [DecPc.rest, hp, L.machine.feedOne_accepted hs]

theorem unsent_rest {D : FFDecode K} {x : XData} (h : (D.sendPacket L x).1 = false) (ty : AVMediaType) :
    (DecPc.drop x).rest L ty (D.sendPacket L x).2.codec = (DecPc.send x).rest L ty D.codec := by
  rw [FFDecode.sendPacket_eq] at h ⊢
  rcases hp : x.sendable with _ | p
  · simp only [DecPc.rest, hp]
  · rw [hp] at h
    have hs : L.machine.send D.codec p = (false, (L.machine.send D.codec p).2) := Prod.ext h rfl
    simp only [DecPc.rest, hp, L.machine.feedOne_refused hs, List.map_nil]

/-- A step of a worker in its section: what it had still to show is what it shows now and what it will still
show. -/
theorem Decodes.rest {d : Dec} {n : ℕ} {pc pc' : DecPc} (h : Decodes L d n s pc t pc') (hl : pc.locked = true)
    (hx : ∀ x, pc = .innerExit x → s.isExit (.dec d) = false) :
    (t.dec d).type = (s.dec d).type ∧ pc.rest L (s.dec d).type (s.dec d).codec =
      (pc.showing ++ (pc'.rest L (s.dec d).type (t.dec d).codec).1, (pc'.rest L (s.dec d).type (t.dec d).codec).2) := by
  cases h with
  | exit | more | paused | run | shut | empty | pop => cases hl
  | @sent x hs =>
    refine ⟨(congrArg FFDecode.type (s.setDec_self d _)).trans (FFDecode.sendPacket_type ..), ?_⟩
    rw [← sent_rest hs]
    show _ = ((DecPc.innerExit x).rest L (s.dec d).type ((s.setDec d _).dec d).codec)
    rw [setDec_self]
  | @unsent x hs =>
    refine ⟨(congrArg FFDecode.type (s.setDec_self d _)).trans (FFDecode.sendPacket_type ..), ?_⟩
    rw [← unsent_rest hs]
    show _ = ((DecPc.drop x).rest L (s.dec d).type ((s.setDec d _).dec d).codec)
    rw [setDec_self]
  | innerExit hx' => exact absurd (hx'.symm.trans (hx _ rfl)) Bool.false_ne_true.symm
  | drained hr =>
    refine ⟨(congrArg FFDecode.type (s.setDec_self d _)).trans (FFDecode.recvFrame_type _), ?_⟩
    rw [setDec_self]
    simp only [DecPc.rest, DecPc.showing, L.machine.drain_none (FFDecode.recvFrame_none hr), List.map_nil,
      List.append_nil]
  | recv hr =>
    refine ⟨(congrArg FFDecode.type (s.setDec_self d _)).trans (FFDecode.recvFrame_type _), ?_⟩
    obtain ⟨f, hf, hd⟩ := FFDecode.recvFrame_some hr
    rw [setDec_self]
    simp only [DecPc.rest, DecPc.showing, L.machine.drain_some hf, hd, List.map_cons, List.nil_append]
  | _ => exact ⟨rfl, rfl⟩

theorem Decodes.output {d : Dec} {pc pc' : DecPc} (h : Decodes L d 0 s pc t pc') (hpc : s.decW d 0 = pc)
    (hx : ∀ x, pc = .innerExit x → s.isExit (.dec d) = false) :
    (t.setDecW d 0 pc').output L d = s.output L d := by
  by_cases hl : pc.locked = true
  · obtain ⟨ht, hr⟩ := h.rest hl hx
    have hp : (t.dec d).packs = (s.dec d).packs := h.packs_eq hl
    have ha : (t.setDecW d 0 pc').ahead d = s.ahead d := by
      show ((t.dec d).packs ++ (t.demuxW 0).ahead d).filterMap XData.sendable ++ t.demux.coming d = _
      rw [hp, (congrArg Player.demuxW h.eq :), (congrArg Player.demux h.eq :)]
      rfl
    have hd : (t.setDecW d 0 pc').dec d = t.dec d := rfl
    have hn : (t.setDecW d 0 pc').notified d = s.notified d ++ pc.showing := h.notified_eq
    unfold Player.output future
    rw [hn, ha, hd, ht, hpc, hr, setDecW_decW, if_pos ⟨rfl, rfl⟩]
    simp only [List.append_assoc]
  · cases h with
    | exit | more | paused | run | shut | empty =>
      exact output_congr rfl (by rw [setDecW_decW, if_pos ⟨rfl, rfl⟩, hpc]; rfl) rfl rfl
    | @pop x rest hm hg hp =>
      have hd : ((s.popped d 0 x rest).setDecW d 0 (.send x)).dec d = { s.dec d with packs := rest } :=
        s.setDec_self d { s.dec d with packs := rest }
      have ha : s.ahead d = x.sendable.toList ++ ((s.popped d 0 x rest).setDecW d 0 (.send x)).ahead d := by
        unfold ahead
        rw [hd, hp]
        rcases hx : x.sendable with _ | p <;> simp [hx] <;> rfl
      have hn : ((s.popped d 0 x rest).setDecW d 0 (.send x)).notified d = s.notified d := rfl
      unfold Player.output future
      rw [hn, ha, hpc, setDecW_decW, if_pos ⟨rfl, rfl⟩, hd]
      rcases hx : x.sendable with _ | p
      · simp only [DecPc.rest, hx]
        rfl
      · simp only [DecPc.rest, hx, Option.toList_some, List.cons_append, List.nil_append, SendRecv.feed, List.map_append]
        rfl
    | _ => exact absurd rfl hl

end Player

/-! ### A run that plays the file -/

/-- The commands of `Start`. -/
def Cmd.starts : Cmd → Bool
  | .lock | .unlock | .exit _ false | .pause .. | .spawn _ | .clearFrames | .ret _ => true
  | _ => false

def Cmd.spawns (o : Obj) : Cmd → Bool
  | .spawn o' => decide (o' = o)
  | _ => false

/-- A thread is spawned once its `isExit` is reset, and the demuxer once that of `vDecode` is reset. -/
def SpawnsRunning (c : Cmd) (F : Obj → Flags) : Prop :=
  ∀ o, c = .spawn o → (F o).isExit = false ∧ (o = .demux → (F (.dec .video)).isExit = false)

theorem startCmds_starts (sl : Bool) : ∀ c ∈ (Call.start sl).program, c.starts = true := by
  cases sl <;> simp [Call.program, startCmds, startThread, Cmd.starts]

theorem startCmds_running (sl : Bool) (F : Obj → Flags) :
    Finds SpawnsRunning (fun _ => True) (Call.start sl).program F := by
  cases sl <;> simp [Call.program, startCmds, startThread, Finds, SpawnsRunning, Cmd.flags]

theorem startCmds_spawns (sl : Bool) : (Call.start sl).program.countP (Cmd.spawns .demux) = 1 ∧
    ∀ d, (Call.start sl).program.countP (Cmd.spawns (.dec d)) = 1 := by
  refine ⟨by cases sl <;> rfl, fun d => ?_⟩
  cases sl <;> cases d <;> rfl

/-- The demuxer is about to test the `isExit` of `d`. -/
def DemuxPc.entering (d : Dec) : DemuxPc → Bool
  | .update (.exitTest d' _) => decide (d' = d)
  | _ => false

/-- The steps of a run that plays the file: `Start` is called once, and nothing else. The condition is that
`d` has been started when the demuxer passes a packet to it. -/
def PlaysOn (d : Dec) (a : Act) (s : Player K) : Prop :=
  match a with
  | .request c => c.kind = .start ∧ s.demuxN = 0
  | .demux n => (s.demuxW n).entering d = true → s.isExit (.dec d) = false
  | _ => True

instance (d : Dec) : (a : Act) → (s : Player K) → Decidable (PlaysOn d a s)
  | .request _, _ => inferInstanceAs (Decidable (_ ∧ _))
  | .demux _, _ => inferInstanceAs (Decidable (_ → _))
  | .dec _ _, _ | .sync _, _ | .device, _ | .call, _ | .ui, _ => inferInstanceAs (Decidable True)

namespace Player
variable {s s' t : Player K}

structure Plays (L : FFmpeg K) (d : Dec) (F : List XData × Option (AVCodecContext K)) (s : Player K) : Prop where
  holds : Holds s
  spawned : Spawned s
  starts : ∀ c ∈ s.ui, c.starts = true
  finds : Finds SpawnsRunning (fun _ => True) s.ui s.flags
  /-- The demuxer and the decoders are started together and once. -/
  together : ∀ d, s.decN d + s.ui.countP (Cmd.spawns (.dec d)) = s.demuxN + s.ui.countP (Cmd.spawns .demux)
  once : s.demuxN + s.ui.countP (Cmd.spawns .demux) ≤ 1
  running : ∀ d, 0 < s.decN d → s.isExit (.dec d) = false
  demuxing : 0 < s.demuxN → s.isExit (.dec .video) = false
  kind : ∀ d, (s.dec d).isAudio = d.kind
  matched : (s.demuxW 0).Kind
  output : s.output L d = F

variable {d : Dec} {F : List XData × Option (AVCodecContext K)}

theorem Plays.demuxN_le (h : Plays L d F s) : s.demuxN ≤ 1 := by
  have := h.once
  omega

theorem Plays.decN_le (h : Plays L d F s) (d' : Dec) : s.decN d' ≤ 1 := by
  have := h.together d'
  have := h.once
  omega

/-- There is no other worker of the demuxer. -/
theorem Plays.only_demux (h : Plays L d F s) {n : ℕ} {pc : DemuxPc} (hd : Demuxes n s (s.demuxW n) t pc) : n = 0 := by
  by_contra hn
  rw [h.spawned.demux n (h.demuxN_le.trans (Nat.one_le_iff_ne_zero.mpr hn))] at hd
  cases hd

theorem Plays.only_dec (h : Plays L d F s) {d' : Dec} {n : ℕ} {pc : DecPc}
    (hd : Decodes L d' n s (s.decW d' n) t pc) : n = 0 := by
  by_contra hn
  rw [h.holds.gone d' n ((h.decN_le d').trans (Nat.one_le_iff_ne_zero.mpr hn))] at hd
  cases hd

/-- A step of a thread that keeps the flags, the workers and the commands. -/
theorem Plays.of_eq (h : Plays L d F s) (hH : Holds t) (hS : Spawned t) (hF : t.flags = s.flags) (hU : t.ui = s.ui)
    (hN : t.demuxN = s.demuxN) (hM : t.decN = s.decN) (hk : ∀ d, (t.dec d).isAudio = (s.dec d).isAudio)
    (hm : (t.demuxW 0).Kind) (ho : t.output L d = s.output L d) : Plays L d F t := by
  refine ⟨hH, hS, ?_, ?_, ?_, ?_, ?_, ?_, fun d' => (hk d').trans (h.kind d'), hm, ho.trans h.output⟩
  · rw [hU]
    exact h.starts
  · rw [hU, hF]
    exact h.finds
  · rw [hU, hN, hM]
    exact h.together
  · rw [hU, hN]
    exact h.once
  · unfold isExit
    rw [hF, hM]
    exact h.running
  · unfold isExit
    rw [hF, hN]
    exact h.demuxing

theorem Plays.demux (L : FFmpeg K) (h : Plays L d F s) {n : ℕ} {pc : DemuxPc}
    (hd : Demuxes n s (s.demuxW n) t pc) (ha : PlaysOn d (.demux n) s) : Plays L d F (t.setDemux n pc) := by
  have hs : Steps L s (.demux n) (t.setDemux n pc) := .demux hd
  obtain rfl := h.only_demux hd
  have hl : ∀ d' x, s.demuxW 0 = .update (.exitTest d' x) → d' = d → s.isExit (.dec d) = false := by
    rintro d' x hpc rfl
    exact ha (by simp [hpc, DemuxPc.entering])
  obtain ⟨h1, h2⟩ := hd.ahead h.kind h.matched d hl
  have hW : t.decW = s.decW := (congrArg Player.decW hd.eq :)
  have hD : t.demuxW = s.demuxW := (congrArg Player.demuxW hd.eq :)
  have hm : (t.setDemux 0 pc).demuxW 0 = pc := by simp [setDemux]
  refine h.of_eq (h.holds.step hs) (h.spawned.step hs) (congrArg Player.flags hd.eq :) (congrArg Player.ui hd.eq :)
    (congrArg Player.demuxN hd.eq :) (congrArg Player.decN hd.eq :)
    (fun d' => (congrArg FFDecode.isAudio (hd.dec_fields d') :)) (by rw [hm]; exact h2) ?_
  have hc : (t.dec d).codec = (s.dec d).codec := (congrArg FFDecode.codec (hd.dec_fields d) :)
  have ht : (t.dec d).type = (s.dec d).type := congrArg (fun c : Option (AVCodecContext K) => (c.map _).getD _) hc
  refine output_congr ?_ ?_ ht ?_
  · exact (hd.log_eq (notified_moves d) :)
  · show (t.decW d 0).rest L (t.dec d).type (t.dec d).codec = _
    rw [hW, hc, ht]
  · unfold Player.ahead
    rw [hm]
    exact h1

theorem Plays.dec (h : Plays L d F s) {d' : Dec} {n : ℕ} {pc : DecPc} (hd : Decodes L d' n s (s.decW d' n) t pc) :
    Plays L d F (t.setDecW d' n pc) := by
  have hs : Steps L s (.dec d' n) (t.setDecW d' n pc) := .dec hd
  obtain rfl := h.only_dec hd
  have hW : t.decW = s.decW := (congrArg Player.decW hd.eq :)
  have hD : t.demuxW = s.demuxW := (congrArg Player.demuxW hd.eq :)
  refine h.of_eq (h.holds.step hs) (h.spawned.step hs) (congrArg Player.flags hd.eq :) (congrArg Player.ui hd.eq :)
    (congrArg Player.demuxN hd.eq :) (congrArg Player.decN hd.eq :)
    (fun d₁ => (congrArg FFDecode.isAudio (hd.dec_fields d₁) :)) ?_ ?_
  · show (t.demuxW 0).Kind
    rw [hD]
    exact h.matched
  · by_cases hdd : d' = d
    · subst hdd
      refine hd.output rfl fun x hx => h.running d' (Nat.pos_of_ne_zero fun h0 => ?_)
      rw [h.holds.gone d' 0 h0.le] at hx
      cases hx
    · have hdec : t.dec d = s.dec d := hd.dec_other (Ne.symm hdd)
      refine output_congr ?_ ?_ (congrArg FFDecode.type hdec) ?_
      · show t.log.filterMap (Event.notified d) = _
        generalize s.decW d' 0 = pc₀ at hd
        cases hd with
        | «show» | notify => exact List.filterMap_cons_none (if_neg hdd)
        | _ => rfl
      · rw [setDecW_decW, if_neg fun he => hdd he.1.symm, hW]
        show (s.decW d 0).rest L (t.dec d).type (t.dec d).codec = _
        rw [hdec]
      · show ((t.dec d).packs ++ (t.demuxW 0).ahead d).filterMap XData.sendable ++ t.demux.coming d = _
        rw [hdec, hD, (congrArg Player.demux hd.eq :)]
        rfl

theorem Plays.command (h : Plays L d F s) {c : Cmd} {cs cs' : List Cmd} (hui : s.ui = c :: cs)
    (hc : Commands L cs s c t cs') : Plays L d F { t with ui := cs' } := by
  have hs : Steps L s .ui { t with ui := cs' } := .ui hui hc
  have hst := h.starts
  rw [hui, List.forall_mem_cons] at hst
  have hf := h.finds
  rw [hui] at hf
  have htog := h.together
  have honce := h.once
  simp only [hui, List.countP_cons] at htog honce
  have hlog : t.log.filterMap (Event.notified d) = s.log.filterMap (Event.notified d) :=
    hc.log_keep (notified_moves d) fun _ _ => rfl
  have hH := h.holds.step hs
  have hS := h.spawned.step hs
  have hplain : t.dec = s.dec → t.demux = s.demux → t.decW = s.decW → t.demuxW = s.demuxW →
      (∀ d, (t.dec d).isAudio = d.kind) ∧ (t.demuxW 0).Kind ∧ ({ t with ui := cs' } : Player K).output L d = F := by
    intro h1 h2 h3 h4
    refine ⟨fun d => by rw [h1]; exact h.kind d, by rw [h4]; exact h.matched, ?_⟩
    refine (output_congr hlog ?_ ?_ ?_).trans h.output
    · show (t.decW d 0).rest L (t.dec d).type (t.dec d).codec = _
      rw [h1, h3]
    · show (t.dec d).type = _
      rw [h1]
    · show ((t.dec d).packs ++ (t.demuxW 0).ahead d).filterMap XData.sendable ++ t.demux.coming d = _
      rw [h1, h2, h4]
      rfl
  cases hc with
  | @exit o b =>
    cases b with
    | true => cases hst.1
    | false =>
      obtain ⟨hk, hm, ho⟩ := hplain rfl rfl rfl rfl
      have hw : ∀ o', s.isExit o' = false →
          (writeExit s.flags o false o').isExit = false := fun o' ho' => by
        rw [writeExit_isExit]
        split
        · rfl
        · exact ho'
      exact ⟨hH, hS, hst.2, hf.2, htog, honce, fun d hd => hw _ (h.running d hd), fun hd => hw _ (h.demuxing hd), hk,
        hm, ho⟩
  | @pause o b =>
    obtain ⟨hk, hm, ho⟩ := hplain rfl rfl rfl rfl
    have hw : ∀ o', s.isExit o' = false → (writePause s.flags o b o').isExit = false := fun o' ho' => by
      rw [writePause_isExit]
      exact ho'
    exact ⟨hH, hS, hst.2, hf.2, htog, honce, fun d hd => hw _ (h.running d hd), fun hd => hw _ (h.demuxing hd), hk,
      hm, ho⟩
  | @spawn o =>
    have hrun := hf.1 o rfl
    cases o with
    | player | audioPlay =>
      obtain ⟨hk, hm, ho⟩ := hplain rfl rfl rfl rfl
      exact ⟨hH, hS, hst.2, hf.2, htog, honce, h.running, h.demuxing, hk, hm, ho⟩
    | demux =>
      have hgone : ∀ β : Type, ∀ g : DemuxPc → β, g .gone = g .exitTest →
          g (Function.update s.demuxW s.demuxN .exitTest 0) = g (s.demuxW 0) := by
        intro β g hg
        rw [Function.update_apply]
        split
        · rename_i h0
          rw [h.spawned.demux 0 h0.ge, hg]
        · rfl
      refine ⟨hH, hS, hst.2, hf.2, fun d => ?_, ?_, h.running, fun _ => hrun.2 rfl, h.kind, ?_, ?_⟩
      · have := htog d
        simp only [Cmd.spawns] at this ⊢
        show s.decN d + cs.countP _ = s.demuxN + 1 + cs.countP _
        simp at this
        omega
      · show s.demuxN + 1 + cs.countP _ ≤ 1
        simp [Cmd.spawns] at honce
        omega
      · exact (hgone Prop DemuxPc.Kind rfl).mpr h.matched
      · refine (output_congr hlog rfl rfl ?_).trans h.output
        show ((s.dec d).packs ++ (Function.update s.demuxW s.demuxN .exitTest 0).ahead d).filterMap XData.sendable ++
          s.demux.coming d = _
        rw [hgone _ (DemuxPc.ahead d) rfl]
        rfl
    | dec d' =>
      refine ⟨hH, hS, hst.2, hf.2, fun d₁ => ?_, honce, fun d₁ h₁ => ?_, h.demuxing, h.kind, h.matched, ?_⟩
      · have := htog d₁
        show Function.update s.decN d' (s.decN d' + 1) d₁ + cs.countP _ = s.demuxN + cs.countP _
        by_cases hd : d₁ = d'
        · subst hd
          rw [Function.update_self]
          simp [Cmd.spawns] at this
          omega
        · rw [Function.update_of_ne hd]
          simpa [Cmd.spawns, Ne.symm hd] using this
      · show s.isExit (.dec d₁) = false
        by_cases hd : d₁ = d'
        · subst hd
          exact hrun.1
        · have h₁ : 0 < Function.update s.decN d' (s.decN d' + 1) d₁ := h₁
          rw [Function.update_of_ne hd] at h₁
          exact h.running d₁ h₁
      · refine (output_congr hlog ?_ rfl rfl).trans h.output
        show ((s.setDecW d' (s.decN d') .exitTest).decW d 0).rest L _ _ = _
        rw [setDecW_decW]
        split
        · rename_i he
          obtain ⟨rfl, h0⟩ := he
          rw [h.holds.gone d 0 h0.ge]
          rfl
        · rfl
  | lock | unlock | clearFrames | ret =>
    obtain ⟨hk, hm, ho⟩ := hplain rfl rfl rfl rfl
    exact ⟨hH, hS, hst.2, hf.2, htog, honce, h.running, h.demuxing, hk, hm, ho⟩
  | _ => cases hst.1

theorem Plays.step (h : Plays L d F s) {a : Act} (ha : PlaysOn d a s) (hs : Steps L s a t) : Plays L d F t := by
  have hH := h.holds.step hs
  have hS := h.spawned.step hs
  cases hs with
  | demux hd => exact h.demux L hd ha
  | dec hd => exact h.dec hd
  | ui hui hc => exact h.command hui hc
  | @sync n hp hm =>
    refine h.of_eq hH hS rfl rfl rfl rfl (fun d' => by cases d' <;> rfl) h.matched (output_congr ?_ ?_ ?_ ?_)
    · exact List.filterMap_cons_none rfl
    · cases d <;> rfl
    · cases d <;> rfl
    · cases d <;> rfl
  | syncExit | syncMore | device =>
    exact h.of_eq hH hS rfl rfl rfl rfl (fun _ => rfl) h.matched (output_congr rfl rfl rfl rfl)
  | @call pc hp =>
    refine h.of_eq hH hS rfl rfl rfl rfl (fun _ => rfl) h.matched (output_congr ?_ rfl rfl rfl)
    simp only [List.filterMap_append]
    rw [callEvent_log (fun _ => rfl) fun _ => rfl]
    rfl
  | @request c hui =>
    obtain ⟨hk, hN⟩ := ha
    cases c with
    | start sl =>
      obtain ⟨h1, h2⟩ := startCmds_spawns sl
      have htog := h.together
      simp only [hui, List.countP_nil, hN] at htog
      refine ⟨hH, hS, startCmds_starts sl, startCmds_running sl _, fun d' => ?_, ?_, h.running, h.demuxing, h.kind,
        h.matched, (output_congr rfl rfl rfl rfl).trans h.output⟩
      · show s.decN d' + (Call.start sl).program.countP _ = s.demuxN + (Call.start sl).program.countP _
        have := htog d'
        rw [h1, h2]
        omega
      · show s.demuxN + (Call.start sl).program.countP _ ≤ 1
        rw [h1, hN]
    | _ => cases hk

/-! ### `Open` -/

/-- Nothing has been started. -/
structure Unstarted (s : Player K) : Prop where
  decW : ∀ d n, s.decW d n = .gone
  demuxW : ∀ n, s.demuxW n = .gone
  syncW : ∀ n, s.syncW n = .gone
  decN : ∀ d, s.decN d = 0
  demuxN : s.demuxN = 0
  packsMutex : ∀ d, s.packsMutex d = none
  packs : ∀ d, (s.dec d).packs = []
  video : (s.dec .video).isAudio = false
  notified : ∀ d, s.log.filterMap (Event.notified d) = []

theorem Unstarted.command (h : Unstarted s) {c : Cmd} {cs cs' : List Cmd} (hc : Commands L cs s c t cs')
    (hop : c.opens = true) : Unstarted t := by
  have hlog : ∀ d, t.log.filterMap (Event.notified d) = [] := fun d =>
    (hc.log_keep (notified_moves d) fun _ _ => rfl).trans (h.notified d)
  have hset : ∀ (d : Dec) (D : FFDecode K), D.packs = [] → (d = .video → D.isAudio = false) →
      (∀ d', ((s.setDec d D).dec d').packs = []) ∧ ((s.setDec d D).dec .video).isAudio = false := by
    intro d D hp ha
    refine ⟨fun d' => ?_, ?_⟩
    · by_cases hd : d' = d
      · subst hd
        rw [setDec_self]
        exact hp
      · rw [setDec_ne _ _ hd]
        exact h.packs d'
    · by_cases hd : d = .video
      · subst hd
        rw [setDec_self]
        exact ha rfl
      · rw [setDec_ne _ _ (Ne.symm hd)]
        exact h.video
  have hd : (∀ d, (t.dec d).packs = []) ∧ (t.dec .video).isAudio = false := by
    cases hc with
    | @clear d => exact hset d (s.dec d).clear rfl fun hv => by subst hv; exact h.video
    | @flush d => exact hset d _ (h.packs d) fun hv => by subst hv; exact h.video
    | @free d => exact hset d _ (h.packs d) fun hv => by subst hv; exact h.video
    | @openDec d o =>
      refine hset d _ ((openDec_packs _ _ _).trans (h.packs d)) ?_
      rintro rfl
      exact open_isAudio _ o s.demux h.video
    | spawn | seek | sought => cases hop
    | _ => exact ⟨h.packs, h.video⟩
  cases hc with
  | spawn | seek | sought => cases hop
  | _ => exact ⟨h.decW, h.demuxW, h.syncW, h.decN, h.demuxN, h.packsMutex, hd.1, hd.2, hlog⟩

/-- The controller does the commands `cs₁`, which keep `I`. -/
theorem UiRun.through {I : Player K → Prop} {p q : List Cmd} (h : UiRun L s t) (ht : t.ui = [])
    (hui : s.ui = p ++ q) (hs : I s) (hset : ∀ s cs, I s → I (s.setUi cs))
    (hI : ∀ c ∈ p, ∀ (s u : Player K) (cs cs' : List Cmd), Commands L cs s c u cs' → I s → cs' = cs ∧ I u) :
    ∃ u, u.ui = q ∧ I u ∧ UiRun L u t := by
  induction p generalizing s with
  | nil => exact ⟨s, hui, hs, h⟩
  | cons c p ih =>
    obtain ⟨u, cs', hc, h⟩ := h.next ht hui
    obtain ⟨rfl, hu⟩ := hI c List.mem_cons_self _ _ _ _ hc hs
    exact ih h rfl (hset u _ hu) fun c' hc' => hI c' (List.mem_cons_of_mem _ hc')

theorem Unstarted.setUi (h : Unstarted s) (cs : List Cmd) : Unstarted (s.setUi cs) :=
  ⟨h.decW, h.demuxW, h.syncW, h.decN, h.demuxN, h.packsMutex, h.packs, h.video, h.notified⟩

theorem Commands.next {c : Cmd} {cs cs' : List Cmd} (hc : Commands L cs s c t cs') (hop : c.opens = true)
    (hne : ∀ o, c ≠ .openDemux o) : cs' = cs := by
  cases hc with
  | openFailed => exact absurd rfl (hne _)
  | seek => cases hop
  | _ => rfl

theorem getAudioPara_type {D : FFDemux} {p : AVCodecParameters} (h : D.getAudioPara.1.para = some p) :
    p.codec_type = .audio ∧ ∃ ic, D.ic = some ic ∧ 0 ≤ ic.file.best .audio := by
  unfold FFDemux.getAudioPara at h
  split at h
  · cases h
  · rename_i ic hic
    simp only at h
    split at h
    · cases h
    · rename_i hn
      have hn := not_lt.mp hn
      have hl := ic.file.best_lt .audio hn
      rw [List.getElem?_eq_getElem hl] at h
      cases h
      exact ⟨ic.file.best_type .audio hn, ic, hic, hn⟩

/-- What `Open` of the file `c` with the packets `ps` leaves. -/
structure OpenedFile (c : Container) (ps : List AVPacket) (s : Player K) : Prop where
  unstarted : Unstarted s
  ui : s.ui = []
  ic : s.demux.ic = some ⟨c, ps⟩
  best : 0 ≤ c.best .audio
  audioStream : s.demux.audioStream = (c.best .audio).toNat
  videoStream : 0 ≤ c.best .video → s.demux.videoStream = (c.best .video).toNat
  noVideo : c.best .video < 0 → (s.dec .video).codec = none
  audio : (s.dec .audio).isAudio = true

theorem UiRun.opens {c : Cmd} {cs : List Cmd} (h : UiRun L s t) (ht : t.ui = []) (hui : s.ui = c :: cs)
    (hs : Unstarted s) (hop : c.opens = true) :
    ∃ u cs', Commands L cs s c u cs' ∧ Unstarted (u.setUi cs') ∧ UiRun L (u.setUi cs') t := by
  obtain ⟨u, cs', hc, h⟩ := h.next ht hui
  exact ⟨u, cs', hc, (hs.command hc hop).setUi cs', h⟩

theorem UiRun.openStreams {c : Container} {ps : List AVPacket} {cs : List Cmd} (h : UiRun L s t) (ht : t.ui = [])
    (hs : Unstarted s) (hui : s.ui = .openDemux (.opened ⟨c, ps⟩) :: .videoPara :: .audioPara :: cs) :
    ∃ u : Player K, u.ui = cs ∧ u.demux.ic = some ⟨c, ps⟩ ∧
      (0 ≤ c.best .audio → u.demux.audioStream = (c.best .audio).toNat) ∧
        (0 ≤ c.best .video → u.demux.videoStream = (c.best .video).toNat) ∧ Unstarted u ∧ UiRun L u t := by
  obtain ⟨u, _, hc, hs, h⟩ := h.opens ht hui hs rfl
  cases hc with
  | openFailed hf => cases hf
  | opened =>
    obtain ⟨h1, -, h3⟩ := FFDemux.getVideoPara_streams (d := (s.demux.openInput (.opened ⟨c, ps⟩)).2) rfl
    obtain ⟨h4, h5, h6⟩ := FFDemux.getAudioPara_streams h1
    obtain ⟨_, _, ⟨⟩, hs, h⟩ := h.opens ht rfl hs rfl
    obtain ⟨_, _, ⟨⟩, hs, h⟩ := h.opens ht rfl hs rfl
    exact ⟨_, rfl, h4, fun ha => h6.trans (if_neg (not_lt.mpr ha)), fun hv => h5.trans (h3.trans (if_neg (not_lt.mpr hv))),
      hs, h⟩

/-- The parameters that `Open` passes to `d`. -/
def para (s : Player K) (d : Dec) : XParameter :=
  if d = .video then s.demux.getVideoPara.1 else s.demux.getAudioPara.1

theorem UiRun.openDec {d : Dec} {o : OpenCodec} {cs : List Cmd} (h : UiRun L s t) (ht : t.ui = []) (hs : Unstarted s)
    (hui : s.ui = .clear d :: .free d :: .openDec d o :: cs) :
    ∃ u : Player K, u.ui = cs ∧ u.demux = s.demux ∧
      u.dec = Function.update s.dec d ((s.dec d).clear.free.open L (s.para d) o) ∧ Unstarted u ∧ UiRun L u t := by
  obtain ⟨u, hu, hud, hux, hs, h⟩ : ∃ u : Player K, u.ui = .free d :: .openDec d o :: cs ∧ u.demux = s.demux ∧
      u.dec = Function.update s.dec d (s.dec d).clear ∧ Unstarted u ∧ UiRun L u t := by
    obtain ⟨_, _, ⟨-⟩, hs, h⟩ := h.opens ht hui hs rfl
    refine ⟨_, ?_, ?_, ?_, hs, h⟩ <;> rfl
  obtain ⟨w, hw, hwd, hwx, hs, h⟩ : ∃ w : Player K, w.ui = .openDec d o :: cs ∧ w.demux = s.demux ∧
      w.dec = Function.update s.dec d (s.dec d).clear.free ∧ Unstarted w ∧ UiRun L w t := by
    obtain ⟨_, _, ⟨⟩, hs, h⟩ := h.opens ht hu hs rfl
    refine ⟨_, ?_, ?_, ?_, hs, h⟩
    · rfl
    · exact hud
    · show Function.update u.dec d (u.dec d).free = _
      rw [hux, Function.update_self, Function.update_idem]
  obtain ⟨_, _, ⟨⟩, hs, h⟩ := h.opens ht hw hs rfl
  refine ⟨_, ?_, ?_, ?_, hs, h⟩
  · rfl
  · exact hwd
  · show Function.update w.dec d ((w.dec d).open L (w.para d) o) = _
    have hp : w.para d = s.para d := by
      unfold para
      rw [hwd]
    rw [hp, hwx, Function.update_self, Function.update_idem]

theorem UiRun.openFile {c : Container} {ps : List AVPacket} {v : OpenCodec} {swr : Bool} (h : UiRun L s t)
    (ht : t.ui = []) (hs : Unstarted s)
    (hui : s.ui = (Call.open (.opened ⟨c, ps⟩) v .opened swr).program) : OpenedFile c ps t := by
  have hplain : ∀ {cs₁ : List Cmd}, (∀ c ∈ cs₁, c.opens = true ∧ ∀ o, c ≠ .openDemux o) → ∀ c ∈ cs₁,
      ∀ (s u : Player K) (cs cs' : List Cmd), Commands L cs s c u cs' → Unstarted s → cs' = cs ∧ Unstarted u :=
    fun hcs c hm s u cs cs' hc hs => ⟨hc.next (hcs c hm).1 (hcs c hm).2, hs.command hc (hcs c hm).1⟩
  obtain ⟨u, hu, hs, h⟩ := h.through (p := closeCmds ++ [.lock, .closeDemux]) ht (by rw [hui]; rfl) hs
    (fun _ _ h => h.setUi _) (hplain (by simp [closeCmds, Cmd.opens]))
  obtain ⟨u, hu, hic, hast, hvst, hs, h⟩ := h.openStreams ht hs hu
  obtain ⟨w, hw, hwd, hwx, hs, h⟩ := h.openDec ht hs hu
  obtain ⟨y, hy, hyd, hyx, hs, h⟩ := h.openDec ht hs hw
  -- `resample->Open` needs an audio stream
  obtain ⟨z, _, hc, hs, h⟩ := h.opens ht hy hs rfl
  cases hc with
  | @openResample _ p hp =>
  rw [hyd, hwd] at hp
  obtain ⟨hpt, ic, hic', hb⟩ := getAudioPara_type hp
  obtain rfl := Option.some.inj (hic.symm.trans hic')
  obtain ⟨x, hx, ⟨hx1, hx2, hs⟩, h⟩ := h.through (p := [.unlock, .ret .open]) (q := [])
    (I := fun x => x.demux = u.demux ∧ x.dec = y.dec ∧ Unstarted x) ht rfl ⟨hyd.trans hwd, rfl, hs⟩
    (fun _ _ h => ⟨h.1, h.2.1, h.2.2.setUi _⟩) (fun c hm a b cs cs' hc hI => by
      have hop : c.opens = true ∧ ∀ o, c ≠ .openDemux o := by
        simp only [List.mem_cons, List.not_mem_nil, or_false] at hm
        rcases hm with rfl | rfl <;> exact ⟨rfl, fun _ he => by cases he⟩
      refine ⟨hc.next hop.1 hop.2, ?_⟩
      have hu' := hI.2.2.command hc hop.1
      simp only [List.mem_cons, List.not_mem_nil, or_false] at hm
      rcases hm with rfl | rfl <;> cases hc <;> exact ⟨hI.1, hI.2.1, hu'⟩)
  obtain rfl := h.done hx
  refine ⟨hs, ht, ?_, hb, ?_, ?_, ?_, ?_⟩
  · rw [hx1]
    exact hic
  · rw [hx1]
    exact hast hb
  · rw [hx1]
    exact hvst
  · intro hv
    have hp : u.para .video = {} := by
      show u.demux.getVideoPara.1 = {}
      unfold FFDemux.getVideoPara
      rw [hic]
      exact congrArg Prod.fst (if_pos hv)
    rw [hx2, hyx, Function.update_of_ne (by decide), hwx, Function.update_self, hp]
    rfl
  · rw [hx2, hyx, Function.update_self]
    have hp' : w.para .audio = u.demux.getAudioPara.1 := congrArg (fun D : FFDemux => D.getAudioPara.1) hwd
    have ho : ∀ D : FFDecode K, (D.open L u.demux.getAudioPara.1 .opened).isAudio = true := by
      intro D
      unfold FFDecode.open
      rw [hp]
      simp [hpt]
    rw [hp']
    exact ho _

theorem OpenedFile.plays {c : Container} {ps : List AVPacket} (h : OpenedFile c ps s) (L : FFmpeg K) (d : Dec) :
    Plays L d (s.output L d) s := by
  have hu := h.unstarted
  refine ⟨⟨fun d n _ => hu.decW d n, fun d n => ?_⟩, ⟨fun n _ => hu.demuxW n, fun n _ => hu.syncW n⟩, ?_, ?_, ?_, ?_,
    fun d hd => ?_, fun hd => ?_, fun d => ?_, ?_, rfl⟩
  · rw [hu.packsMutex, hu.decW]
    exact ⟨fun he => (by cases he), fun he => (by cases he)⟩
  · rw [h.ui]
    exact fun c hc => absurd hc List.not_mem_nil
  · rw [h.ui]
    trivial
  · rw [h.ui, hu.demuxN]
    exact fun d => hu.decN d
  · rw [h.ui, hu.demuxN]
    exact Nat.zero_le 1
  · rw [hu.decN] at hd
    cases hd
  · rw [hu.demuxN] at hd
    cases hd
  · cases d
    · exact hu.video
    · exact h.audio
  · rw [hu.demuxW]
    trivial

/-- The packets for a decoder are those of its stream; without a video stream there is no codec for others. -/
theorem OpenedFile.feed {c : Container} {ps : List AVPacket} (h : OpenedFile c ps s) (L : FFmpeg K) (d : Dec) :
    L.machine.feed (s.dec d).codec (s.demux.coming d) = L.machine.feed (s.dec d).codec (c.playable d ps) := by
  have hcls : 0 ≤ c.best d.mediaType → s.demux.coming d = c.playable d ps := by
    intro hd
    have hc : s.demux.coming d = (ps.filter fun p => decide (s.demux.classify p.stream_index = d.class) &&
        decide (0 < p.size)).map (FFDemux.converted ⟨c, ps⟩) := by
      unfold FFDemux.coming
      rw [h.ic]
    unfold Container.playable Container.stream
    rw [hc, List.filter_map, List.filter_filter]
    refine congrArg (List.map _) (List.filter_congr fun p _ => ?_)
    rw [Bool.and_comm]
    refine congrArg (decide (0 < p.size) && ·) (decide_eq_decide.mpr ?_)
    have hb := h.best
    cases d with
    | audio =>
      rw [show Dec.audio.class = .audio from rfl, FFDemux.classify_audio, h.audioStream]
      show _ ↔ (p.stream_index : ℤ) = c.best .audio
      omega
    | video =>
      have hd : 0 ≤ c.best .video := hd
      -- the best audio and the best video stream of a file differ
      have hne : (c.best .video).toNat ≠ (c.best .audio).toNat := by
        intro he
        have e1 := c.best_type .video hd
        have e2 := c.best_type .audio hb
        simp only [he] at e1
        rw [e1] at e2
        cases e2
      rw [show Dec.video.class = .video from rfl, FFDemux.classify_video, h.audioStream, h.videoStream hd]
      show _ ↔ (p.stream_index : ℤ) = c.best .video
      omega
  by_cases hd : 0 ≤ c.best d.mediaType
  · rw [hcls hd]
  · cases d with
    | audio => exact absurd h.best hd
    | video =>
      have hnone : ∀ qs, L.machine.feed none qs = ([], none) := by
        intro qs
        induction qs with
        | nil => rfl
        | cons p qs ih =>
          simp only [SendRecv.feed, L.machine.feedOne_refused (L.send_none p), ih, List.append_nil]
      rw [h.noVideo (not_le.mp hd), hnone, hnone]

theorem OpenedFile.output {c : Container} {ps : List AVPacket} (h : OpenedFile c ps s) (L : FFmpeg K) (d : Dec) :
    s.output L d = ((L.machine.feed (s.dec d).codec (c.playable d ps)).1.map (frameData (s.dec d).type),
      (L.machine.feed (s.dec d).codec (c.playable d ps)).2) := by
  have hu := h.unstarted
  have ha : s.ahead d = s.demux.coming d := by
    unfold Player.ahead
    rw [hu.packs, hu.demuxW]
    rfl
  unfold Player.output future Player.notified
  rw [hu.notified, hu.decW, ha]
  simp only [DecPc.rest, List.reverse_nil, List.nil_append]
  rw [h.feed L d]

/-- The container has reported its end, the queues are empty and no thread has a packet. -/
structure Ended (s : Player K) : Prop where
  unread : s.demux.unread = []
  packs : ∀ d, (s.dec d).packs = []
  demux : ∀ n, (s.demuxW n).carried = []
  dec : ∀ d n, (s.decW d n).locked = false

/-- `Ended`, as far as the two decoders and the workers in the first place are concerned. -/
def ended (s : Player K) : Bool :=
  s.demux.unread.isEmpty && (s.dec .video).packs.isEmpty && (s.dec .audio).packs.isEmpty &&
    (s.demuxW 0).carried.isEmpty && !(s.decW .video 0).locked && !(s.decW .audio 0).locked

theorem Plays.ended {d : Dec} {F : List XData × Option (AVCodecContext K)} (h : Plays L d F s) (he : s.ended = true) :
    Ended s := by
  simp only [Player.ended, Bool.and_eq_true, List.isEmpty_iff, Bool.not_eq_true'] at he
  obtain ⟨⟨⟨⟨⟨hu, hpv⟩, hpa⟩, hd⟩, hv⟩, ha⟩ := he
  refine ⟨hu, fun d => ?_, fun n => ?_, fun d n => ?_⟩
  · cases d
    · exact hpv
    · exact hpa
  · rcases Nat.eq_zero_or_pos n with rfl | hn
    · exact hd
    · rw [h.spawned.demux n (h.demuxN_le.trans hn)]
      rfl
  · rcases Nat.eq_zero_or_pos n with rfl | hn
    · cases d
      · exact hv
      · exact ha
    · rw [h.holds.gone d n ((h.decN_le d).trans hn)]
      rfl

theorem Ended.coming (h : Ended s) (d : Dec) : s.demux.coming d = [] := by
  have hu := h.unread
  unfold FFDemux.unread at hu
  unfold FFDemux.coming
  split
  · rfl
  · rename_i ic hic
    rw [hic] at hu
    have hp : ic.packets = [] := hu
    rw [hp]
    rfl

theorem Ended.demux_ahead (h : Ended s) (d : Dec) : (s.demuxW 0).ahead d = [] := by
  have hd := h.demux 0
  generalize s.demuxW 0 = pc at hd
  cases pc with
  | notify | update => cases hd
  | _ => rfl

theorem Ended.output (h : Ended s) (L : FFmpeg K) (d : Dec) : s.output L d = (s.notified d, (s.dec d).codec) := by
  have ha : s.ahead d = [] := by
    unfold Player.ahead
    rw [h.packs, h.demux_ahead, h.coming]
    rfl
  have hr : ∀ ty, (s.decW d 0).rest L ty (s.dec d).codec = ([], (s.dec d).codec) := by
    intro ty
    have hd := h.dec d 0
    generalize s.decW d 0 = pc at hd
    cases pc with
    | gone | exitTest | pauseTest | lock => rfl
    | _ => cases hd
  unfold Player.output future
  rw [ha, hr]
  simp

/-- `Open` of the file `c` with the packets `ps` has returned, on a player from its construction. -/
def Opened (L : FFmpeg K) (c : Container) (ps : List AVPacket) (v : OpenCodec) (swr_init : Bool) (s : Player K) : Prop :=
  ∃ s₀ s₁ : Player K, (player L).init s₀ ∧ s₀.step L (.request (.open (.opened ⟨c, ps⟩) v .opened swr_init)) = some s₁ ∧
    UiRun L s₁ s ∧ s.ui = []

theorem Opened.file {c : Container} {ps : List AVPacket} {v : OpenCodec} {swr_init : Bool}
    (h : Opened L c ps v swr_init s) : OpenedFile c ps s := by
  obtain ⟨_, s₁, ⟨total, rfl⟩, hr, hu, hui⟩ := h
  cases steps hr with
  | request =>
    refine hu.openFile hui ⟨fun _ _ => rfl, fun _ => rfl, fun _ => rfl, fun _ => rfl, rfl, fun _ => rfl, fun _ => rfl,
      rfl, fun _ => rfl⟩ rfl

theorem Opened.plays {c : Container} {ps : List AVPacket} {v : OpenCodec} {swr_init : Bool} {d : Dec}
    (h₀ : Opened L c ps v swr_init s) (h : (player L).Run (PlaysOn d) s t) : Plays L d (s.output L d) t :=
  h.inv (h₀.file.plays L d) fun _ _ _ hI ha hs => hI.step ha (steps hs)

end Player

open Player

/-- In a run that plays a file from its beginning to its end, a decoder passes the full decode of its stream to
`Notify` if and only if its codec yields all of it for the packets that are not empty, without the end of the
stream. If none is empty, it does so if and only if it holds no frame back. -/
theorem playback_complete (L : FFmpeg K) {c : Container} {ps : List AVPacket} {v : OpenCodec} {swr_init : Bool}
    {s₀ s : Player K} {d : Dec} (h₀ : Opened L c ps v swr_init s₀) (h : (player L).Run (PlaysOn d) s₀ s)
    (hs : s.Ended) :
    (s.notified d = (L.machine.decode (s₀.dec d).codec (c.stream d ps)).map (frameData (s₀.dec d).type) ↔
      (L.machine.feed (s₀.dec d).codec (c.playable d ps)).1 =
        L.machine.decode (s₀.dec d).codec (c.stream d ps)) ∧
    ((∀ p ∈ c.stream d ps, 0 < p.size) →
      ((L.machine.feed (s₀.dec d).codec (c.playable d ps)).1 =
          L.machine.decode (s₀.dec d).codec (c.stream d ps) ↔
        L.machine.heldBack (L.machine.feed (s₀.dec d).codec (c.stream d ps)).2 = [])) := by
  have ho := (h₀.plays h).output
  rw [hs.output, h₀.file.output] at ho
  have hn : s.notified d = _ := congrArg Prod.fst ho
  refine ⟨?_, fun hps => ?_⟩
  · rw [hn]
    exact (frameData_injective _).list_map.eq_iff
  · have hp : c.playable d ps = c.stream d ps := List.filter_eq_self.mpr fun p hp => decide_eq_true (hps p hp)
    rw [hp]
    unfold SendRecv.decode
    exact List.self_eq_append_right

/-- `Start`, and one packet on its way to `vDecode` with `n` steps of its worker. -/
def startVideo (n : ℕ) : List Act :=
  .request (.start true) :: List.replicate 17 .ui ++ List.replicate 8 (.demux 0) ++ List.replicate n (.dec .video 0)

set_option maxRecDepth 4000 in
/-- A codec without delay: the frame of the only packet is shown. -/
theorem playback_complete_one : ∃ s₀ s : Player (List AVFrame),
    Opened bytewise avFile [⟨0, 0, 0, [40]⟩] .opened true s₀ ∧ (s.notified .video).length = 1 ∧
      s.notified .video = (bytewise.machine.decode (s₀.dec .video).codec
        (avFile.stream .video [⟨0, 0, 0, [40]⟩])).map (frameData (s₀.dec .video).type) := by
  let ps : List AVPacket := [⟨0, 0, 0, [40]⟩]
  let s' : Player (List AVFrame) := { demux := { total := 0 } }
  have hr : ((s'.step bytewise (.request (.open (.opened ⟨avFile, ps⟩) .opened .opened true))).bind fun s₁ =>
      ((player bytewise).exec (List.replicate 32 .ui) s₁).bind fun s₀ =>
        ((player bytewise).execIf (PlaysOn .video) (startVideo 10) s₀).map fun s =>
          (s₀.ui.isEmpty && s.ended && (bytewise.machine.heldBack (bytewise.machine.feed (s₀.dec .video).codec
            (avFile.stream .video ps)).2).isEmpty, (s.notified .video).length)) = some (true, 1) := by decide +kernel
  obtain ⟨s₁, h₁, hr⟩ := Option.bind_eq_some_iff.mp hr
  obtain ⟨s₀, h₀, hr⟩ := Option.bind_eq_some_iff.mp hr
  obtain ⟨s, hs, he⟩ := Option.map_eq_some_iff.mp hr
  simp only [Prod.mk.injEq, Bool.and_eq_true, List.isEmpty_iff] at he
  obtain ⟨⟨⟨hui, hend⟩, hheld⟩, hl⟩ := he
  have hrun : UiRun bytewise s₁ s₀ := .of_exec (fun a ha _ => List.eq_of_mem_replicate ha) h₀
  have hO : Opened bytewise avFile ps .opened true s₀ := ⟨s', s₁, ⟨0, rfl⟩, h₁, hrun, hui⟩
  have hR := Sys.Run.of_execIf hs
  obtain ⟨hiff, hsome⟩ := playback_complete bytewise hO hR ((hO.plays hR).ended hend)
  exact ⟨s₀, s, hO, hl, hiff.mpr ((hsome (by decide)).mpr hheld)⟩

/-- A codec that holds the frame of the last packet back. -/
def delaying : FFmpeg (List AVFrame × Option AVFrame) where
  codec := { send := fun k p =>
               if k.1 = [] then (true, k.2.toList, some { pts := p.pts, content := 0 }) else (false, k)
             recv := fun k => (k.1.head?, k.1.tail, k.2)
             flush := fun _ => ([], none)
             eof := fun k => (k.1 ++ k.2.toList, none)
             pending := fun k => k.1.length
             recv_lt := by rintro ⟨_ | _, _⟩ _ _ ⟨⟩; simp }
  opened _ := ([], none)
  swr_convert _ := 0

set_option maxRecDepth 4000 in
/-- The only frame of the file is never shown. -/
theorem playback_incomplete : ¬ ∀ (ps : List AVPacket) (s₀ s : Player (List AVFrame × Option AVFrame)),
    Opened delaying avFile ps .opened true s₀ → (player delaying).Run (PlaysOn .video) s₀ s → s.Ended →
      s.notified .video = (delaying.machine.decode (s₀.dec .video).codec
        (avFile.stream .video ps)).map (frameData (s₀.dec .video).type) := by
  intro h
  let ps : List AVPacket := [⟨0, 0, 0, [0]⟩]
  let s' : Player (List AVFrame × Option AVFrame) := { demux := { total := 0 } }
  have hr : ((s'.step delaying (.request (.open (.opened ⟨avFile, ps⟩) .opened .opened true))).bind fun s₁ =>
      ((player delaying).exec (List.replicate 32 .ui) s₁).bind fun s₀ =>
        ((player delaying).execIf (PlaysOn .video) (startVideo 7) s₀).map fun s =>
          (s₀.ui.isEmpty && s.ended, (s.notified .video).length, (delaying.machine.decode (s₀.dec .video).codec
            (avFile.stream .video ps)).length)) = some (true, 0, 1) := by decide +kernel
  obtain ⟨s₁, h₁, hr⟩ := Option.bind_eq_some_iff.mp hr
  obtain ⟨s₀, h₀, hr⟩ := Option.bind_eq_some_iff.mp hr
  obtain ⟨s, hs, he⟩ := Option.map_eq_some_iff.mp hr
  simp only [Prod.mk.injEq, Bool.and_eq_true, List.isEmpty_iff] at he
  obtain ⟨⟨hui, hend⟩, h0, h1⟩ := he
  have hrun : UiRun delaying s₁ s₀ := .of_exec (fun a ha _ => List.eq_of_mem_replicate ha) h₀
  have hO : Opened delaying avFile ps .opened true s₀ := ⟨s', s₁, ⟨0, rfl⟩, h₁, hrun, hui⟩
  have hR := Sys.Run.of_execIf hs
  have hn := congrArg List.length (h ps s₀ s hO hR ((hO.plays hR).ended hend))
  rw [h0, List.length_map, h1] at hn
  cases hn

end XPlayer
