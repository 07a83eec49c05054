import XPlayer.LibAV.Machine
import XPlayer.Playback

/-!
# Playback with the decoding API

`libavcodec` is the library of the player's model with the decoding API for its codecs, one for video and one
for everything else. A file that is played from its beginning to its end then passes to `Notify` the frames of
its packets, decoded one after the other (`notified_decoded`).
-/

namespace XPlayer
open LibAV (AVCodec Context decodeAll)
variable {D S D' S' : Type}

/-- The libraries' codecs: `V` for video and `A` for audio, their initial states, the side data that the demuxer
attaches to a packet, and the frames as the player reads them. -/
structure Codecs (D S D' S' : Type) where
  V : AVCodec D S
  A : AVCodec D' S'
  openV : AVCodecParameters → D
  openA : AVCodecParameters → D'
  side_data : AVPacket → LibAV.SideData
  viewV : LibAV.AVFrame S → AVFrame
  viewA : LibAV.AVFrame S' → AVFrame
  swr_convert : AVFrame → ℤ

namespace Codecs
variable (C : Codecs D S D' S')

/-- The packet as `avcodec_send_packet` reads it. -/
def packet (p : AVPacket) : LibAV.AVPacket :=
  { data := p.payload, pts := p.pts, dts := p.dts, side_data := C.side_data p }

def libavcodec : FFmpeg (Context D S ⊕ Context D' S') where
  codec := ((LibAV.api C.V).via C.packet C.viewV).sum ((LibAV.api C.A).via C.packet C.viewA)
  opened para :=
    if para.codec_type = .video then .inl ⟨{ core := { dec := C.openV para } }, LibAV.opened_ok _⟩
    else .inr ⟨{ core := { dec := C.openA para } }, LibAV.opened_ok _⟩
  swr_convert := C.swr_convert

/-- The frames of packets of a stream, decoded one after the other. -/
def frames (para : AVCodecParameters) (ps : List AVPacket) : List AVFrame :=
  if para.codec_type = .video then
    ((decodeAll C.V { dec := C.openV para } (ps.map C.packet)).1.filterMap Except.toOption).map C.viewV
  else
    ((decodeAll C.A { dec := C.openA para } (ps.map C.packet)).1.filterMap Except.toOption).map C.viewA

/-- A new context is sent the packets and drained after each: the frames are those of the packets. -/
theorem feed_opened (para : AVCodecParameters) {ps : List AVPacket} (hps : ∀ p ∈ ps, 0 < p.size) :
    (C.libavcodec.codec.feed (C.libavcodec.opened para) ps).1 = C.frames para ps := by
  have hsize : ∀ q ∈ ps.map C.packet, q.size ≠ 0 := by
    intro q hq
    obtain ⟨p, hp, rfl⟩ := List.mem_map.mp hq
    have h := hps p hp
    unfold AVPacket.size at h
    show p.payload.length ≠ 0
    omega
  have hfresh : ∀ {E T : Type} (e : E), ({ core := { dec := e } } : LibAV.AVCodecContext E T).Fresh :=
    fun e => ⟨⟨rfl, rfl, rfl, rfl⟩, rfl⟩
  have hvia : ∀ {E T : Type} (api : SendRecv (Context E T) LibAV.AVPacket (LibAV.AVFrame T))
      (view : LibAV.AVFrame T → AVFrame) (k),
      ((api.via C.packet view).feed k ps).1 = (api.feed k (ps.map C.packet)).1.map view :=
    fun api view k => congrArg Prod.fst ((api.via_hom C.packet view).feed k ps)
  unfold frames libavcodec
  dsimp only
  split
  · rw [(SendRecv.sum_inl _ _).feed, List.map_id, List.map_id, hvia, (LibAV.api_feed (hfresh _) hsize).1]
  · rw [(SendRecv.sum_inr _ _).feed, List.map_id, List.map_id, hvia, (LibAV.api_feed (hfresh _) hsize).1]

end Codecs

/-- The machine on a codec context that is there and open is the codec. -/
theorem FFmpeg.machine_hom {K : Type} (L : FFmpeg K) (t : AVMediaType) :
    SendRecv.Hom L.machine L.codec (fun k => some ⟨t, some k⟩) id id :=
  ⟨fun _ _ => rfl, fun k => by rw [Option.map_id]; rfl⟩

/-! ### The codec contexts that `Open` leaves -/

namespace Player
variable {K : Type} {L : FFmpeg K} {s t : Player K} {c : Container} {ps : List AVPacket}

theorem para_stream {d : Dec} (hic : s.demux.ic = some ⟨c, ps⟩) (hd : 0 ≤ c.best d.mediaType) :
    (s.para d).para = (c.streams[(c.best d.mediaType).toNat]?).map (·.codecpar) := by
  have hn := not_lt.mpr hd
  cases d with
  | video =>
    show s.demux.getVideoPara.1.para = _
    unfold FFDemux.getVideoPara
    rw [hic]
    dsimp only [Dec.mediaType] at hn ⊢
    rw [if_neg hn]
  | audio =>
    show s.demux.getAudioPara.1.para = _
    unfold FFDemux.getAudioPara
    rw [hic]
    dsimp only [Dec.mediaType] at hn ⊢
    rw [if_neg hn]
    split <;> rename_i h <;> rw [h] <;> rfl

/-- `Open` gives each decoder a context of its stream. -/
theorem UiRun.openCodecs {st : AVStream} {d : Dec} {swr : Bool} (h : UiRun L s t) (ht : t.ui = []) (hs : Unstarted s)
    (hui : s.ui = (Call.open (.opened ⟨c, ps⟩) .opened .opened swr).program) (hd : 0 ≤ c.best d.mediaType)
    (hst : c.streams[(c.best d.mediaType).toNat]? = some st) :
    (t.dec d).codec = some ⟨st.codecpar.codec_type, some (L.opened st.codecpar)⟩ := by
  have hkeep : ∀ {cs₁ : List Cmd}, (∀ c ∈ cs₁, c.opens = true ∧ ∀ o, c ≠ .openDemux o) → ∀ c ∈ cs₁,
      ∀ (s u : Player K) (cs cs' : List Cmd), Commands L cs s c u cs' → Unstarted s → cs' = cs ∧ Unstarted u :=
    fun hcs c hm s u cs cs' hc hs => ⟨hc.next (hcs c hm).1 (hcs c hm).2, hs.command hc (hcs c hm).1⟩
  obtain ⟨u, hu, hs, h⟩ := h.through (p := closeCmds ++ [.lock, .closeDemux]) ht (by rw [hui]; rfl) hs
    (fun _ _ h => h.setUi _) (hkeep (by simp [closeCmds, Cmd.opens]))
  obtain ⟨u, hu, hic, -, -, hs, h⟩ := h.openStreams ht hs hu
  obtain ⟨w, hw, hwd, hwx, hs, h⟩ := h.openDec ht hs hu
  obtain ⟨y, hy, hyd, hyx, hs, h⟩ := h.openDec ht hs hw
  -- the commands left do not touch the decoders
  obtain ⟨x, hx, hxd, h⟩ := h.through (I := fun x => x.dec = y.dec)
    (p := [.openResample swr, .unlock, .ret .open]) (q := []) ht hy rfl
    (fun _ _ h => h) (fun c hm a b cs cs' hc hI => by
      simp only [List.mem_cons, List.not_mem_nil, or_false] at hm
      rcases hm with rfl | rfl | rfl <;> cases hc <;> exact ⟨rfl, hI⟩)
  obtain rfl := h.done hx
  have hopen : ∀ (v : Player K) (D : FFDecode K), v.demux.ic = some ⟨c, ps⟩ →
      (D.open L (v.para d) .opened).codec = some ⟨st.codecpar.codec_type, some (L.opened st.codecpar)⟩ := by
    intro v D hv
    unfold FFDecode.open
    rw [para_stream hv hd, hst]
    rfl
  rw [hxd, hyx]
  cases d with
  | video =>
    rw [Function.update_of_ne (by decide), hwx, Function.update_self]
    exact hopen u _ hic
  | audio =>
    rw [Function.update_self]
    exact hopen w _ (hwd ▸ hic)

theorem Opened.codec {st : AVStream} {d : Dec} {swr_init : Bool} (h : Opened L c ps .opened swr_init s)
    (hd : 0 ≤ c.best d.mediaType) (hst : c.streams[(c.best d.mediaType).toNat]? = some st) :
    (s.dec d).codec = some ⟨st.codecpar.codec_type, some (L.opened st.codecpar)⟩ := by
  obtain ⟨_, s₁, ⟨total, rfl⟩, hr, hu, hui⟩ := h
  cases steps hr with
  | request =>
    exact hu.openCodecs hui ⟨fun _ _ => rfl, fun _ => rfl, fun _ => rfl, fun _ => rfl, rfl, fun _ => rfl, fun _ => rfl,
      rfl, fun _ => rfl⟩ rfl hd hst

end Player

open Player

/-- Codecs of one frame for each packet. -/
def flashing : Codecs Unit UInt8 Unit UInt8 where
  V := LibAV.flashes
  A := LibAV.flashes
  openV _ := ()
  openA _ := ()
  side_data _ := []
  viewV f := { pts := f.pts, content := f.samples.length }
  viewA f := { pts := f.pts, content := f.samples.length }
  swr_convert _ := 0

end XPlayer
