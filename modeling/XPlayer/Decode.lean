import XPlayer.Demux
import XPlayer.Lib.SendRecv

/-!
# `FFDecode` and `FFResample`

The decoder on its fields `isAudio`, `synPts`, `pts`, `packs` and `codec`, with one definition for each
section under a mutex, and the resampler. An `FFmpeg K` is the library behind them: `codec` is the
send/receive machine of an opened codec context, with states `K`, and `swr_convert` returns the number
of samples it converts of a frame. `FFmpeg.machine` is the same machine on a codec context that may be
missing or not opened.
-/

namespace XPlayer

/-- The codecs and the resampler of the library. -/
structure FFmpeg (K : Type) where
  codec : SendRecv K AVPacket AVFrame
  /-- The state of a context that was just opened. -/
  opened : AVCodecParameters → K
  swr_convert : AVFrame → ℤ

/-- A codec context; `avctx` is missing until `avcodec_open2` succeeds. -/
structure AVCodecContext (K : Type) where
  codec_type : AVMediaType
  avctx : Option K

variable {K : Type}

namespace FFmpeg
variable (L : FFmpeg K)

/-- Apply `f` to the state of an opened context; everything else refuses with `a`. -/
def onCtx {α : Type} (a : α) (f : K → α × K) : Option (AVCodecContext K) → α × Option (AVCodecContext K)
  | some ⟨t, some k⟩ => ((f k).1, some ⟨t, some (f k).2⟩)
  | c => (a, c)

/-- The codec machine on a context that may be missing or not opened. -/
def machine : SendRecv (Option (AVCodecContext K)) AVPacket AVFrame where
  send c p := onCtx false (L.codec.send · p) c
  recv := onCtx none L.codec.recv
  flush c := (onCtx () (fun k => ((), L.codec.flush k)) c).2
  eof c := (onCtx () (fun k => ((), L.codec.eof k)) c).2
  pending c := ((c.bind (·.avctx)).map L.codec.pending).getD 0
  recv_lt c f c' h := by
    match c with
    | none => cases h
    | some ⟨t, none⟩ => cases h
    | some ⟨t, some k⟩ =>
      rcases hk : L.codec.recv k with ⟨_ | g, k'⟩ <;> simp only [onCtx, hk] at h <;> cases h
      exact L.codec.recv_lt k f k' hk

theorem send_none (p : AVPacket) : L.machine.send none p = (false, none) := rfl

theorem recv_none : L.machine.recv none = (none, none) := rfl

end FFmpeg

/-! ### `FFDecode` -/

structure FFDecode (K : Type) where
  isAudio : Bool := false
  maxList : ℕ := 100
  synPts : ℤ := 0
  pts : ℤ := 0
  packs : List XData := []
  codec : Option (AVCodecContext K) := none

/-- The outcome of `avcodec_find_decoder` and `avcodec_open2`. -/
inductive OpenCodec
  | notFound
  | failed
  | opened
  deriving DecidableEq

/-- The packet behind `data`. -/
def XData.pkt (x : XData) : Option AVPacket :=
  match x.data with
  | .packet _ p => some p
  | _ => none

/-- `data.size` for a frame, in `int` arithmetic. -/
def frameSize (t : AVMediaType) (f : AVFrame) : ℤ :=
  match t with
  | .video => toInt32 ((f.linesize.1 + f.linesize.2.1 + f.linesize.2.2) * f.height)
  | .audio => toInt32 (av_get_bytes_per_sample f.format * f.nb_samples * 2)
  | _ => 0

/-- The `XData` that `RecvFrame` makes of a frame. -/
def frameData (t : AVMediaType) (f : AVFrame) : XData :=
  { data := .frame f, size := frameSize t f, width := if t = .video then f.width else 0,
    height := if t = .video then f.height else 0, format := f.format, pts := toInt32 f.pts }

theorem frameData_injective (t : AVMediaType) : Function.Injective (frameData t) :=
  fun _ _ h => Buf.frame.inj (congrArg XData.data h)

namespace FFDecode

/-- `IDecode::Clear`; the packets in `packs` are dropped. -/
def clear (d : FFDecode K) : FFDecode K := { d with packs := [], pts := 0, synPts := 0 }

/-- The rest of `FFDecode::Clear`, under `mux`; it is not reached for an `unopened` context. -/
def flush (L : FFmpeg K) (d : FFDecode K) : FFDecode K := { d with codec := L.machine.flush d.codec }

/-- The context is one that a failed `avcodec_open2` has left: its `internal` is null, and
`avcodec_flush_buffers` crashes there. -/
def unopened (d : FFDecode K) : Bool := d.codec.any (·.avctx.isNone)

/-- The rest of `FFDecode::Close`, under `mux`. -/
def free (d : FFDecode K) : FFDecode K := { d with pts := 0, codec := none }

/-- `FFDecode::Open` after `Close`. -/
def «open» (L : FFmpeg K) (d : FFDecode K) (para : XParameter) (o : OpenCodec) : FFDecode K :=
  match para.para, o with
  | none, _ | _, .notFound => d
  | some p, .failed => { d with codec := some ⟨p.codec_type, none⟩ }
  | some p, .opened => { d with codec := some ⟨p.codec_type, some (L.opened p)⟩,
                                isAudio := decide (p.codec_type ≠ .video) }

def sendPacket (L : FFmpeg K) (d : FFDecode K) (x : XData) : Bool × FFDecode K :=
  if x.size ≤ 0 ∨ x.data = .null then (false, d)
  else
    match x.pkt with
    | none => (false, d)
    | some p => ((L.machine.send d.codec p).1, { d with codec := (L.machine.send d.codec p).2 })

/-- `RecvFrame` with the frame that was received, if any. -/
def recvFrame (L : FFmpeg K) (d : FFDecode K) : XData × FFDecode K :=
  match L.machine.recv d.codec with
  | (none, c) => ({}, { d with codec := c })
  | (some f, c) =>
    (frameData ((d.codec.map (·.codec_type)).getD .unknown) f, { d with codec := c, pts := toInt32 f.pts })

end FFDecode

/-! ### `FFResample` -/

structure FFResample where
  actx : Bool := false
  outChannels : ℤ := 2
  outFormat : ℤ := AV_SAMPLE_FMT_S16
  deriving DecidableEq

/-- The outcome of `Resample`. -/
inductive Resampled
  /-- An empty `XData`. -/
  | refused
  /-- An empty `XData`, and `mux` is not unlocked. -/
  | leaked
  | pcm (x : XData)
  deriving DecidableEq

namespace FFResample

/-- `Open`: the channels of the stream are taken over when `swr_init` succeeds. -/
def «open» (r : FFResample) (para : AVCodecParameters) (swr_init : Bool) : FFResample :=
  if swr_init then { actx := true, outChannels := para.channels, outFormat := AV_SAMPLE_FMT_S16 }
  else { r with actx := true }

/-- `Resample`, once `mux` is taken where it is; `h` is the handle of the new buffer. -/
def resample (L : FFmpeg K) (r : FFResample) (h : ℕ) (x : XData) : Resampled :=
  match x.data with
  | .frame f =>
    if x.size ≤ 0 ∨ r.actx = false then .refused
    else
      let outsize := toInt32 (r.outChannels * f.nb_samples * av_get_bytes_per_sample r.outFormat)
      if outsize ≤ 0 then .leaked
      else if L.swr_convert f ≤ 0 then .refused
      else .pcm { type := .UCHAR_TYPE, data := .pcm h, size := outsize, pts := x.pts }
  | _ => .refused

theorem resample_size {L : FFmpeg K} {r : FFResample} {h : ℕ} {x y : XData}
    (hp : r.resample L h x = .pcm y) : 0 < y.size ∧ y.data = .pcm h ∧ y.pts = x.pts := by
  unfold resample at hp
  split at hp
  · split at hp
    · cases hp
    · simp only at hp
      split at hp
      · cases hp
      · split at hp <;> cases hp
        rename_i h1 h2
        exact ⟨not_le.mp h1, rfl, rfl⟩
  · cases hp

end FFResample

end XPlayer
