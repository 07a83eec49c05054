import XPlayer.Player
import XPlayer.Lib.Wrap

/-!
# The buffer of `Resample` and the buffer of the device

`Open` configures the converter with the channels of `out` and keeps those of `in` in `outChannels`, from which
`Resample` computes the size of its buffer before it converts: `resample_exact` says when the buffer holds what
`swr_convert` writes and nothing else.

`PlayCall` copies the buffer into one of `BUF_SIZE` bytes (`played_fits`).
-/

namespace XPlayer
variable {K : Type} {L : FFmpeg K}

/-- What `swr_alloc_set_opts` is given. -/
structure SwrContext where
  out_channels : ℤ
  out_sample_rate : ℤ
  in_channels : ℤ
  in_format : ℤ
  in_sample_rate : ℤ
  deriving DecidableEq

namespace FFResample

/-- `Open`; nothing if `in.para` is null, which is dereferenced. -/
def openWith (r : FFResample) (inp out : XParameter) (swr_init : Bool) : Option (Bool × SwrContext × FFResample) :=
  inp.para.map fun para =>
    (swr_init, ⟨out.channels, out.sampleRate, para.channels, para.format, para.sample_rate⟩, r.open para swr_init)

/-- The size of the buffer that `Resample` allocates. -/
def outsize (r : FFResample) (f : AVFrame) : ℤ :=
  toInt32 (r.outChannels * f.nb_samples * av_get_bytes_per_sample r.outFormat)

theorem resample_pcm {r : FFResample} {h : ℕ} {x y : XData} {f : AVFrame} (hx : x.data = .frame f)
    (hy : r.resample L h x = .pcm y) :
    0 < x.size ∧ 0 < r.outsize f ∧ 0 < L.swr_convert f ∧
      y = { type := .UCHAR_TYPE, data := .pcm h, size := r.outsize f, pts := x.pts } := by
  unfold resample at hy
  simp only [hx] at hy
  split at hy
  · cases hy
  · rename_i h1
    split at hy
    · cases hy
    · rename_i h2
      split at hy
      · cases hy
      · rename_i h3
        cases hy
        exact ⟨by simp at h1; exact h1.1, not_le.mp h2, not_le.mp h3, rfl⟩

theorem open_outsize (r : FFResample) (para : AVCodecParameters) (f : AVFrame) :
    (r.open para true).outsize f = toInt32 (para.channels * f.nb_samples * 2) := rfl

end FFResample

/-- The buffer `y` of `cap` bytes holds what the converter made of the frame `f`: `len` samples for each of its
channels, of two bytes each. -/
structure Exact (c : SwrContext) (f : AVFrame) (x : XData) (cap len : ℤ) (y : XData) : Prop where
  capacity : f.nb_samples * c.out_channels * 2 ≤ cap
  size : y.size = len * c.out_channels * 2
  type : y.type = .UCHAR_TYPE
  pts : y.pts = x.pts

/-- The buffer is exactly what was produced if and only if all samples are converted at once and the two channel
counts give the same size. -/
theorem resample_exact {r r' : FFResample} {inp out : XParameter} {para : AVCodecParameters} {c : SwrContext}
    {h : ℕ} {x y : XData} {f : AVFrame} (hin : inp.para = some para)
    (ho : r.openWith inp out true = some (true, c, r')) (hx : x.data = .frame f)
    (hlen : L.swr_convert f ≤ f.nb_samples) (hy : r'.resample L h x = .pcm y) :
    Exact c f x (r'.outsize f) (L.swr_convert f) y ↔
      L.swr_convert f = f.nb_samples ∧ 2 ^ 32 ∣ (para.channels - out.channels) * f.nb_samples * 2 ∧
        -2 ^ 31 ≤ out.channels * f.nb_samples * 2 ∧ out.channels * f.nb_samples * 2 < 2 ^ 31 := by
  obtain ⟨-, hpos, hlen', rfl⟩ := FFResample.resample_pcm hx hy
  simp only [FFResample.openWith, hin, Option.map_some, Option.some.injEq, Prod.mk.injEq, true_and] at ho
  obtain ⟨rfl, rfl⟩ := ho
  rw [FFResample.open_outsize] at hpos ⊢
  -- the size in `int` arithmetic is the one the converter needs
  have hcap : toInt32 (para.channels * f.nb_samples * 2) = out.channels * f.nb_samples * 2 ↔
      2 ^ 32 ∣ (para.channels - out.channels) * f.nb_samples * 2 ∧
        -2 ^ 31 ≤ out.channels * f.nb_samples * 2 ∧ out.channels * f.nb_samples * 2 < 2 ^ 31 := by
    unfold toInt32
    rw [Int.bmod_eq_iff (by norm_num), ← dvd_neg, neg_sub, ← sub_mul, ← sub_mul]
    norm_num only
    tauto
  rw [← hcap]
  constructor
  · rintro ⟨h1, h2, -, -⟩
    replace h2 : toInt32 (para.channels * f.nb_samples * 2) = L.swr_convert f * out.channels * 2 := h2
    rw [h2] at h1 hpos ⊢
    have hch : 0 < out.channels := by
      by_contra hn
      nlinarith
    have hall : f.nb_samples ≤ L.swr_convert f := by
      by_contra hn
      nlinarith
    have he : L.swr_convert f = f.nb_samples := le_antisymm hlen hall
    rw [he]
    exact ⟨rfl, by ring⟩
  · rintro ⟨h1, h2⟩
    rw [h2]
    exact ⟨by linarith [mul_comm f.nb_samples out.channels], by
      show _ = L.swr_convert f * out.channels * 2
      rw [h1]
      ring, rfl, rfl⟩

def pcmPara (channels : ℤ) : AVCodecParameters := ⟨.audio, 86018, channels, 44100, AV_SAMPLE_FMT_S16⟩

def pcmFrame : AVFrame := { pts := 40, content := 0, format := AV_SAMPLE_FMT_S16, nb_samples := 1024 }

/-- A stereo stream, played as it is. -/
theorem resample_exact_stereo : Exact ⟨2, 44100, 2, 1, 44100⟩ pcmFrame (frameData .audio pcmFrame) 4096 1024
    { type := .UCHAR_TYPE, data := .pcm 0, size := 4096, pts := 40 } := by
  have ho : FFResample.openWith {} { para := some (pcmPara 2) } {} true =
      some (true, ⟨2, 44100, 2, 1, 44100⟩, ⟨true, 2, 1⟩) := rfl
  have hy : FFResample.resample bytewise ⟨true, 2, 1⟩ 0 (frameData .audio pcmFrame) =
      .pcm { type := .UCHAR_TYPE, data := .pcm 0, size := 4096, pts := 40 } := by decide
  exact (resample_exact rfl ho rfl (le_refl _) hy).mpr (by decide)

/-- With the default parameters for the output, a mono stream makes `swr_convert` write twice the size of the
buffer. -/
theorem resample_overrun : ¬ ∀ (r r' : FFResample) (inp out : XParameter) (para : AVCodecParameters) (c : SwrContext)
    (h : ℕ) (x y : XData) (f : AVFrame), inp.para = some para → r.openWith inp out true = some (true, c, r') →
    x.data = .frame f → bytewise.swr_convert f ≤ f.nb_samples → r'.resample bytewise h x = .pcm y →
      Exact c f x (r'.outsize f) (bytewise.swr_convert f) y := by
  intro hall
  have h := hall {} _ { para := some (pcmPara 1) } {} (pcmPara 1) _ 0 (frameData .audio pcmFrame)
    { type := .UCHAR_TYPE, data := .pcm 0, size := 2048, pts := 40 } pcmFrame rfl rfl rfl (le_refl _) (by decide)
  exact absurd h.capacity (by decide)

/-! ### The buffer of the device -/

def BUF_SIZE : ℤ := 1024 * 1024

def FitsInt (n : ℤ) : Prop := -2 ^ 31 ≤ n ∧ n < 2 ^ 31

theorem toInt32_eq_self {n : ℤ} : toInt32 n = n ↔ FitsInt n := by
  unfold toInt32 FitsInt
  rw [Wrap.bmod_eq_self_iff (by norm_num)]
  norm_num

/-- The way of the frame `f` through `RecvFrame`, `Resample`, `Update` and `GetData` to `PlayCall`, which copies
the buffer `y`. -/
structure Played (L : FFmpeg K) (D : FFDecode K) (R : FFResample) (f : AVFrame) (y : XData) : Prop where
  codec : (D.codec.map (·.codec_type)) = some .audio
  recv : (L.machine.recv D.codec).1 = some f
  resample : ∃ h, R.resample L h (D.recvFrame L).1 = .pcm y
  update : IAudioPlay.accepts y ∧ ∃ a a' : IAudioPlay, a.update y = some a' ∧ y ∈ a'.frames
  getData : ∃ a : IAudioPlay, (callStep false false a .section).2 = some (.got y)
  playCall : ∃ a : IAudioPlay, (callStep false false a (.got y)).2 = some (.copy y)

/-- `PlayCall` copies the buffer `y` of the frame `f` into `buf`, and no product on the way leaves `int`: the
size of the frame in `RecvFrame`, and that of the buffer in `Resample`, for `channels` channels. -/
structure InBuf (channels : ℤ) (f : AVFrame) (y : XData) : Prop where
  pos : 0 < y.size
  le : y.size ≤ BUF_SIZE
  frame : FitsInt (av_get_bytes_per_sample f.format * f.nb_samples) ∧
    FitsInt (av_get_bytes_per_sample f.format * f.nb_samples * 2)
  buffer : FitsInt (channels * f.nb_samples) ∧ FitsInt (channels * f.nb_samples * 2)

theorem av_get_bytes_per_sample_nonneg (fmt : ℤ) : 0 ≤ av_get_bytes_per_sample fmt := by
  unfold av_get_bytes_per_sample
  split
  · exact le_refl _
  · have hall : ∀ b ∈ sample_fmt_bytes, 0 ≤ b := by decide
    rw [List.getD_eq_getElem?_getD]
    rcases hb : sample_fmt_bytes[fmt.toNat]? with _ | b
    · exact le_refl _
    · exact hall b (List.mem_of_getElem? hb)

theorem recvFrame_audio {D : FFDecode K} {f : AVFrame} (hc : D.codec.map (·.codec_type) = some .audio)
    (hr : (L.machine.recv D.codec).1 = some f) : (D.recvFrame L).1 = frameData .audio f := by
  unfold FFDecode.recvFrame
  rcases hm : L.machine.recv D.codec with ⟨_ | g, k⟩ <;> rw [hm] at hr <;> cases hr
  rw [hc]
  rfl

/-- A frame that is played fits into `buf` if and only if its samples do and its size in `RecvFrame` does not
leave `int`. -/
theorem played_fits {D : FFDecode K} {r : FFResample} {para : AVCodecParameters} {f : AVFrame} {y : XData}
    (hnb : 0 < f.nb_samples) (h : Played L D (r.open para true) f y) :
    InBuf para.channels f y ↔ 0 < para.channels ∧ para.channels * f.nb_samples * 2 ≤ BUF_SIZE ∧
      av_get_bytes_per_sample f.format * f.nb_samples * 2 < 2 ^ 31 := by
  obtain ⟨n, hy⟩ := h.resample
  rw [recvFrame_audio h.codec h.recv] at hy
  obtain ⟨-, hpos, -, rfl⟩ := FFResample.resample_pcm rfl hy
  rw [FFResample.open_outsize] at hpos ⊢
  have hb := av_get_bytes_per_sample_nonneg f.format
  have hbn := mul_nonneg hb hnb.le
  constructor
  · rintro ⟨-, h1, ⟨-, -, h2⟩, -, h3⟩
    replace h1 : toInt32 (para.channels * f.nb_samples * 2) ≤ BUF_SIZE := h1
    rw [toInt32_eq_self.mpr h3] at h1 hpos
    refine ⟨?_, h1, h2⟩
    by_contra hn
    nlinarith
  · rintro ⟨hc, h1, h2⟩
    have hcn := mul_pos hc hnb
    unfold BUF_SIZE at h1
    have h3 : FitsInt (para.channels * f.nb_samples * 2) := by
      unfold FitsInt
      omega
    refine ⟨hpos, ?_, ?_, ?_, h3⟩
    · show toInt32 (para.channels * f.nb_samples * 2) ≤ BUF_SIZE
      rw [toInt32_eq_self.mpr h3]
      exact h1
    · unfold FitsInt
      omega
    · unfold FitsInt
      omega

def returning (f : AVFrame) : FFDecode (List AVFrame) :=
  { isAudio := true, codec := some ⟨.audio, some [f]⟩ }

def stereoPcm (n : ℤ) : XData := { type := .UCHAR_TYPE, data := .pcm 0, size := n * 4, pts := 40 }

theorem played_pcmFrame : Played bytewise (returning pcmFrame) (FFResample.open {} (pcmPara 2) true) pcmFrame
    (stereoPcm 1024) where
  codec := rfl
  recv := rfl
  resample := ⟨0, by decide⟩
  update := ⟨by decide, {}, _, rfl, by decide⟩
  getData := ⟨{ frames := [stereoPcm 1024] }, rfl⟩
  playCall := ⟨{}, rfl⟩

theorem played_fits_1024 : InBuf 2 pcmFrame (stereoPcm 1024) :=
  (played_fits (by decide) played_pcmFrame).mpr (by decide)

/-- A frame of 300000 samples in stereo needs more than `BUF_SIZE` bytes. -/
theorem played_overrun : ¬ ∀ (D : FFDecode (List AVFrame)) (r : FFResample) (para : AVCodecParameters) (f : AVFrame)
    (y : XData), 0 < f.nb_samples → Played bytewise D (r.open para true) f y → InBuf para.channels f y := by
  intro hall
  let f : AVFrame := { pcmFrame with nb_samples := 300000 }
  have hp : Played bytewise (returning f) (FFResample.open {} (pcmPara 2) true) f (stereoPcm 300000) :=
    { codec := rfl
      recv := rfl
      resample := ⟨0, by decide⟩
      update := ⟨by decide, {}, _, rfl, by decide⟩
      getData := ⟨{ frames := [stereoPcm 300000] }, rfl⟩
      playCall := ⟨{}, rfl⟩ }
  exact absurd (hall _ _ _ f _ (by decide) hp).le (by decide)

end XPlayer
