import Mathlib.Data.Rat.Floor
import Mathlib.Data.List.Basic

/-!
# Packets, frames and `XData`

The values that travel through the player. A pointer is modelled by what it points to together with
the handle of the allocation (`Buf`), so that two `XData` with the same handle are two copies of one
pointer. Machine arithmetic: `toInt32` is the conversion to a 32-bit `int`, doubles are exact
rationals.
-/

namespace XPlayer

/-- Conversion to a 32-bit `int`. -/
def toInt32 (n : ℤ) : ℤ := n.bmod (2 ^ 32)

/-- Truncation of a rational toward zero. -/
def trunc (q : ℚ) : ℤ := q.num.tdiv q.den

/-- `static_cast<int64_t>` of a `double`: out of range it saturates, as the target's conversion does. -/
def toInt64 (q : ℚ) : ℤ := max (-2 ^ 63) (min (trunc q) (2 ^ 63 - 1))

inductive AVMediaType
  | unknown | video | audio | data | subtitle | attachment
  deriving DecidableEq

structure AVRational where
  num : ℤ
  den : ℤ
  deriving DecidableEq

/-- `r2d`: a fraction as a floating point number, `0` for a zero numerator or denominator. -/
def r2d (r : AVRational) : ℚ := if r.num = 0 ∨ r.den = 0 then 0 else r.num / r.den

structure AVCodecParameters where
  codec_type : AVMediaType
  codec_id : ℕ
  channels : ℤ
  sample_rate : ℤ
  format : ℤ
  deriving DecidableEq

structure AVStream where
  codecpar : AVCodecParameters
  time_base : AVRational
  duration : ℤ
  deriving DecidableEq

structure AVPacket where
  stream_index : ℕ
  pts : ℤ
  dts : ℤ
  payload : List UInt8
  deriving DecidableEq

def AVPacket.size (p : AVPacket) : ℤ := p.payload.length

/-- A decoded frame; `content` stands for the samples or the picture. -/
structure AVFrame where
  pts : ℤ
  content : ℕ
  format : ℤ := 0
  width : ℤ := 0
  height : ℤ := 0
  linesize : ℤ × ℤ × ℤ := (0, 0, 0)
  nb_samples : ℤ := 0
  deriving DecidableEq

/-- `AVSampleFormat`: S16 and the number of formats. -/
def AV_SAMPLE_FMT_S16 : ℤ := 1

/-- Bytes of a sample of each format (u8, s16, s32, flt, dbl, planar ones, s64). -/
def sample_fmt_bytes : List ℤ := [1, 2, 4, 4, 8, 1, 2, 4, 4, 8, 8, 8]

def av_get_bytes_per_sample (sample_fmt : ℤ) : ℤ :=
  if sample_fmt < 0 ∨ sample_fmt ≥ 12 then 0 else sample_fmt_bytes.getD sample_fmt.toNat 0

structure XParameter where
  para : Option AVCodecParameters := none
  channels : ℤ := 2
  sampleRate : ℤ := 44100
  deriving DecidableEq

inductive XDataType
  | AVPACKET_TYPE
  | UCHAR_TYPE
  deriving DecidableEq

/-- What `XData::data` points to. Packets and PCM buffers carry the handle of their allocation; a
frame belongs to its decoder. -/
inductive Buf
  | null
  | packet (h : ℕ) (pkt : AVPacket)
  | frame (f : AVFrame)
  | pcm (h : ℕ)
  deriving DecidableEq

structure XData where
  type : XDataType := .AVPACKET_TYPE
  pts : ℤ := 0
  data : Buf := .null
  size : ℤ := 0
  isAudio : Bool := false
  width : ℤ := 0
  height : ℤ := 0
  format : ℤ := 0
  deriving DecidableEq

/-- The handle of the allocation behind `data`. -/
def XData.handle (x : XData) : ℕ :=
  match x.data with
  | .packet h _ | .pcm h => h
  | _ => 0

end XPlayer
