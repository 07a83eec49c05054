import XPlayer.Lib.Loop
import XPlayer.LibAV.Mathematics

/-!
# The decoding API

`avcodec_send_packet` and `avcodec_receive_frame` around the `decode` callback of a codec. A packet passes
three places: the bitstream filter (the null filter here) holds one, `ds.in_pkt` is the one that is being
decoded, and `buffer_frame` holds a frame that `avcodec_send_packet` has decoded in advance.

The codec is a parameter: what `decode` (or `ff_thread_decode_frame`) returns for a packet, where `none` is
the empty packet that drains it. An `AVCodec` carries that decoding makes progress, so that the loop of
`decode_simple_receive_frame` ends.
-/

namespace LibAV
open XPlayer (AVMediaType AVRational toInt32)

def AV_NOPTS_VALUE : ℤ := INT64_MIN

/-- Error codes; `other` are those of a decoder. -/
inductive AVERROR
  | EAGAIN | EOF | EINVAL | BUG
  | other (e : ℕ)
  deriving DecidableEq

inductive AVPacketSideDataType
  | SKIP_SAMPLES
  | other (n : ℕ)
  deriving DecidableEq

abbrev SideData := List (AVPacketSideDataType × List UInt8)

/-- A packet with data; an empty `data` is a pointer with size zero. -/
structure AVPacket where
  data : List UInt8
  pts : ℤ
  dts : ℤ
  side_data : SideData := []
  deriving DecidableEq

def AVPacket.size (p : AVPacket) : ℕ := p.data.length

/-- The rest of a packet of which `consumed` bytes are decoded. -/
def AVPacket.advance (p : AVPacket) (consumed : ℕ) : AVPacket :=
  { p with data := p.data.drop consumed, pts := AV_NOPTS_VALUE, dts := AV_NOPTS_VALUE }

@[simp] theorem AVPacket.size_advance (p : AVPacket) (n : ℕ) : (p.advance n).size = p.size - n := List.length_drop

/-- `last_pkt_props`. -/
structure PacketProps where
  size : ℕ := 0
  pts : ℤ := AV_NOPTS_VALUE
  dts : ℤ := AV_NOPTS_VALUE
  side_data : SideData := []
  deriving DecidableEq

def AVPacket.props (p : AVPacket) : PacketProps :=
  { size := p.size, pts := p.pts, dts := p.dts, side_data := p.side_data }

def PacketProps.advance (p : PacketProps) (consumed : ℕ) : PacketProps :=
  { p with size := p.size - consumed, pts := AV_NOPTS_VALUE, dts := AV_NOPTS_VALUE }

/-- A frame: its samples, or the pixels of a picture. -/
structure AVFrame (S : Type) where
  pts : ℤ
  pkt_dts : ℤ
  best_effort_timestamp : ℤ
  pkt_duration : ℤ
  /-- `AV_FRAME_FLAG_DISCARD` -/
  discard : Bool
  samples : List S
  deriving DecidableEq

def AVFrame.nb_samples {S : Type} (f : AVFrame S) : ℕ := f.samples.length

/-- What `decode` returns: an error code, or the bytes it consumed and a frame, if it got one. -/
inductive Decoded (S : Type)
  | error (e : ℕ)
  | ok (consumed : ℕ) (frame : Option (AVFrame S))
  deriving DecidableEq

/-- A codec with states `D` and the fields of its context that the API reads. -/
structure AVCodec (D S : Type) where
  type : AVMediaType
  /-- `AV_CODEC_CAP_DELAY` -/
  delay : Bool
  /-- `FF_CODEC_CAP_SETS_PKT_DTS` -/
  sets_pkt_dts : Bool
  /-- `thread_count`, when frame threads are active. -/
  frame_threads : Option ℕ
  pkt_timebase : AVRational
  sample_rate : ℤ
  skip_samples_multiplier : D → ℕ
  decode : D → PacketProps → Option AVPacket → Decoded S × D
  flush : D → D
  /-- How often `decode` can still be called on a packet of which so many bytes are left, or with the
  empty packet until it has no frame. -/
  left : D → ℕ → ℕ
  budget : ℕ
  left_le : ∀ d n, left d n ≤ budget
  advances : ∀ d props p n f d', type ≠ .video → decode d props (some p) = (.ok n f, d') → n < p.size →
    left d' (p.size - n) < left d p.size
  drains : ∀ d props n f d', decode d props none = (.ok n (some f), d') → left d' 0 < left d 0

/-- The state of a context that decoding reads and writes. -/
structure Core (D : Type) where
  dec : D
  last_pkt_props : PacketProps := {}
  skip_samples : ℤ := 0
  pts_correction_num_faulty_pts : ℤ := 0
  pts_correction_num_faulty_dts : ℤ := 0
  pts_correction_last_pts : ℤ := INT64_MIN
  pts_correction_last_dts : ℤ := INT64_MIN
  deriving DecidableEq

variable {D S : Type}

/-! ### Timestamps -/

/-- The first half of `guess_correct_pts`. -/
def correctDts (c : Core D) (reordered_pts dts : ℤ) : Core D :=
  if dts ≠ AV_NOPTS_VALUE then
    { c with pts_correction_num_faulty_dts :=
               c.pts_correction_num_faulty_dts + if dts ≤ c.pts_correction_last_dts then 1 else 0,
             pts_correction_last_dts := dts }
  else if reordered_pts ≠ AV_NOPTS_VALUE then { c with pts_correction_last_dts := reordered_pts }
  else c

/-- The second half. -/
def correctPts (c : Core D) (reordered_pts dts : ℤ) : Core D :=
  if reordered_pts ≠ AV_NOPTS_VALUE then
    { c with pts_correction_num_faulty_pts :=
               c.pts_correction_num_faulty_pts + if reordered_pts ≤ c.pts_correction_last_pts then 1 else 0,
             pts_correction_last_pts := reordered_pts }
  else if dts ≠ AV_NOPTS_VALUE then { c with pts_correction_last_pts := dts }
  else c

def guess_correct_pts (c : Core D) (reordered_pts dts : ℤ) : ℤ × Core D :=
  let c := correctPts (correctDts c reordered_pts dts) reordered_pts dts
  (if (c.pts_correction_num_faulty_pts ≤ c.pts_correction_num_faulty_dts ∨ dts = AV_NOPTS_VALUE) ∧
      reordered_pts ≠ AV_NOPTS_VALUE then reordered_pts else dts, c)

/-! ### Skipped and discarded samples -/

/-- Four bytes, the least one first. -/
def AV_RL32 (side : List UInt8) (i : ℕ) : ℕ :=
  (side.getD i 0).toNat + (side.getD (i + 1) 0).toNat * 2 ^ 8 + (side.getD (i + 2) 0).toNat * 2 ^ 16 +
    (side.getD (i + 3) 0).toNat * 2 ^ 24

/-- The side data of the last packet sets `skip_samples`; the second component is `discard_padding`. -/
def skipSideData (C : AVCodec D S) (c : Core D) : Core D × ℕ :=
  match c.last_pkt_props.side_data.lookup .SKIP_SAMPLES with
  | some side =>
    if side.length ≥ 10 then
      ({ c with skip_samples := toInt32 (AV_RL32 side 0 * C.skip_samples_multiplier c.dec) }, AV_RL32 side 4)
    else (c, 0)
  | none => (c, 0)

/-- `n` samples in the time base of the packets, when both are known. -/
def samplesTs (C : AVCodec D S) (n : ℤ) : Option ℤ :=
  if C.pkt_timebase.num ≠ 0 ∧ C.sample_rate ≠ 0 then some (av_rescale_q n ⟨1, C.sample_rate⟩ C.pkt_timebase)
  else none

/-- Drop the first `n` samples; the timestamps follow. -/
def AVFrame.skipSamples (C : AVCodec D S) (f : AVFrame S) (n : ℕ) : AVFrame S :=
  let f :=
    match samplesTs C n with
    | some diff_ts =>
      { f with pts := if f.pts ≠ AV_NOPTS_VALUE then f.pts + diff_ts else f.pts,
               pkt_dts := if f.pkt_dts ≠ AV_NOPTS_VALUE then f.pkt_dts + diff_ts else f.pkt_dts,
               pkt_duration := if f.pkt_duration ≥ diff_ts then f.pkt_duration - diff_ts else f.pkt_duration }
    | none => f
  { f with samples := f.samples.drop n }

/-- Drop the last `n` samples. -/
def AVFrame.discardPadding (C : AVCodec D S) (f : AVFrame S) (n : ℕ) : AVFrame S :=
  { f with samples := f.samples.take (f.nb_samples - n),
           pkt_duration := (samplesTs C (f.nb_samples - n)).getD f.pkt_duration }

/-- `skip_samples` at the front of a frame: `none` when no sample is left. -/
def skipFront (C : AVCodec D S) (c : Core D) (f : AVFrame S) : Option (AVFrame S) × Core D :=
  if f.discard then (none, { c with skip_samples := max 0 (c.skip_samples - f.nb_samples) })
  else if c.skip_samples > 0 then
    if f.nb_samples ≤ c.skip_samples then (none, { c with skip_samples := c.skip_samples - f.nb_samples })
    else (some (f.skipSamples C c.skip_samples.toNat), { c with skip_samples := 0 })
  else (some f, c)

/-- `discard_padding` at its end. -/
def discardBack (C : AVCodec D S) (discard_padding : ℕ) (f : AVFrame S) : Option (AVFrame S) :=
  if discard_padding > 0 ∧ discard_padding ≤ f.nb_samples then
    if discard_padding = f.nb_samples then none else some (f.discardPadding C discard_padding)
  else some f

/-! ### One call of the decoder -/

/-- The outcome of a call: `frame` is what is left of it, `actual` whether the decoder got one. -/
inductive Result (S : Type)
  | error (e : ℕ)
  | ok (consumed : ℕ) (frame : Option (AVFrame S)) (actual : Bool)
  deriving DecidableEq

/-- What becomes of the frame of a video decoder. -/
def videoFrame (c : Core D) : Option (AVFrame S) → Option (AVFrame S) × Core D
  | none => (none, c)
  | some f =>
    if f.discard then (none, c)
    else (some { f with best_effort_timestamp := (guess_correct_pts c f.pts f.pkt_dts).1 },
      (guess_correct_pts c f.pts f.pkt_dts).2)

/-- What becomes of the frame of an audio decoder. -/
def audioFrame (C : AVCodec D S) (c : Core D) : Option (AVFrame S) → Option (AVFrame S) × Core D
  | none => (none, (skipSideData C c).1)
  | some f =>
    let g := guess_correct_pts c f.pts f.pkt_dts
    let s := skipSideData C g.2
    let r := skipFront C s.1 { f with best_effort_timestamp := g.1 }
    (r.1.bind (discardBack C s.2), r.2)

/-- The decoder without frame threads does not set `pkt_dts` unless it says so. -/
def setPktDts (C : AVCodec D S) (pkt : Option AVPacket) (f : AVFrame S) : AVFrame S :=
  if C.frame_threads = none ∧ ¬ C.sets_pkt_dts then { f with pkt_dts := (pkt.map (·.dts)).getD AV_NOPTS_VALUE }
  else f

/-- The call of `decode` and what follows it for the frame. -/
def decodeCall (C : AVCodec D S) (c : Core D) (pkt : Option AVPacket) : Result S × Core D :=
  match C.decode c.dec c.last_pkt_props pkt with
  | (.error e, d) => (.error e, if C.type = .audio then (skipSideData C { c with dec := d }).1 else { c with dec := d })
  | (.ok n f, d) =>
    let f := f.map (setPktDts C pkt)
    match C.type with
    | .video =>
      (.ok ((pkt.map AVPacket.size).getD 0) (videoFrame { c with dec := d } f).1 f.isSome,
        (videoFrame { c with dec := d } f).2)
    | .audio =>
      (.ok n (audioFrame C { c with dec := d } f).1 f.isSome, (audioFrame C { c with dec := d } f).2)
    | _ => (.ok n f f.isSome, { c with dec := d })

section
variable {C : AVCodec D S}

@[simp] theorem correctDts_dec (c : Core D) (pts dts : ℤ) : (correctDts c pts dts).dec = c.dec := by
  simp only [correctDts, apply_ite Core.dec, ite_self]

@[simp] theorem correctPts_dec (c : Core D) (pts dts : ℤ) : (correctPts c pts dts).dec = c.dec := by
  simp only [correctPts, apply_ite Core.dec, ite_self]

@[simp] theorem guess_correct_pts_dec (c : Core D) (pts dts : ℤ) : (guess_correct_pts c pts dts).2.dec = c.dec := by
  simp only [guess_correct_pts, correctPts_dec, correctDts_dec]

@[simp] theorem skipSideData_dec (c : Core D) : (skipSideData C c).1.dec = c.dec := by
  unfold skipSideData
  cases c.last_pkt_props.side_data.lookup .SKIP_SAMPLES with
  | none => rfl
  | some side => simp only [apply_ite Prod.fst, apply_ite Core.dec, ite_self]

@[simp] theorem skipFront_dec (c : Core D) (f : AVFrame S) : (skipFront C c f).2.dec = c.dec := by
  unfold skipFront
  split_ifs <;> rfl

@[simp] theorem videoFrame_dec (c : Core D) (f : Option (AVFrame S)) : (videoFrame c f).2.dec = c.dec := by
  cases f with
  | none => rfl
  | some f =>
    unfold videoFrame
    dsimp only
    split
    · rfl
    · exact guess_correct_pts_dec c f.pts f.pkt_dts

@[simp] theorem audioFrame_dec (c : Core D) (f : Option (AVFrame S)) : (audioFrame C c f).2.dec = c.dec := by
  cases f <;> simp [audioFrame]

theorem isSome_of_videoFrame {c : Core D} {f : Option (AVFrame S)} (h : (videoFrame c f).1.isSome) : f.isSome := by
  cases f with
  | none => exact h
  | some f => rfl

theorem isSome_of_audioFrame {c : Core D} {f : Option (AVFrame S)} (h : (audioFrame C c f).1.isSome) :
    f.isSome := by
  cases f with
  | none => exact h
  | some f => rfl

/-- Behind an outcome is the call of `decode`: a packet of a video decoder is consumed as a whole, and
there is a frame only if the decoder got one. -/
theorem decodeCall_ok {c c' : Core D} {pkt : Option AVPacket} {n : ℕ} {f : Option (AVFrame S)} {actual : Bool}
    (h : decodeCall C c pkt = (.ok n f actual, c')) :
    ∃ n₀ f₀, C.decode c.dec c.last_pkt_props pkt = (.ok n₀ f₀, c'.dec) ∧ actual = f₀.isSome ∧
      (f.isSome → actual) ∧ (C.type = .video → n = (pkt.map AVPacket.size).getD 0) ∧
        (C.type ≠ .video → n = n₀) := by
  unfold decodeCall at h
  rcases hd : C.decode c.dec c.last_pkt_props pkt with ⟨e | ⟨n₀, f₀⟩, d⟩ <;> rw [hd] at h
  · cases h
  · dsimp only at h
    split at h <;> rename_i ht <;> cases h
    · exact ⟨n₀, f₀, by rw [videoFrame_dec], by simp, isSome_of_videoFrame, fun _ => rfl, fun hn => absurd ht hn⟩
    · refine ⟨_, f₀, by rw [audioFrame_dec], by simp, isSome_of_audioFrame, fun hv => ?_, fun _ => rfl⟩
      rw [ht] at hv
      cases hv
    · exact ⟨_, f₀, rfl, by simp, id, fun hv => absurd hv ‹_›, fun _ => rfl⟩

end

/-! ### The bitstream filter -/

/-- The null filter: one packet, and whether the end of the stream was announced. -/
structure AVBSFContext where
  buffer_pkt : Option AVPacket := none
  eof : Bool := false
  deriving DecidableEq

namespace AVBSFContext

def av_bsf_send_packet (b : AVBSFContext) : Option AVPacket → Except AVERROR AVBSFContext
  | none => .ok { b with eof := true }
  | some p =>
    if b.eof then .error .EINVAL
    else if b.buffer_pkt.isSome then .error .EAGAIN
    else .ok { b with buffer_pkt := some p }

theorem eq_empty {b : AVBSFContext} (hb : b.buffer_pkt = none) (he : b.eof = false) : b = {} := by
  cases b
  cases hb
  cases he
  rfl

/-- After the end was announced a packet that is still buffered is not given out any more. -/
def av_bsf_receive_packet (b : AVBSFContext) : Except AVERROR (AVPacket × AVBSFContext) :=
  if b.eof then .error .EOF
  else
    match b.buffer_pkt with
    | none => .error .EAGAIN
    | some p => .ok (p, { b with buffer_pkt := none })

end AVBSFContext

/-! ### The API -/

structure AVCodecContext (D S : Type) where
  core : Core D
  bsf : AVBSFContext := {}
  in_pkt : Option AVPacket := none
  buffer_frame : Option (AVFrame S) := none
  draining : Bool := false
  draining_done : Bool := false
  nb_draining_errors : ℕ := 0
  deriving DecidableEq

/-- `nb_errors_max` -/
def AVCodec.nb_errors_max (C : AVCodec D S) : ℕ := 20 + C.frame_threads.getD 1

/-- The decoder holds frames back, so that it is called with the empty packet at the end. -/
def AVCodec.delays (C : AVCodec D S) : Bool := C.delay || C.frame_threads.isSome

/-- `extract_packet_props` -/
def Core.load (c : Core D) (p : AVPacket) : Core D := { c with last_pkt_props := p.props }

/-- What a call on `pkt` leaves of it, when it consumed `n` bytes. -/
def restPkt (n : ℕ) (pkt : Option AVPacket) (c : Core D) : Option AVPacket × Core D :=
  match pkt with
  | some p =>
    if n < p.size then (some (p.advance n), { c with last_pkt_props := c.last_pkt_props.advance n })
    else (none, c)
  | none => (none, c)

namespace AVCodecContext
variable (C : AVCodec D S)

def ff_decode_get_packet (a : AVCodecContext D S) : Option AVERROR × AVCodecContext D S :=
  if a.draining then (some .EOF, a)
  else
    match a.bsf.av_bsf_receive_packet with
    | .error .EOF => (some .EOF, { a with draining := true })
    | .error e => (some e, a)
    | .ok (p, b) => (none, { a with core := a.core.load p, bsf := b, in_pkt := some p })

/-- The part of `decode_simple_internal` from the call of the decoder on. -/
def decodePkt (a : AVCodecContext D S) : Except AVERROR (Option (AVFrame S)) × AVCodecContext D S :=
  match decodeCall C a.core a.in_pkt with
  | (.error e, c) =>
    let a' := { a with core := c, in_pkt := none }
    if a.draining then
      if a.nb_draining_errors ≥ C.nb_errors_max then
        (.error .BUG, { a' with nb_draining_errors := a.nb_draining_errors + 1, draining_done := true })
      else (.error (.other e), { a' with nb_draining_errors := a.nb_draining_errors + 1 })
    else (.error (.other e), a')
  | (.ok n f actual, c) =>
    (.ok f, { a with core := (restPkt n a.in_pkt c).2, in_pkt := (restPkt n a.in_pkt c).1,
                     draining_done := a.draining_done || (a.draining && !actual) })

/-- The part of `decode_simple_internal` once there is a packet, or none is left. -/
def decodeRest (a : AVCodecContext D S) : Except AVERROR (Option (AVFrame S)) × AVCodecContext D S :=
  if a.draining_done then (.error .EOF, a)
  else if a.in_pkt.isNone ∧ ¬ C.delays then (.error .EOF, a)
  else decodePkt C a

def decode_simple_internal (a : AVCodecContext D S) :
    Except AVERROR (Option (AVFrame S)) × AVCodecContext D S :=
  if a.in_pkt.isNone ∧ ¬ a.draining then
    match ff_decode_get_packet a with
    | (none, a') | (some .EOF, a') => decodeRest C a'
    | (some e, a') => (.error e, a')
  else decodeRest C a

/-- The calls that `decode_simple_receive_frame` may still make. -/
def rank (a : AVCodecContext D S) : ℕ :=
  if a.draining_done then 0
  else
    match a.in_pkt with
    | some p => C.left a.core.dec p.size + C.budget + 4 + if a.bsf.buffer_pkt.isSome then 2 * C.budget + 6 else 0
    | none =>
      if a.draining then C.left a.core.dec 0 + 1
      else if a.bsf.eof then C.budget + 2
      else if a.bsf.buffer_pkt.isSome then 2 * C.budget + 6
      else 0

variable {C} {a a' : AVCodecContext D S}

theorem decodePkt_lt (hdone : a.draining_done = false) (hdel : a.in_pkt = none → a.draining = true)
    (h : decodePkt C a = (.ok none, a')) : rank C a' < rank C a := by
  unfold decodePkt at h
  rcases hd : decodeCall C a.core a.in_pkt with ⟨e | ⟨n, f, actual⟩, c⟩ <;> rw [hd] at h
  · dsimp only at h
    split at h <;> [split at h; skip] <;> cases h
  · cases h
    obtain ⟨n₀, f₀, hdec, hact, -, hv, ha⟩ := decodeCall_ok hd
    unfold rank
    rw [hdone, Bool.false_or]
    rcases hp : a.in_pkt with _ | p
    · -- the empty packet: the frame that the decoder got was discarded
      rw [hp] at hdec
      simp only [hdel hp, Bool.true_and, restPkt]
      cases f₀ with
      | none => simp [hact]
      | some f₀ =>
        have := C.drains _ _ _ _ _ hdec
        simpa [hact] using this
    · rw [hp] at hdec
      simp only [restPkt]
      by_cases hn : n < p.size
      · -- a part of the packet is left
        have hna : C.type ≠ .video := fun h => by
          rw [hv h, hp] at hn
          exact absurd hn (Nat.lt_irrefl _)
        rw [ha hna] at hn ⊢
        have hlt := C.advances _ _ _ _ _ _ hna hdec hn
        simp only [if_pos hn, AVPacket.size_advance, Bool.false_eq_true, if_false]
        split_ifs <;> omega
      · have hb := C.left_le c.dec 0
        simp only [if_neg hn, Bool.false_eq_true, if_false]
        split_ifs <;> omega

theorem decodeRest_lt (hdel : a.in_pkt = none → a.draining = true)
    (h : decodeRest C a = (.ok none, a')) : rank C a' < rank C a := by
  unfold decodeRest at h
  split_ifs at h with hdone
  · cases h
  · cases h
  · exact decodePkt_lt (by simpa using hdone) hdel h

/-- A turn without a frame is one of finitely many. -/
theorem internal_lt (h : decode_simple_internal C a = (.ok none, a')) : rank C a' < rank C a := by
  unfold decode_simple_internal at h
  by_cases hg : a.in_pkt.isNone ∧ ¬ a.draining
  · obtain ⟨hp, hdr⟩ := hg
    rw [Option.isNone_iff_eq_none] at hp
    rw [if_pos ⟨by rw [hp]; rfl, hdr⟩, ff_decode_get_packet, if_neg hdr] at h
    unfold AVBSFContext.av_bsf_receive_packet at h
    by_cases he : a.bsf.eof = true
    · -- the end: the first call with the empty packet
      simp only [if_pos he] at h
      refine (decodeRest_lt (fun _ => rfl) h).trans_le ?_
      have hb := C.left_le a.core.dec 0
      simp only [rank, hp, if_neg hdr, if_pos he]
      split_ifs <;> omega
    · simp only [if_neg he] at h
      rcases hb : a.bsf.buffer_pkt with _ | q
      · rw [hb] at h
        cases h
      · rw [hb] at h
        refine (decodeRest_lt (fun hn => by cases hn) h).trans_le ?_
        have hq := C.left_le a.core.dec q.size
        simp only [rank, hp, if_neg hdr, if_neg he, hb, Core.load, Option.isSome_none, Option.isSome_some, if_true,
          Bool.false_eq_true, if_false]
        split_ifs <;> omega
  · rw [if_neg hg] at h
    refine decodeRest_lt (fun hn => ?_) h
    by_contra hdr
    exact hg ⟨by rw [hn]; rfl, hdr⟩

variable (C)

/-- The loop of `decode_simple_receive_frame`. -/
def receiveLoop : Loop (AVCodecContext D S) (Except AVERROR (AVFrame S) × AVCodecContext D S) where
  turn a :=
    match decode_simple_internal C a with
    | (.error e, a') => .inr (.error e, a')
    | (.ok (some f), a') => .inr (.ok f, a')
    | (.ok none, a') => .inl a'
  rank := rank C
  turn_lt a a' h := by
    rcases hi : decode_simple_internal C a with ⟨e | _ | f, b⟩ <;> rw [hi] at h <;> cases h
    exact internal_lt hi

def decode_simple_receive_frame (a : AVCodecContext D S) : Except AVERROR (AVFrame S) × AVCodecContext D S :=
  (receiveLoop C).run a

def decode_receive_frame_internal (a : AVCodecContext D S) : Except AVERROR (AVFrame S) × AVCodecContext D S :=
  match decode_simple_receive_frame C a with
  | (.error .EOF, a') => (.error .EOF, { a' with draining_done := true })
  | r => r

/-- The end of `avcodec_send_packet`: a frame is decoded in advance. -/
def decodeAhead (a : AVCodecContext D S) : Except AVERROR Unit × AVCodecContext D S :=
  if a.buffer_frame.isNone then
    match decode_receive_frame_internal C a with
    | (.ok f, a') => (.ok (), { a' with buffer_frame := some f })
    | (.error .EAGAIN, a') | (.error .EOF, a') => (.ok (), a')
    | (.error e, a') => (.error e, a')
  else (.ok (), a)

/-- `avpkt` is `none` for a null pointer and for a packet without data. -/
def avcodec_send_packet (a : AVCodecContext D S) (avpkt : Option AVPacket) :
    Except AVERROR Unit × AVCodecContext D S :=
  if a.draining then (.error .EOF, a)
  else if ∃ p ∈ avpkt, p.size = 0 then (.error .EINVAL, a)
  else
    match a.bsf.av_bsf_send_packet avpkt with
    | .error e => (.error e, a)
    | .ok b => decodeAhead C { a with bsf := b }

def avcodec_receive_frame (a : AVCodecContext D S) : Except AVERROR (AVFrame S) × AVCodecContext D S :=
  match a.buffer_frame with
  | some f => (.ok f, { a with buffer_frame := none })
  | none => decode_receive_frame_internal C a

def avcodec_flush_buffers (a : AVCodecContext D S) : AVCodecContext D S :=
  { core := { a.core with dec := C.flush a.core.dec, pts_correction_last_pts := INT64_MIN,
                          pts_correction_last_dts := INT64_MIN } }

end AVCodecContext

end LibAV
