import XPlayer.Data
import Mathlib.Tactic.Linarith

/-!
# `FFDemux`

The demuxer: `Open`, `Close`, `GetVideoPara`, `GetAudioPara`, `Read` and `Seek` on the fields `ic`,
`audioStream`, `videoStream` and `total`. A `Container` is what `avformat_open_input` finds in a file;
`AVFormatContext.packets` are the packets `av_read_frame` has still to return.

`audioStream` and `videoStream` keep the value of an earlier file (or their initial `1` and `0`) when
the file opened now has no such stream. `openAll_classifies` says when this shows.
-/

namespace XPlayer

/-- The streams of a file and what `av_find_best_stream` returns for each media type: negative, or the
index of a stream of that type. -/
structure Container where
  streams : List AVStream
  duration : ℤ
  best : AVMediaType → ℤ
  best_lt : ∀ t, 0 ≤ best t → (best t).toNat < streams.length
  best_type : ∀ t (h : 0 ≤ best t), (streams.get ⟨(best t).toNat, best_lt t h⟩).codecpar.codec_type = t

structure AVFormatContext where
  file : Container
  packets : List AVPacket

/-- The outcome of `avformat_open_input` and `avformat_find_stream_info`. -/
inductive OpenInput
  | failed
  | noInfo (ic : AVFormatContext)
  | opened (ic : AVFormatContext)

/-- `av_seek_frame` by stream and timestamp: its return value and the packets that remain then. -/
abbrev SeekFrame := ℕ → ℤ → ℤ × List AVPacket

structure FFDemux where
  ic : Option AVFormatContext := none
  audioStream : ℕ := 1
  videoStream : ℕ := 0
  /-- Not initialised by the constructor. -/
  total : ℤ

namespace FFDemux

def close (d : FFDemux) : FFDemux := { d with ic := none }

/-- The part of `Open` under the mutex. A file without stream info stays open. -/
def openInput (d : FFDemux) : OpenInput → Bool × FFDemux
  | .failed => (false, { d with ic := none })
  | .noInfo ic => (false, { d with ic := some ic })
  | .opened ic => (true, { d with ic := some ic, total := toInt32 (ic.file.duration.tdiv 1000) })

def getVideoPara (d : FFDemux) : XParameter × FFDemux :=
  match d.ic with
  | none => ({}, d)
  | some ic =>
    let ret := ic.file.best .video
    if ret < 0 then ({}, d)
    else ({ para := (ic.file.streams[ret.toNat]?).map (·.codecpar) }, { d with videoStream := ret.toNat })

def getAudioPara (d : FFDemux) : XParameter × FFDemux :=
  match d.ic with
  | none => ({}, d)
  | some ic =>
    let ret := ic.file.best .audio
    if ret < 0 then ({}, d)
    else
      match ic.file.streams[ret.toNat]? with
      | none => ({}, { d with audioStream := ret.toNat })
      | some st => ({ para := some st.codecpar, channels := st.codecpar.channels,
                      sampleRate := st.codecpar.sample_rate }, { d with audioStream := ret.toNat })

/-- `Open`: the two `Get…Para` calls at its end only store the stream indices. -/
def «open» (d : FFDemux) (o : OpenInput) : Bool × FFDemux :=
  match d.close.openInput o with
  | (false, d) => (false, d)
  | (true, d) => (true, d.getVideoPara.2.getAudioPara.2)

/-- A timestamp in milliseconds, as `Read` computes it. -/
def toMillis (ic : AVFormatContext) (stream : ℕ) (ts : ℤ) : ℤ :=
  let tb := ((ic.file.streams[stream]?).map (·.time_base)).getD ⟨0, 0⟩
  toInt64 (ts * (1000 * r2d tb))

/-- The `XData` for the packet `pkt` of an audio or video stream; `h` is the new handle. -/
def packetData (ic : AVFormatContext) (h : ℕ) (pkt : AVPacket) (isAudio : Bool) : XData :=
  let pkt' := { pkt with pts := toMillis ic pkt.stream_index pkt.pts,
                         dts := toMillis ic pkt.stream_index pkt.dts }
  { data := .packet h pkt', size := pkt.size, isAudio := isAudio, pts := toInt32 pkt'.pts }

/-- `Read`: the next packet, an empty `XData` at the end of the file or for another stream. -/
def read (d : FFDemux) (h : ℕ) : XData × FFDemux :=
  match d.ic with
  | none => ({}, d)
  | some ic =>
    match ic.packets with
    | [] => ({}, d)
    | pkt :: rest =>
      let d' := { d with ic := some { ic with packets := rest } }
      if pkt.stream_index = d.audioStream then (packetData ic h pkt true, d')
      else if pkt.stream_index = d.videoStream then (packetData ic h pkt false, d')
      else ({}, d')

/-- `Seek`: `re` is the `int` result of `av_seek_frame` as a `bool`. -/
def seek (d : FFDemux) (pos : ℚ) (av_seek_frame : SeekFrame) : Bool × FFDemux :=
  if pos < 0 ∨ 1 < pos then (false, d)
  else
    match d.ic with
    | none => (false, d)
    | some ic =>
      let duration := ((ic.file.streams[d.videoStream]?).map (·.duration)).getD 0
      let seekPts := toInt64 (duration * pos)
      let (ret, rest) := av_seek_frame d.videoStream seekPts
      (ret ≠ 0, { d with ic := some { ic with packets := rest } })

/-- The packets that `Read` has not returned yet. -/
def unread (d : FFDemux) : List AVPacket := (d.ic.map (·.packets)).getD []

/-! ### Classification of packets -/

/-- What `Read` does with a packet of a stream, by its index. -/
inductive Class
  | audio | video | rejected
  deriving DecidableEq

/-- Which of the two fields a stream index matches; `audioStream` is tested first. -/
def classify (d : FFDemux) (i : ℕ) : Class :=
  if i = d.audioStream then .audio else if i = d.videoStream then .video else .rejected

theorem classify_audio {d : FFDemux} {i : ℕ} : d.classify i = .audio ↔ i = d.audioStream := by
  unfold classify
  split
  · simpa
  · split <;> simpa

theorem classify_video {d : FFDemux} {i : ℕ} :
    d.classify i = .video ↔ i ≠ d.audioStream ∧ i = d.videoStream := by
  unfold classify
  split
  · simp_all
  · split <;> simp_all

theorem read_cons {d : FFDemux} {ic : AVFormatContext} {pkt : AVPacket} {rest : List AVPacket}
    (hic : d.ic = some ic) (hp : ic.packets = pkt :: rest) (h : ℕ) :
    d.read h = (match d.classify pkt.stream_index with
        | .audio => packetData ic h pkt true
        | .video => packetData ic h pkt false
        | .rejected => {}, { d with ic := some { ic with packets := rest } }) := by
  unfold read classify
  simp only [hic, hp]
  split
  · rfl
  · split <;> rfl

theorem read_nil {d : FFDemux} (h : ℕ) (hd : d.unread = []) : d.read h = ({}, d) := by
  unfold read
  unfold unread at hd
  rcases hic : d.ic with _ | ic
  · rfl
  · simp only [hic, Option.map_some, Option.getD_some] at hd
    simp only [hd]

/-- What the player relies on while the file `c` is open: `Read` marks the packets of the best audio
and the best video stream, rejects the others, and `Seek` indexes an existing stream. -/
structure Classifies (d : FFDemux) (c : Container) : Prop where
  audio : ∀ (pkt : AVPacket) (rest : List AVPacket) (h : ℕ), pkt.stream_index < c.streams.length →
    let x := ({ d with ic := some ⟨c, pkt :: rest⟩ } : FFDemux).read h |>.1
    (x.data ≠ .null ∧ x.isAudio = true) ↔ (pkt.stream_index : ℤ) = c.best .audio
  video : ∀ (pkt : AVPacket) (rest : List AVPacket) (h : ℕ), pkt.stream_index < c.streams.length →
    let x := ({ d with ic := some ⟨c, pkt :: rest⟩ } : FFDemux).read h |>.1
    (x.data ≠ .null ∧ x.isAudio = false) ↔ (pkt.stream_index : ℤ) = c.best .video
  rejected : ∀ (pkt : AVPacket) (rest : List AVPacket) (h : ℕ), pkt.stream_index < c.streams.length →
    ((({ d with ic := some ⟨c, pkt :: rest⟩ } : FFDemux).read h).1.data = .null ↔
      (pkt.stream_index : ℤ) ≠ c.best .audio ∧ (pkt.stream_index : ℤ) ≠ c.best .video)
  seek : d.videoStream < c.streams.length

/-- `Classifies` in terms of the two stream indices. -/
theorem classifies_iff (d : FFDemux) (c : Container) :
    d.Classifies c ↔ (∀ i, i < c.streams.length → (d.classify i = .audio ↔ (i : ℤ) = c.best .audio)) ∧
      (∀ i, i < c.streams.length → (d.classify i = .video ↔ (i : ℤ) = c.best .video)) ∧
      d.videoStream < c.streams.length := by
  have hx : ∀ (pkt : AVPacket) (rest : List AVPacket) (h : ℕ),
      let x := (({ d with ic := some ⟨c, pkt :: rest⟩ } : FFDemux).read h).1
      ((x.data ≠ .null ∧ x.isAudio = true) ↔ d.classify pkt.stream_index = .audio) ∧
        ((x.data ≠ .null ∧ x.isAudio = false) ↔ d.classify pkt.stream_index = .video) ∧
        (x.data = .null ↔ d.classify pkt.stream_index ≠ .audio ∧ d.classify pkt.stream_index ≠ .video) := by
    intro pkt rest h
    rw [read_cons rfl rfl]
    show _ ∧ _
    have hc : ({ d with ic := some ⟨c, pkt :: rest⟩ } : FFDemux).classify pkt.stream_index =
        d.classify pkt.stream_index := rfl
    rw [hc]
    cases d.classify pkt.stream_index <;> simp [packetData]
  -- a packet of a given stream
  let pk : ℕ → AVPacket := fun i => ⟨i, 0, 0, []⟩
  constructor
  · intro hd
    exact ⟨fun i hi => (hx (pk i) [] 0).1.symm.trans (hd.audio (pk i) [] 0 hi),
      fun i hi => (hx (pk i) [] 0).2.1.symm.trans (hd.video (pk i) [] 0 hi), hd.seek⟩
  · rintro ⟨ha, hv, hs⟩
    exact ⟨fun pkt rest h hi => (hx pkt rest h).1.trans (ha _ hi),
      fun pkt rest h hi => (hx pkt rest h).2.1.trans (hv _ hi),
      fun pkt rest h hi => (hx pkt rest h).2.2.trans (and_congr (not_congr (ha _ hi)) (not_congr (hv _ hi))),
      hs⟩

/-! ### Histories of opens -/

/-- The demuxer after a history of opens, newest first. -/
def openAll (total : ℤ) : List OpenInput → FFDemux
  | [] => { total := total }
  | o :: older => ((openAll total older).open o).2

/-- The index of the best stream of type `t` in the last file of the history that has one and was
opened successfully; `dflt` if there was none. -/
def lastBest (t : AVMediaType) (dflt : ℕ) : List OpenInput → ℕ
  | [] => dflt
  | .opened ic :: older => if ic.file.best t < 0 then lastBest t dflt older else (ic.file.best t).toNat
  | _ :: older => lastBest t dflt older

theorem getVideoPara_streams {d : FFDemux} {ic : AVFormatContext} (h : d.ic = some ic) :
    d.getVideoPara.2.ic = some ic ∧ d.getVideoPara.2.audioStream = d.audioStream ∧
      d.getVideoPara.2.videoStream =
        if ic.file.best .video < 0 then d.videoStream else (ic.file.best .video).toNat := by
  unfold getVideoPara
  simp only [h]
  split <;> simp [h]

theorem getAudioPara_streams {d : FFDemux} {ic : AVFormatContext} (h : d.ic = some ic) :
    d.getAudioPara.2.ic = some ic ∧ d.getAudioPara.2.videoStream = d.videoStream ∧
      d.getAudioPara.2.audioStream =
        if ic.file.best .audio < 0 then d.audioStream else (ic.file.best .audio).toNat := by
  unfold getAudioPara
  simp only [h]
  split
  · simp [h]
  · split <;> simp

theorem open_opened (d : FFDemux) (ic : AVFormatContext) :
    (d.open (.opened ic)).1 = true ∧ (d.open (.opened ic)).2.ic = some ic ∧
      (d.open (.opened ic)).2.videoStream =
        (if ic.file.best .video < 0 then d.videoStream else (ic.file.best .video).toNat) ∧
      (d.open (.opened ic)).2.audioStream =
        if ic.file.best .audio < 0 then d.audioStream else (ic.file.best .audio).toNat := by
  simp only [«open», openInput]
  obtain ⟨h1, h2, h3⟩ : _ ∧ _ ∧ _ := getVideoPara_streams
    (d := { d.close with ic := some ic, total := toInt32 (ic.file.duration.tdiv 1000) })
    (show _ = some ic from rfl)
  obtain ⟨h4, h5, h6⟩ := getAudioPara_streams h1
  exact ⟨trivial, h4, h5.trans h3, h6.trans (by rw [h2]; rfl)⟩

/-- The two stored indices after a history: the last best streams found, or the initial values. -/
theorem openAll_streams (total : ℤ) (hs : List OpenInput) :
    (openAll total hs).videoStream = lastBest .video 0 hs ∧
      (openAll total hs).audioStream = lastBest .audio 1 hs := by
  induction hs with
  | nil => exact ⟨rfl, rfl⟩
  | cons o hs ih =>
    cases o with
    | failed => exact ih
    | noInfo ic => exact ih
    | opened ic =>
      obtain ⟨-, -, hv, ha⟩ := open_opened (openAll total hs) ic
      simp only [openAll, lastBest]
      rw [hv, ha, ih.1, ih.2]
      exact ⟨rfl, rfl⟩

/-- When the classification is right after any history of opens that ends with opening `c`: where `c`
has no video stream, the last video index must be the one of its audio stream, and where it has no
audio stream, the last audio index must lie outside the file. -/
theorem openAll_classifies (total : ℤ) (hs : List OpenInput) (c : Container) (ps : List AVPacket) :
    (openAll total (.opened ⟨c, ps⟩ :: hs)).Classifies c ↔
      (0 ≤ c.best .video ∨ c.best .audio = lastBest .video 0 hs) ∧
        (0 ≤ c.best .audio ∨ c.streams.length ≤ lastBest .audio 1 hs) := by
  obtain ⟨-, -, hv, ha⟩ := open_opened (openAll total hs) ⟨c, ps⟩
  rw [(openAll_streams total hs).1] at hv
  rw [(openAll_streams total hs).2] at ha
  simp only at hv ha
  -- the best audio and the best video stream of a file differ
  have hne : 0 ≤ c.best .video → 0 ≤ c.best .audio → (c.best .video).toNat ≠ (c.best .audio).toNat := by
    intro h1 h2 h
    have e1 := c.best_type .video h1
    have e2 := c.best_type .audio h2
    simp only [h] at e1
    rw [e1] at e2
    cases e2
  have hvl := c.best_lt .video
  have hal := c.best_lt .audio
  rw [classifies_iff]
  simp only [classify_audio, classify_video, openAll, hv, ha]
  generalize lastBest .video 0 hs = v
  generalize lastBest .audio 1 hs = a
  generalize c.streams.length = n at *
  by_cases hv0 : c.best .video < 0
  · by_cases ha0 : c.best .audio < 0
    · -- neither stream: the stale video index cannot be right
      simp only [hv0, ha0, ↓reduceIte]
      refine ⟨fun ⟨h1, h2, h3⟩ => ?_, fun ⟨h1, h2⟩ => by omega⟩
      have h1 := h1 v h3
      have h2 := h2 v h3
      omega
    · -- audio only: stream `v` exists, so it must be the audio stream
      simp only [hv0, ha0, ↓reduceIte]
      refine ⟨fun ⟨h1, h2, h3⟩ => ?_, fun ⟨h1, h2⟩ =>
        ⟨fun i hi => by omega, fun i hi => by omega, by omega⟩⟩
      have h2 := h2 v h3
      omega
  · by_cases ha0 : c.best .audio < 0
    · -- video only: no stream may have the stale audio index
      simp only [hv0, ha0, ↓reduceIte]
      refine ⟨fun ⟨h1, h2, h3⟩ => ⟨by omega, .inr (Nat.le_of_not_lt fun hlt => ?_)⟩, fun ⟨h1, h2⟩ =>
        ⟨fun i hi => by omega, fun i hi => by omega, by omega⟩⟩
      have h1 := h1 a hlt
      omega
    · simp only [hv0, ha0, ↓reduceIte]
      have hne := hne (by omega) (by omega)
      exact ⟨fun _ => ⟨by omega, by omega⟩, fun _ =>
        ⟨fun i hi => by omega, fun i hi => by omega, by omega⟩⟩

/-- A file with a video stream, a subtitle stream and no audio. -/
def silentFile : Container where
  streams := [⟨⟨.video, 27, 0, 0, 0⟩, ⟨1, 1000⟩, 60000⟩, ⟨⟨.subtitle, 94210, 0, 0, 0⟩, ⟨1, 1000⟩, 60000⟩]
  duration := 60000000
  best t := if t = .video then 0 else if t = .subtitle then 1 else -1
  best_lt t h := by cases t <;> simp at h ⊢
  best_type t h := by cases t <;> simp at h ⊢

/-- Its subtitle packets are taken for audio: the initial `audioStream` is `1`. -/
theorem silentFile_not_classified :
    ¬ (openAll 0 [.opened ⟨silentFile, []⟩]).Classifies silentFile := by
  rw [classifies_iff]
  rintro ⟨h, -, -⟩
  exact absurd (h 1 (by decide)) (by decide)

end FFDemux

end XPlayer
