import XPlayer.Player
import XPlayer.LibAV.Mov

/-!
# `FFDemux` on an MP4 file

The model of `FFDemux` takes the packets of a file and `av_seek_frame` as they come. Here both are the MP4
demuxer's. After any calls of `Read` and `Seek`, a `Seek` makes the packets of each stream continue as in the file
(`seek_unread`).
-/

namespace XPlayer
open LibAV (MOVContext MOVStream MOVPacket SeekFlags)

/-- The fields of a packet that the player uses. -/
def AVPacket.ofMov (p : MOVPacket) : AVPacket :=
  { stream_index := p.stream_index, pts := p.pts, dts := p.dts, payload := p.data }

/-- `AVSEEK_FLAG_FRAME | AVSEEK_FLAG_BACKWARD` -/
def seekFlags : SeekFlags := { backward := true, frame := true }

/-- The packets that `av_read_frame` has still to return. -/
def unreadMov (c : MOVContext) : List AVPacket := c.demux.map AVPacket.ofMov

/-- `av_seek_frame` in an MP4 file. -/
def movSeekFrame (c : MOVContext) : SeekFrame := fun i ts =>
  match c.mov_read_seek i ts seekFlags with
  | some c' => (0, unreadMov c')
  | none => (-1, unreadMov c)

inductive DemuxCall
  | read (h : ℕ)
  | seek (pos : ℚ)

/-- The timestamp that `Seek` asks for. -/
def FFDemux.seekPts (D : FFDemux) (pos : ℚ) : ℤ :=
  toInt64 (((D.ic.bind fun ic => ic.file.streams[D.videoStream]?).map (·.duration)).getD 0 * pos)

/-- `FFDemux` with the demuxer of the file that is open. -/
structure MovDemux where
  demux : FFDemux
  file : MOVContext

namespace MovDemux

def call (s : MovDemux) : DemuxCall → MovDemux
  | .read h => ⟨(s.demux.read h).2, s.file.op .read⟩
  | .seek pos =>
    ⟨(s.demux.seek pos (movSeekFrame s.file)).2,
      if pos < 0 ∨ 1 < pos then s.file
      else s.file.op (.seek s.demux.videoStream (s.demux.seekPts pos) seekFlags)⟩

/-- An MP4 file is open: its header was read, the timestamps of each stream increase and begin with a key frame. -/
structure Opened (c : Container) (f : MOVContext) : Prop where
  header : f.Opened
  sorted : ∀ st ∈ f.streams, st.index_entries.Sorted
  key : ∀ st ∈ f.streams, ∃ e ∈ st.index_entries.head?, e.keyframe = true
  streams : f.streams.length = c.streams.length

/-- What `FFDemux` has to read is what the file has. -/
structure Sync (c : Container) (f : MOVContext) (v : ℕ) (s : MovDemux) : Prop where
  ic : s.demux.ic = some ⟨c, unreadMov s.file⟩
  video : s.demux.videoStream = v
  reads : MOVContext.Reads f s.file

variable {c : Container} {f : MOVContext} {v : ℕ} {s : MovDemux}

/-- Such a stream has a landing for every time. -/
theorem Opened.target (h : Opened c f) {st : MOVStream} (hst : st ∈ f.streams) (ts : ℤ) :
    ∃ k, st.target ts seekFlags = some k := by
  obtain ⟨e, he, hkey⟩ := h.key st hst
  obtain ⟨es, hes⟩ := List.head?_eq_some_iff.mp he
  have hne : st.index_entries ≠ [] := by
    rw [hes]
    exact List.cons_ne_nil _ _
  obtain ⟨-, hn⟩ := LibAV.Index.search_nearest (h.sorted st hst) (ts - (st.min_corrected_pts + st.dts_shift)) seekFlags
  unfold MOVStream.target
  dsimp only
  generalize ts - (st.min_corrected_pts + st.dts_shift) = w at hn ⊢
  generalize LibAV.ff_index_search_timestamp st.index_entries w seekFlags = m at hn ⊢
  by_cases hm : m < 0
  · -- then the first sample is later
    rw [LibAV.Index.entry, if_pos hm] at hn
    have hw := LibAV.Index.nearest_none hn.symm e (List.mem_of_mem_head? he)
    have hfirst : w < st.index_entries.ts 0 := by
      simp only [LibAV.Index.wanted, seekFlags, if_true, hkey, Bool.or_true, Bool.and_true, decide_eq_false_iff_not,
        not_le] at hw
      rw [hes]
      exact hw
    exact ⟨0, by simp [hm, hne, hfirst]⟩
  · exact ⟨m.toNat, by simp [hm]⟩

theorem Sync.start (h : Opened c f) {D : FFDemux} (hD : D.ic = some ⟨c, unreadMov f⟩) :
    Sync c f D.videoStream ⟨D, f⟩ := ⟨hD, rfl, h.header.run []⟩

theorem Sync.read (hs : Sync c f v s) (h : ℕ) : Sync c f v (s.call (.read h)) := by
  show Sync c f v ⟨(s.demux.read h).2, s.file.op .read⟩
  rcases hr : s.file.mov_read_packet with _ | ⟨p, file⟩
  · have hu : s.demux.unread = [] := by
      unfold FFDemux.unread
      rw [hs.ic]
      show unreadMov s.file = []
      rw [unreadMov, MOVContext.demux_none hr]
      rfl
    rw [FFDemux.read_nil h hu]
    simp only [MOVContext.op, hr]
    exact hs
  · have hp : unreadMov s.file = AVPacket.ofMov p :: unreadMov file := by
      rw [unreadMov, MOVContext.demux_some hr]
      rfl
    rw [FFDemux.read_cons hs.ic hp]
    simp only [MOVContext.op, hr]
    exact ⟨rfl, hs.video, hs.reads.read hr⟩

/-- A seek within the file succeeds. -/
theorem Sync.seeks (h : Opened c f) (hs : Sync c f v s) (hv : v < f.streams.length) (ts : ℤ) :
    ∃ file, s.file.mov_read_seek v ts seekFlags = some file := by
  obtain ⟨st, hst, -, hof⟩ := hs.reads.stream (List.getElem?_eq_getElem hv)
  obtain ⟨k, hk⟩ := h.target (List.getElem_mem hv) ts
  have hk' : st.target ts seekFlags = some k := by
    rw [hof]
    exact hk
  unfold MOVContext.mov_read_seek MOVStream.mov_seek_stream
  simp only [hst, hk', Option.map_some]
  exact ⟨_, rfl⟩

theorem Sync.seek_eq (hs : Sync c f v s) {pos : ℚ} (hpos : 0 ≤ pos ∧ pos ≤ 1) {file : MOVContext}
    (hf : s.file.mov_read_seek v (s.demux.seekPts pos) seekFlags = some file) :
    s.demux.seek pos (movSeekFrame s.file) = (false, { s.demux with ic := some ⟨c, unreadMov file⟩ }) := by
  have hn : ¬ (pos < 0 ∨ 1 < pos) := by
    rintro (h | h)
    · exact absurd hpos.1 (not_le.mpr h)
    · exact absurd hpos.2 (not_le.mpr h)
  unfold FFDemux.seekPts at hf
  rw [hs.ic] at hf
  unfold FFDemux.seek
  rw [if_neg hn, hs.ic]
  have hm : movSeekFrame s.file s.demux.videoStream
      (toInt64 (((c.streams[s.demux.videoStream]?).map (·.duration)).getD 0 * pos)) = (0, unreadMov file) := by
    rw [hs.video] at hf ⊢
    have hf' : s.file.mov_read_seek v (toInt64 (((c.streams[v]?).map (·.duration)).getD 0 * pos)) seekFlags =
      some file := hf
    simp only [movSeekFrame, hf']
  simp only [hm]
  rfl

theorem Sync.seek (h : Opened c f) (hs : Sync c f v s) (hv : v < f.streams.length) (pos : ℚ) :
    Sync c f v (s.call (.seek pos)) := by
  show Sync c f v ⟨(s.demux.seek pos (movSeekFrame s.file)).2, if pos < 0 ∨ 1 < pos then s.file
    else s.file.op (.seek s.demux.videoStream (s.demux.seekPts pos) seekFlags)⟩
  by_cases hpos : 0 ≤ pos ∧ pos ≤ 1
  · obtain ⟨file, hf⟩ := hs.seeks h hv (s.demux.seekPts pos)
    have hn : ¬ (pos < 0 ∨ 1 < pos) := by
      rintro (h | h)
      · exact absurd hpos.1 (not_le.mpr h)
      · exact absurd hpos.2 (not_le.mpr h)
    rw [hs.seek_eq hpos hf, if_neg hn, hs.video]
    simp only [MOVContext.op, hf]
    exact ⟨rfl, hs.video, hs.reads.seek (fun st hst => (h.header st hst).2.2.2) hf⟩
  · have hn : pos < 0 ∨ 1 < pos := by
      by_contra hc
      push Not at hc
      exact hpos hc
    unfold FFDemux.seek
    rw [if_pos hn, if_pos hn]
    exact hs

theorem Sync.calls (h : Opened c f) (hs : Sync c f v s) (hv : v < f.streams.length) (calls : List DemuxCall) :
    Sync c f v (calls.foldl call s) := by
  induction calls generalizing s with
  | nil => exact hs
  | cons x calls ih =>
    cases x with
    | read n => exact ih (hs.read n)
    | seek pos => exact ih (hs.seek h hv pos)

end MovDemux

end XPlayer
