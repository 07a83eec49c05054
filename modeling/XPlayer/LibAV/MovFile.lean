import XPlayer.LibAV.GetPacket
import XPlayer.LibAV.Mov

/-!
# The MP4 demuxer on a buffered file

`mov_read_packet` with its calls of `avio_seek` and `av_get_packet`: the streams of a `MOVFile` are those of a
`MOVContext`, and the bytes come through the buffer `pb`. If all samples are in the file and the protocol has no errors,
it is the demuxer of `XPlayer.LibAV.Mov` with the bytes of the file (`mov_file_demux`), whatever else is done with `pb`.

A read that fails may be tried again (`should_retry`); then the sample is the next one still.
-/

namespace LibAV
open XPlayer

structure MOVFile (σ : Type) where
  streams : List MOVStream
  pb : AVIOContext σ

/-- A call of the demuxer, or another operation on `pb`. -/
inductive MOVFileOp
  | read
  | seek (i : ℕ) (timestamp : ℤ) (flags : SeekFlags)
  | io (o : AVIOContext.IOOp)

/-- The bytes of samples in `file`. -/
def sampleBytes (file : List UInt8) (pos size : ℤ) : List UInt8 := AVIOContext.bytesAt file pos.toNat size.toNat

namespace MOVFile
variable {σ : Type} (P : IOCallbacks σ)

/-- The demuxer with the bytes of samples from elsewhere. -/
def context (bytes : ℤ → ℤ → List UInt8) (m : MOVFile σ) : MOVContext := ⟨m.streams, bytes, m.pb.seekable⟩

def should_retry {α : Type} (pb : AVIOContext σ) (r : Except AVERROR α) : Bool × AVIOContext σ :=
  if r matches .error .EOF then (false, pb)
  else
    let f := pb.avio_feof P
    (!f.1, f.2)

/-- The sample of the stream `i` could not be read: `current_sample` is moved back if it is tried again. -/
def unread {α : Type} (m : MOVFile σ) (i : ℕ) (st : MOVStream) (pb : AVIOContext σ) (r : Except AVERROR α) : MOVFile σ :=
  let retry := should_retry P pb r
  { streams := if retry.1 then m.streams else m.streams.set i { st with current_sample := st.current_sample + 1 }
    pb := retry.2 }

def mov_read_packet (m : MOVFile σ) : Except AVERROR (MOVPacket × Bool) × MOVFile σ :=
  match (m.context fun _ _ => []).mov_find_next_sample with
  | none => (.error .EOF, m)
  | some (i, e, _) =>
    match m.streams[i]? with
    | none => (.error .BUG, m)
    | some st =>
      match m.pb.avio_seek P e.pos .SEEK_SET with
      | (r, pb) =>
        if r.toOption ≠ some e.pos then (.error .INVALIDDATA, m.unread P i st pb r)
        else
          match pb.av_get_packet P e.size.toNat with
          | (.error err, pb) => (.error err, m.unread P i st pb (.error err : Except AVERROR Unit))
          | (.ok raw, pb) =>
            let r := st.read (fun _ _ => raw.data) i e
            (.ok (r.1, raw.corrupt), { streams := m.streams.set i r.2, pb := pb })

def mov_read_seek (m : MOVFile σ) (i : ℕ) (timestamp : ℤ) (flags : SeekFlags) : MOVFile σ :=
  match (m.context fun _ _ => []).mov_read_seek i timestamp flags with
  | none => m
  | some c => { m with streams := c.streams }

/-- The packets of the calls of `mov_read_packet` in a run. -/
def run : MOVFile σ → List MOVFileOp → List (Except AVERROR (MOVPacket × Bool))
  | _, [] => []
  | m, .read :: os => (m.mov_read_packet P).1 :: run (m.mov_read_packet P).2 os
  | m, .seek i timestamp flags :: os => run (m.mov_read_seek i timestamp flags) os
  | m, .io o :: os => run { m with pb := (m.pb.op P o).2 } os

end MOVFile

namespace MOVContext

/-- The same calls where packets are read from memory. -/
def fileRun : MOVContext → List MOVFileOp → List (Except AVERROR (MOVPacket × Bool))
  | _, [] => []
  | c, .read :: os =>
    match c.mov_read_packet with
    | none => .error .EOF :: fileRun c os
    | some (p, c) => .ok (p, false) :: fileRun c os
  | c, .seek i timestamp flags :: os => fileRun ((c.mov_read_seek i timestamp flags).getD c) os
  | c, .io _ :: os => fileRun c os

end MOVContext

namespace MOVFile
variable {σ : Type} {P : IOCallbacks σ} {file : List UInt8} {loc : σ → ℕ} {m : MOVFile σ}

/-- The samples are in the file, and nothing is wrong with `pb`. -/
structure Inside (file : List UInt8) (loc : σ → ℕ) (m : MOVFile σ) : Prop where
  samples : ∀ st ∈ m.streams, ∀ e ∈ st.index_entries, 0 ≤ e.pos ∧ 0 ≤ e.size ∧ e.pos + e.size ≤ file.length
  pb : ∃ p, AVIOContext.IntactAt file loc m.pb.seekable p m.pb

/-- The samples of a stream do not change. -/
theorem Inside.setStream (h : Inside file loc m) {i : ℕ} {st : MOVStream} (hi : m.streams[i]? = some st)
    {st' : MOVStream}
    (he : st'.index_entries = st.index_entries) {pb : AVIOContext σ} {p : Option ℕ}
    (hpb : AVIOContext.IntactAt file loc pb.seekable p pb) : Inside file loc ⟨m.streams.set i st', pb⟩ := by
  refine ⟨fun t ht => ?_, p, hpb⟩
  rcases List.mem_or_eq_of_mem_set ht with ht | rfl
  · exact h.samples t ht
  · rw [he]
    exact h.samples st (List.mem_of_getElem? hi)

/-- After a seek to it, a sample is read. -/
theorem get_sample (hP : AVIOContext.Serves P file loc) (hR : AVIOContext.Reliable P) {b : Bool} {p : Option ℕ}
    {s : AVIOContext σ} (h : AVIOContext.IntactAt file loc b p s) {pos size : ℤ} (hpos : 0 ≤ pos) (hsize : 0 ≤ size)
    (hin : pos + size ≤ file.length) : ∃ s' s'' q, s.avio_seek P pos .SEEK_SET = (.ok pos, s') ∧
      s'.av_get_packet P size.toNat = (.ok ⟨sampleBytes file pos size, pos, false⟩, s'') ∧
      AVIOContext.IntactAt file loc b (some q) s'' := by
  lift pos to ℕ using hpos
  lift size to ℕ using hsize
  have hexact := AVIOContext.seekTo_exact hP hR (show pos ≤ file.length by omega) h.coherent h.intact
  have hseek := AVIOContext.seekTo_spec hP h.coherent pos
  have hi := h.intact.seekSet hR (pos : ℤ)
  have hset : s.avio_seek P pos .SEEK_SET = (.ok (pos : ℤ), (s.seekTo P pos).2) := by
    rw [AVIOContext.avio_seek, AVIOContext.seekSet, if_neg (by omega), Int.toNat_natCast]
    dsimp only
    rw [hexact]
    rfl
  obtain ⟨-, hp, he⟩ := hseek.arrives pos hexact
  rw [← AVIOContext.avio_seek, hset] at hi
  have hat : AVIOContext.IntactAt file loc b (some pos) (s.seekTo P pos).2 :=
    ⟨.place hseek.coherent hp fun h => absurd (he.symm.trans h) Bool.false_ne_true, hi⟩
  obtain ⟨hget, hat'⟩ := AVIOContext.get_packet_exact hP hR hat (show pos + size ≤ file.length by omega) he
  exact ⟨_, _, _, hset, Prod.ext hget rfl, hat'⟩

/-- A packet is read as from memory. -/
theorem read_eq (hP : AVIOContext.Serves P file loc) (hR : AVIOContext.Reliable P) (h : Inside file loc m) :
    ((m.context (sampleBytes file)).mov_read_packet = none ∧ m.mov_read_packet P = (.error .EOF, m)) ∨
    ∃ p m', (m.context (sampleBytes file)).mov_read_packet = some (p, m'.context (sampleBytes file)) ∧
      m.mov_read_packet P = (.ok (p, false), m') ∧ Inside file loc m' := by
  have hnext : (m.context fun _ _ => []).mov_find_next_sample =
      (m.context (sampleBytes file)).mov_find_next_sample := rfl
  rcases hn : (m.context (sampleBytes file)).mov_find_next_sample with _ | ⟨i, e, dts⟩
  · refine .inl ⟨?_, ?_⟩
    · rw [MOVContext.mov_read_packet, hn]
    · rw [mov_read_packet, hnext, hn]
  · obtain ⟨st, hi, hs, -⟩ := MOVContext.next_some hn
    have hi' : m.streams[i]? = some st := hi
    obtain ⟨hpos, hsize, hin⟩ := h.samples st (List.mem_of_getElem? hi') e (List.mem_of_getElem? hs)
    obtain ⟨p, hp⟩ := h.pb
    obtain ⟨s', s'', q, hseek, hget, hat⟩ := get_sample hP hR hp hpos hsize hin
    have hk : s''.seekable = m.pb.seekable := hat.intact.2
    refine .inr
      ⟨(st.read (sampleBytes file) i e).1, ⟨m.streams.set i (st.read (sampleBytes file) i e).2, s''⟩, ?_, ?_, ?_⟩
    · rw [MOVContext.mov_read_packet, hn]
      simp only [hi]
      rw [context, context, hk]
    · simp only [mov_read_packet, hnext, hn, hi', hseek, hget]
      rw [if_neg (by simp [Except.toOption])]
      rfl
    · have hentries : (st.read (sampleBytes file) i e).2.index_entries = st.index_entries := rfl
      exact h.setStream hi' hentries (hk.symm ▸ hat)

/-- A seek does not look at the bytes. -/
theorem seek_context (b b' : ℤ → ℤ → List UInt8) (i : ℕ) (timestamp : ℤ) (flags : SeekFlags) :
    (m.context b).mov_read_seek i timestamp flags =
      ((m.context b').mov_read_seek i timestamp flags).map fun c => { c with bytes := b } := by
  have hst : (m.context b).streams = (m.context b').streams := rfl
  unfold MOVContext.mov_read_seek
  rw [hst]
  cases (m.context b').streams[i]? with
  | none => rfl
  | some st =>
    dsimp only
    cases st.mov_seek_stream timestamp flags with
    | none => rfl
    | some r => rfl

theorem seek_eq (h : Inside file loc m) (i : ℕ) (timestamp : ℤ) (flags : SeekFlags) :
    Inside file loc (m.mov_read_seek i timestamp flags) ∧
    ((m.context (sampleBytes file)).mov_read_seek i timestamp flags).getD (m.context (sampleBytes file)) =
      (m.mov_read_seek i timestamp flags).context (sampleBytes file) := by
  have hctx := seek_context (m := m) (sampleBytes file) (fun _ _ => []) i timestamp flags
  rcases hs : (m.context fun _ _ => []).mov_read_seek i timestamp flags with _ | c <;>
    rw [hs] at hctx <;> simp only [mov_read_seek, hs, hctx]
  · exact ⟨h, rfl⟩
  · obtain ⟨main, k, -, -, -, hlen, hst⟩ := MOVContext.seek_stream hs
    have hk : c.seekable = m.pb.seekable := by
      unfold MOVContext.mov_read_seek at hs
      split at hs
      · cases hs
      · split at hs <;> cases hs
        rfl
    obtain ⟨p, hp⟩ := h.pb
    refine ⟨⟨fun t ht => ?_, p, hp⟩, ?_⟩
    · -- a stream with the samples of an earlier one
      obtain ⟨j, hj⟩ := List.getElem?_of_mem ht
      have hlt : j < m.streams.length := hlen ▸ (List.getElem?_eq_some_iff.mp hj).1
      obtain ⟨t', ht', heq⟩ := hst j m.streams[j] (List.getElem?_eq_getElem hlt)
      obtain rfl := Option.some.inj (hj.symm.trans ht')
      have hidx : t.index_entries = m.streams[j].index_entries := by
        rw [heq]
        dsimp only
        cases MOVContext.landing i main k flags j m.streams[j] with
        | none => rfl
        | some k => rfl
      rw [hidx]
      exact h.samples _ (List.getElem_mem hlt)
    · rw [Option.map_some, Option.getD_some, hk]
      rfl

theorem run_eq (hP : AVIOContext.Serves P file loc) (hR : AVIOContext.Reliable P) (h : Inside file loc m)
    (os : List MOVFileOp) : m.run P os = (m.context (sampleBytes file)).fileRun os := by
  induction os generalizing m with
  | nil => rfl
  | cons o os ih =>
    cases o with
    | read =>
      rcases read_eq hP hR h with ⟨h1, h2⟩ | ⟨p, m', h1, h2, h'⟩ <;>
        simp only [run, MOVContext.fileRun, h1, h2]
      · rw [ih h]
      · rw [ih h']
    | seek i timestamp flags =>
      obtain ⟨h', heq⟩ := seek_eq h i timestamp flags
      rw [run, MOVContext.fileRun, heq, ih h']
    | io o =>
      obtain ⟨p, hp⟩ := h.pb
      obtain ⟨p', hp'⟩ := hp.ops hP hR [o]
      have hk : (m.pb.op P o).2.seekable = m.pb.seekable := hp'.intact.2
      have h' : Inside file loc { m with pb := (m.pb.op P o).2 } := ⟨h.samples, p', hk ▸ hp'⟩
      rw [run, MOVContext.fileRun, ih h', context, context]
      dsimp only
      rw [hk]

end MOVFile

/-- The packets that come through the buffer are those of the file, in every run of reads and seeks and of other
operations on the buffer. -/
theorem mov_file_demux {σ : Type} {P : IOCallbacks σ} {file : List UInt8} {loc : σ → ℕ} {m : MOVFile σ}
    (hP : AVIOContext.Serves P file loc) (hR : AVIOContext.Reliable P) (hpb : AVIOContext.Opened loc m.pb)
    (hm : ∀ st ∈ m.streams, ∀ e ∈ st.index_entries, 0 ≤ e.pos ∧ 0 ≤ e.size ∧ e.pos + e.size ≤ file.length)
    (os : List MOVFileOp) : m.run P os = (m.context (sampleBytes file)).fileRun os :=
  MOVFile.run_eq hP hR ⟨hm, some 0, hpb.start, hpb.error, rfl⟩ os

theorem FileContext.reliable (c : FileContext) : AVIOContext.Reliable c.callbacks where
  read u n e u' h := by
    simp only [callbacks, file_read] at h
    split_ifs at h
    · exact (Except.error.inj (Prod.mk.inj h).1).symm
    · cases h
  seek := ⟨_, rfl, fun _ p => ⟨p, p, rfl⟩⟩

/-- The streams of `movFile` in a file of 14 bytes, with a buffer of three. -/
theorem mov_file_demux_movFile :
    let file : List UInt8 := (List.range 14).map UInt8.ofNat
    let m : MOVFile ℕ := ⟨movFile.streams, { url := 0, buffer_size := 3 }⟩
    let os : List MOVFileOp :=
      [.read, .read, .io (.seek 1 .SEEK_SET), .seek 0 100 { backward := true }, .io .r8, .read, .read]
    m.run (FileContext.callbacks ⟨file, 1000⟩) os = (m.context (sampleBytes file)).fileRun os := by
  refine mov_file_demux (FileContext.serves ⟨_, 1000⟩ (by decide)) (FileContext.reliable _)
    ⟨rfl, rfl, rfl, rfl, rfl, by decide, rfl⟩ ?_ _
  decide

end LibAV
