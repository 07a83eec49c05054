import XPlayer.LibAV.Index
import XPlayer.LibAV.Mathematics
import XPlayer.Lib.Runs

/-!
# The MP4 demuxer

Once the header of an MP4 file is parsed, a stream is an index of its samples, a table of composition offsets
(`ctts`) in runs, and two cursors into them. `mov_read_packet` takes the next sample of one of the streams,
`mov_read_seek` moves the cursors of all of them.

Both cursors are moved in both ways, one sample at a time and by a search in the table. They agree as long as the
table covers the samples (`Ready`), so what follows a seek is what a straight read gives from there on
(`mov_seek_exact`).
-/

namespace LibAV
open XPlayer

/-- `AV_TIME_BASE`, and the time base of a media file. -/
def AV_TIME_BASE : ℤ := 1000000

/-- An `AVStream` of an MP4 file with its `MOVStreamContext`; `ctts` is `ctts_index` and `ctts_sample`. -/
structure MOVStream where
  index_entries : Index
  ctts_data : Runs ℤ := []
  dts_shift : ℤ := 0
  min_corrected_pts : ℤ := 0
  time_scale : ℤ
  duration : ℤ
  start_pad : ℤ := 0
  current_sample : ℕ := 0
  ctts : Runs.Cursor := {}
  skip_samples : ℤ := 0

/-- The streams, the bytes of the file by position and number, and whether it is seekable. -/
structure MOVContext where
  streams : List MOVStream
  bytes : ℤ → ℤ → List UInt8
  seekable : Bool := true

/-- A packet as `mov_read_packet` returns it. -/
structure MOVPacket where
  stream_index : ℕ
  dts : ℤ
  pts : ℤ
  duration : ℤ
  pos : ℤ
  key : Bool
  discard : Bool
  data : List UInt8
  deriving DecidableEq

namespace MOVStream

def sample (st : MOVStream) : Option AVIndexEntry := st.index_entries[st.current_sample]?

/-- The duration of a sample with the timestamp `dts`, if the next one is `k`. -/
def packetDuration (st : MOVStream) (dts : ℤ) (k : ℕ) : ℤ :=
  let next_dts := ((st.index_entries[k]?).map (·.timestamp)).getD st.duration
  if dts ≤ next_dts then next_dts - dts else 0

/-- The packet for the sample `e` with the number `k`; `offset` is what `ctts_data` has for it. -/
def packet (st : MOVStream) (bytes : ℤ → ℤ → List UInt8) (i k : ℕ) (offset : Option ℤ) (e : AVIndexEntry) :
    MOVPacket :=
  { stream_index := i, dts := e.timestamp, pos := e.pos, key := e.keyframe, discard := e.discard,
    data := bytes e.pos e.size
    pts := match offset with
      | some d => e.timestamp + st.dts_shift + d
      | none => e.timestamp
    duration := match offset with
      | some _ => 0
      | none => st.packetDuration e.timestamp (k + 1) }

/-- The current sample `e` is read. -/
def read (st : MOVStream) (bytes : ℤ → ℤ → List UInt8) (i : ℕ) (e : AVIndexEntry) : MOVPacket × MOVStream :=
  (st.packet bytes i st.current_sample (st.ctts_data.value st.ctts) e,
    { st with current_sample := st.current_sample + 1, ctts := st.ctts_data.step st.ctts })

/-- The loop that adjusts the `ctts` cursor: the run that ends after `current_sample`, from the run `i` on. -/
def findRun (current_sample : ℕ) : Runs ℤ → (i time_sample : ℕ) → Option Runs.Cursor
  | [], _, _ => none
  | r :: rs, i, time_sample =>
    if current_sample < time_sample + r.1 then some ⟨i, current_sample - time_sample⟩
    else findRun current_sample rs (i + 1) (time_sample + r.1)

/-- The sample that `mov_seek_stream` looks up. -/
def target (st : MOVStream) (timestamp : ℤ) (flags : SeekFlags) : Option ℕ :=
  let timestamp := timestamp - (st.min_corrected_pts + st.dts_shift)
  let sample := ff_index_search_timestamp st.index_entries timestamp flags
  let sample := if sample < 0 ∧ st.index_entries ≠ [] ∧ timestamp < st.index_entries.ts 0 then 0 else sample
  if sample < 0 then none else some sample.toNat

def setSample (st : MOVStream) (k : ℕ) : MOVStream :=
  { st with current_sample := k, ctts := (findRun k st.ctts_data 0 0).getD st.ctts }

def mov_seek_stream (st : MOVStream) (timestamp : ℤ) (flags : SeekFlags) : Option (ℕ × MOVStream) :=
  (st.target timestamp flags).map fun k => (k, st.setSample k)

/-- The time base that `avpriv_set_pts_info` sets. -/
def time_base (st : MOVStream) : AVRational := ⟨1, st.time_scale⟩

end MOVStream

namespace MOVContext

/-- The sample `e` with the timestamp `dts` comes before the best one so far. -/
def better (seekable : Bool) (best e : AVIndexEntry) (best_dts dts : ℤ) : Bool :=
  if seekable then
    if |best_dts - dts| ≤ AV_TIME_BASE then decide (e.pos < best.pos) else decide (dts < best_dts)
  else decide (e.pos < best.pos)

/-- A turn of `mov_find_next_sample`: the stream `st` with the index `i`. -/
def consider (seekable : Bool) (best : Option (ℕ × AVIndexEntry × ℤ)) (st : MOVStream × ℕ) :
    Option (ℕ × AVIndexEntry × ℤ) :=
  match st.1.sample with
  | none => best
  | some e =>
    let dts := av_rescale e.timestamp AV_TIME_BASE st.1.time_scale
    match best with
    | none => some (st.2, e, dts)
    | some (_, b, best_dts) => if better seekable b e best_dts dts then some (st.2, e, dts) else best

/-- The stream, the sample and its timestamp in microseconds. -/
def mov_find_next_sample (c : MOVContext) : Option (ℕ × AVIndexEntry × ℤ) :=
  c.streams.zipIdx.foldl (consider c.seekable) none

def mov_read_packet (c : MOVContext) : Option (MOVPacket × MOVContext) :=
  match c.mov_find_next_sample with
  | none => none
  | some (i, e, _) =>
    match c.streams[i]? with
    | none => none
    | some st => some ((st.read c.bytes i e).1, { c with streams := c.streams.set i (st.read c.bytes i e).2 })

/-- What `mov_read_seek` does to the stream `j` once the sample of the stream `i` is found; `main` is that stream
and `seek_timestamp` the time of the sample. -/
def reseek (i : ℕ) (main : MOVStream) (seek_timestamp sample_time : ℤ) (flags : SeekFlags) (j : ℕ) (st : MOVStream) :
    MOVStream :=
  let st := { st with skip_samples := if sample_time ≤ 0 then st.start_pad else 0 }
  if j = i then st
  else
    let timestamp := av_rescale_q seek_timestamp main.time_base st.time_base
    ((st.mov_seek_stream timestamp flags).map Prod.snd).getD st

/-- With `seek_individually`, as is the default. -/
def mov_read_seek (c : MOVContext) (i : ℕ) (sample_time : ℤ) (flags : SeekFlags) : Option MOVContext :=
  match c.streams[i]? with
  | none => none
  | some st =>
    match st.mov_seek_stream sample_time flags with
    | none => none
    | some (sample, st') =>
      let seek_timestamp := st'.index_entries.ts sample
      some { c with streams := (c.streams.set i st').mapIdx (reseek i st' seek_timestamp sample_time flags) }

/-- The number of samples that are still to be read. -/
def remaining (c : MOVContext) : ℕ := (c.streams.map fun st => st.index_entries.length - st.current_sample).sum

end MOVContext

/-! ### The two cursors of a stream -/

namespace MOVStream
variable {st : MOVStream}

/-- The `ctts` cursor is where the samples up to the current one leave it. -/
structure Ready (st : MOVStream) : Prop where
  positive : st.ctts_data.Positive
  located : st.ctts_data.Located st.ctts st.current_sample

/-- Each sample has a composition offset, or none has. -/
def Covered (st : MOVStream) : Prop := st.ctts_data = [] ∨ st.index_entries.length ≤ st.ctts_data.total

/-- All packets of the stream, as a straight read returns them. -/
def packets (st : MOVStream) (bytes : ℤ → ℤ → List UInt8) (i : ℕ) : List MOVPacket :=
  st.index_entries.zipIdx.map fun e => st.packet bytes i e.2 (st.ctts_data.at e.2) e.1

theorem findRun_eq (rs : Runs ℤ) {k t : ℕ} (i : ℕ) (ht : t ≤ k) :
    findRun k rs i t = (rs.find (k - t)).map fun c => ⟨i + c.index, c.sample⟩ := by
  induction rs generalizing i t with
  | nil => rfl
  | cons r rs ih =>
    obtain ⟨n, a⟩ := r
    simp only [findRun, Runs.find]
    by_cases h : k < t + n
    · rw [if_pos h, if_pos (by omega)]
      rfl
    · rw [if_neg h, if_neg (by omega), ih (i + 1) (by omega), Option.map_map, Nat.sub_sub]
      refine congrArg (Option.map · _) (funext fun c => ?_)
      simp only [Function.comp, Nat.add_assoc, Nat.add_comm 1]

theorem findRun_find (rs : Runs ℤ) (k : ℕ) : findRun k rs 0 0 = rs.find k := by
  rw [findRun_eq rs 0 (Nat.zero_le k), Nat.sub_zero]
  simp

/-- A seek leaves the cursors in agreement if and only if the table reaches the sample, or its end was reached
before. -/
theorem setSample_ready (h : st.Ready) (k : ℕ) :
    (st.setSample k).Ready ↔ k < st.ctts_data.total ∨ st.ctts_data.length ≤ st.ctts.index := by
  unfold setSample
  rw [findRun_find]
  rcases hf : st.ctts_data.find k with _ | c
  · have hk := Runs.find_none.mp hf
    constructor
    · intro hr
      exact .inr ((Runs.located_beyond hk).mp hr.located)
    · intro hc
      exact ⟨h.positive, (Runs.located_beyond hk).mpr (hc.resolve_left (by omega))⟩
  · have hk : k < st.ctts_data.total := by
      by_contra hge
      rw [Runs.find_none.mpr (not_lt.mp hge)] at hf
      cases hf
    exact ⟨fun _ => .inl hk, fun _ => ⟨h.positive, Runs.find_located hf⟩⟩

theorem Ready.setSample (h : st.Ready) (hc : st.Covered) {k : ℕ} (hk : k < st.index_entries.length) :
    (st.setSample k).Ready := by
  rw [setSample_ready h]
  rcases hc with hn | hc
  · rw [hn]
    exact .inr (Nat.zero_le _)
  · exact .inl (by omega)

theorem target_lt {timestamp : ℤ} {flags : SeekFlags} {k : ℕ} (h : st.target timestamp flags = some k) :
    k < st.index_entries.length := by
  obtain ⟨h0, hlt⟩ := Index.search_range st.index_entries (timestamp - (st.min_corrected_pts + st.dts_shift)) flags
  unfold target at h
  dsimp only at h
  split_ifs at h with hfirst hneg hneg
  · cases h
    exact List.length_pos_iff.mpr hfirst.2.1
  · cases h
    have := hlt (not_lt.mp hneg)
    omega

end MOVStream

/-! ### Reading to the end -/

namespace MOVContext
variable {c c' : MOVContext}

/-- What the search for the next sample has found after the streams `l`. -/
theorem consider_foldl (seekable : Bool) (l : List (MOVStream × ℕ)) (best : Option (ℕ × AVIndexEntry × ℤ)) :
    match l.foldl (consider seekable) best with
    | none => best = none ∧ ∀ st ∈ l, st.1.sample = none
    | some (i, e, dts) => best = some (i, e, dts) ∨ ∃ st, (st, i) ∈ l ∧ st.sample = some e ∧
        dts = av_rescale e.timestamp AV_TIME_BASE st.time_scale := by
  induction l generalizing best with
  | nil =>
    rcases best with _ | ⟨i, e, dts⟩
    · exact ⟨rfl, fun st h => absurd h List.not_mem_nil⟩
    · exact .inl rfl
  | cons st l ih =>
    have hc : consider seekable best st = best ∨ ∃ e, st.1.sample = some e ∧
        consider seekable best st = some (st.2, e, av_rescale e.timestamp AV_TIME_BASE st.1.time_scale) := by
      unfold consider
      rcases hs : st.1.sample with _ | e
      · exact .inl rfl
      · rcases best with _ | ⟨i, b, bd⟩
        · exact .inr ⟨e, rfl, rfl⟩
        · dsimp only
          split_ifs
          · exact .inr ⟨e, rfl, rfl⟩
          · exact .inl rfl
    have hnone : consider seekable best st = none → best = none ∧ st.1.sample = none := by
      intro h
      unfold consider at h
      rcases hs : st.1.sample with _ | e <;> rw [hs] at h
      · exact ⟨h, rfl⟩
      · rcases best with _ | ⟨i, b, bd⟩
        · cases h
        · dsimp only at h
          split_ifs at h
    have h := ih (consider seekable best st)
    rw [List.foldl_cons]
    generalize l.foldl (consider seekable) (consider seekable best st) = r at h ⊢
    rcases r with _ | ⟨i, e, dts⟩
    · obtain ⟨h1, h2⟩ := h
      obtain ⟨h3, h4⟩ := hnone h1
      exact ⟨h3, List.forall_mem_cons.mpr ⟨h4, h2⟩⟩
    · rcases h with h | ⟨st', hm, hst'⟩
      · rcases hc with hc | ⟨e', he', hc⟩
        · exact .inl (hc.symm.trans h)
        · rw [hc] at h
          cases h
          exact .inr ⟨st.1, List.mem_cons_self, he', rfl⟩
      · exact .inr ⟨st', List.mem_cons_of_mem _ hm, hst'⟩

theorem next_none (h : c.mov_find_next_sample = none) {j : ℕ} {st : MOVStream} (hj : c.streams[j]? = some st) :
    st.sample = none := by
  have hf := consider_foldl c.seekable c.streams.zipIdx none
  rw [show c.streams.zipIdx.foldl (consider c.seekable) none = none from h] at hf
  exact hf.2 (st, j) (List.mk_mem_zipIdx_iff_getElem?.mpr hj)

theorem next_some {i : ℕ} {e : AVIndexEntry} {dts : ℤ} (h : c.mov_find_next_sample = some (i, e, dts)) :
    ∃ st, c.streams[i]? = some st ∧ st.sample = some e ∧ dts = av_rescale e.timestamp AV_TIME_BASE st.time_scale := by
  have hf := consider_foldl c.seekable c.streams.zipIdx none
  rw [show c.streams.zipIdx.foldl (consider c.seekable) none = some (i, e, dts) from h] at hf
  rcases hf with hf | ⟨st, hm, hst⟩
  · cases hf
  · exact ⟨st, List.mk_mem_zipIdx_iff_getElem?.mp hm, hst⟩

/-- `mov_read_packet` takes the current sample of one stream, or all streams are at their end. -/
theorem read_cases (c : MOVContext) :
    (c.mov_read_packet = none ∧ ∀ (j : ℕ) (st : MOVStream), c.streams[j]? = some st → st.sample = none) ∨
      ∃ (i : ℕ) (st : MOVStream) (e : AVIndexEntry), c.streams[i]? = some st ∧ st.sample = some e ∧ c.mov_read_packet =
        some ((st.read c.bytes i e).1, { c with streams := c.streams.set i (st.read c.bytes i e).2 }) := by
  unfold mov_read_packet
  rcases hn : c.mov_find_next_sample with _ | ⟨i, e, dts⟩
  · exact .inl ⟨rfl, fun j st hj => next_none hn hj⟩
  · obtain ⟨st, hi, hs, -⟩ := next_some hn
    refine .inr ⟨i, st, e, hi, hs, ?_⟩
    simp only [hi]

theorem remaining_set {i : ℕ} {st st' : MOVStream} (hi : c.streams[i]? = some st)
    (h : st'.index_entries.length - st'.current_sample < st.index_entries.length - st.current_sample) :
    ({ c with streams := c.streams.set i st' } : MOVContext).remaining < c.remaining := by
  obtain ⟨hlt, rfl⟩ := List.getElem?_eq_some_iff.mp hi
  unfold remaining
  dsimp only
  rw [List.set_eq_take_append_cons_drop, if_pos hlt]
  conv_rhs => rw [← List.take_append_drop i c.streams, List.drop_eq_getElem_cons hlt]
  simp only [List.map_append, List.map_cons, List.sum_append, List.sum_cons]
  omega

theorem read_remaining {p : MOVPacket} (h : c.mov_read_packet = some (p, c')) : c'.remaining < c.remaining := by
  rcases c.read_cases with ⟨hn, -⟩ | ⟨i, st, e, hi, hs, hr⟩
  · rw [hn] at h
    cases h
  · rw [hr] at h
    cases h
    obtain ⟨hlt, -⟩ := List.getElem?_eq_some_iff.mp hs
    refine remaining_set hi ?_
    simp only [MOVStream.read]
    omega

/-- `mov_read_packet` until the end of the file. -/
def reading : Loop MOVContext MOVContext where
  turn c :=
    match c.mov_read_packet with
    | none => .inr c
    | some (_, c') => .inl c'
  rank := remaining
  turn_lt c c' h := by
    rcases hr : c.mov_read_packet with _ | ⟨p, c''⟩ <;> rw [hr] at h <;> cases h
    exact read_remaining hr

/-- The packets that are still to come. -/
def demux (c : MOVContext) : List MOVPacket := reading.trace (fun c => (c.mov_read_packet.map Prod.fst).toList) c

theorem demux_none (h : c.mov_read_packet = none) : c.demux = [] := by
  have ht : reading.turn c = .inr c := by simp only [reading, h]
  rw [demux, Loop.trace_stop _ _ ht, h]
  rfl

theorem demux_some {p : MOVPacket} (h : c.mov_read_packet = some (p, c')) : c.demux = p :: c'.demux := by
  have ht : reading.turn c = .inl c' := by simp only [reading, h]
  rw [demux, Loop.trace_turn _ _ ht, h]
  rfl

def Ready (c : MOVContext) : Prop := ∀ st ∈ c.streams, st.Ready

/-- Reading to the end gives the packets of each stream from its current sample on, in order. -/
theorem demux_stream (h : c.Ready) {j : ℕ} {st : MOVStream} (hj : c.streams[j]? = some st) :
    (c.demux.filter fun p => p.stream_index = j) = (st.packets c.bytes j).drop st.current_sample := by
  induction hn : c.remaining using Nat.strongRecOn generalizing c st with
  | ind n ih =>
    have hlen : (st.packets c.bytes j).length = st.index_entries.length := by simp [MOVStream.packets]
    rcases c.read_cases with ⟨hr, hs⟩ | ⟨i, sti, e, hi, hs, hr⟩
    · have hend : st.index_entries.length ≤ st.current_sample := List.getElem?_eq_none_iff.mp (hs j st hj)
      rw [demux_none hr, List.drop_eq_nil_of_le (by omega)]
      rfl
    · have hready := h sti (List.mem_of_getElem? hi)
      have hlt := hn ▸ read_remaining hr
      have hR : Ready { c with streams := c.streams.set i (sti.read c.bytes i e).2 } := by
        intro st' hst'
        rcases List.mem_or_eq_of_mem_set hst' with hst' | rfl
        · exact h st' hst'
        · exact ⟨hready.positive, hready.located.step hready.positive⟩
      obtain ⟨hk, he⟩ := List.getElem?_eq_some_iff.mp hs
      rw [demux_some hr]
      by_cases hij : i = j
      · subst hij
        obtain rfl := Option.some.inj (hi.symm.trans hj)
        have hset : (c.streams.set i (sti.read c.bytes i e).2)[i]? = some (sti.read c.bytes i e).2 := by
          rw [List.getElem?_set_self (List.getElem?_eq_some_iff.mp hi).1]
        rw [List.filter_cons_of_pos (by simp [MOVStream.read, MOVStream.packet]), ih _ hlt hR hset rfl,
          List.drop_eq_getElem_cons (i := sti.current_sample) (by omega)]
        refine congrArg (· :: _) ?_
        simp [MOVStream.packets, MOVStream.read, hready.located.value_eq, he]
      · have hset : (c.streams.set i (sti.read c.bytes i e).2)[j]? = some st := by
          rw [List.getElem?_set_ne hij, hj]
        rw [List.filter_cons_of_neg (by simp [MOVStream.read, MOVStream.packet, hij])]
        exact ih _ hlt hR hset rfl

/-! ### Runs of reads and seeks -/

/-- The streams of `c` are those of `c₀`, and their cursors agree. -/
structure Reads (c₀ c : MOVContext) : Prop where
  bytes : c.bytes = c₀.bytes
  stream : ∀ {j : ℕ} {st₀ : MOVStream}, c₀.streams[j]? = some st₀ → ∃ st, c.streams[j]? = some st ∧ st.Ready ∧
    st = { st₀ with current_sample := st.current_sample, ctts := st.ctts, skip_samples := st.skip_samples }
  length : c.streams.length = c₀.streams.length

variable {c₀ : MOVContext}

theorem Reads.origin (h : Reads c₀ c) {j : ℕ} {st : MOVStream} (hj : c.streams[j]? = some st) :
    ∃ st₀, c₀.streams[j]? = some st₀ ∧ st.Ready ∧
      st = { st₀ with current_sample := st.current_sample, ctts := st.ctts, skip_samples := st.skip_samples } := by
  have hlt := (List.getElem?_eq_some_iff.mp hj).1
  rw [h.length] at hlt
  have h₀ := List.getElem?_eq_getElem hlt
  obtain ⟨st', hst', hr, he⟩ := h.stream h₀
  obtain rfl := Option.some.inj (hj.symm.trans hst')
  exact ⟨_, h₀, hr, he⟩

theorem Reads.ready (h : Reads c₀ c) : c.Ready := by
  intro st hst
  obtain ⟨j, hj⟩ := List.mem_iff_getElem?.mp hst
  obtain ⟨-, -, hr, -⟩ := h.origin hj
  exact hr

/-- What is still to come of a stream is the end of what a straight read returns. -/
theorem Reads.demux (h : Reads c₀ c) {j : ℕ} {st st₀ : MOVStream} (hj : c.streams[j]? = some st)
    (h₀ : c₀.streams[j]? = some st₀) :
    (c.demux.filter fun p => p.stream_index = j) = (st₀.packets c₀.bytes j).drop st.current_sample := by
  obtain ⟨st', hst', -, he⟩ := h.stream h₀
  obtain rfl := Option.some.inj (hj.symm.trans hst')
  rw [demux_stream h.ready hj, h.bytes]
  exact congrArg (List.drop _) (by rw [he]; rfl)

theorem Reads.read (h : Reads c₀ c) {p : MOVPacket} (hr : c.mov_read_packet = some (p, c')) : Reads c₀ c' := by
  rcases c.read_cases with ⟨hn, -⟩ | ⟨i, sti, e, hi, -, he⟩
  · rw [hn] at hr
    cases hr
  · rw [he] at hr
    cases hr
    refine ⟨h.bytes, fun {j st₀} h₀ => ?_, by simpa using h.length⟩
    obtain ⟨st, hj, hst, hof⟩ := h.stream h₀
    by_cases hij : i = j
    · subst hij
      obtain rfl := Option.some.inj (hi.symm.trans hj)
      refine ⟨_, List.getElem?_set_self (List.getElem?_eq_some_iff.mp hi).1, ?_, ?_⟩
      · exact ⟨hst.positive, hst.located.step hst.positive⟩
      · rw [hof]
        rfl
    · exact ⟨st, by rw [List.getElem?_set_ne hij, hj], hst, hof⟩

/-- The sample of the stream `j` after a seek that found the sample `k` of the stream `i`, here `main`: the one it
has itself for the time of that sample, if any. -/
def landing (i : ℕ) (main : MOVStream) (k : ℕ) (flags : SeekFlags) (j : ℕ) (st : MOVStream) : Option ℕ :=
  if j = i then some k
  else st.target (av_rescale_q (main.index_entries.ts k) main.time_base st.time_base) flags

/-- The streams after a seek: each is at its landing, or where it was. -/
theorem seek_stream {i : ℕ} {ts : ℤ} {flags : SeekFlags} (h : c.mov_read_seek i ts flags = some c') :
    ∃ (main : MOVStream) (k : ℕ), c.streams[i]? = some main ∧ main.target ts flags = some k ∧ c'.bytes = c.bytes ∧
      c'.streams.length = c.streams.length ∧ ∀ (j : ℕ) (st : MOVStream), c.streams[j]? = some st →
        ∃ st', c'.streams[j]? = some st' ∧
          st' = { ((landing i main k flags j st).map st.setSample).getD st with skip_samples := st'.skip_samples } := by
  unfold mov_read_seek at h
  split at h
  · cases h
  · rename_i main hi
    unfold MOVStream.mov_seek_stream at h
    rcases hk : main.target ts flags with _ | k <;> simp only [hk, Option.map_none, Option.map_some] at h
    · cases h
    · cases h
      refine ⟨main, k, hi, hk, rfl, by simp, fun j st hj => ?_⟩
      have hlt := (List.getElem?_eq_some_iff.mp hj).1
      by_cases hij : i = j
      · subst hij
        obtain rfl := Option.some.inj (hi.symm.trans hj)
        refine ⟨_, by rw [List.getElem?_mapIdx, List.getElem?_set_self hlt]; rfl, ?_⟩
        simp [reseek, landing]
      · refine ⟨_, by rw [List.getElem?_mapIdx, List.getElem?_set_ne hij, hj]; rfl, ?_⟩
        simp only [reseek, landing, if_neg (Ne.symm hij), MOVStream.mov_seek_stream]
        have htarget : ∀ (n : ℤ) (t : ℤ), ({ st with skip_samples := n } : MOVStream).target t flags =
          st.target t flags := fun _ _ => rfl
        rw [htarget]
        generalize hT : av_rescale_q (main.index_entries.ts k) main.time_base st.time_base = T
        have hT' : av_rescale_q ((main.setSample k).index_entries.ts k) (main.setSample k).time_base
          ({ st with skip_samples := if ts ≤ 0 then st.start_pad else 0 } : MOVStream).time_base = T := hT
        rw [hT']
        rcases st.target T flags with _ | m <;> rfl

theorem Reads.seek (h : Reads c₀ c) (hc : ∀ st ∈ c₀.streams, st.Covered) {i : ℕ} {ts : ℤ} {flags : SeekFlags}
    (hs : c.mov_read_seek i ts flags = some c') : Reads c₀ c' := by
  obtain ⟨main, k, hi, hk, hb, hl, hst⟩ := seek_stream hs
  refine ⟨hb.trans h.bytes, fun {j st₀} h₀ => ?_, hl.trans h.length⟩
  obtain ⟨st, hj, hready, hof⟩ := h.stream h₀
  obtain ⟨st', hj', he⟩ := hst j st hj
  have hcov : st.Covered := by
    rw [hof]
    exact hc st₀ (List.mem_of_getElem? h₀)
  refine ⟨st', hj', ?_, ?_⟩
  · have hland : ∀ m, landing i main k flags j st = some m → m < st.index_entries.length := by
      intro m hm
      unfold landing at hm
      split_ifs at hm with hij
      · subst hij
        cases hm
        obtain rfl := Option.some.inj (hi.symm.trans hj)
        exact MOVStream.target_lt hk
      · exact MOVStream.target_lt hm
    rcases hm : landing i main k flags j st with _ | m <;> rw [hm] at he <;> rw [he]
    · exact ⟨hready.positive, hready.located⟩
    · obtain ⟨h1, h2⟩ := hready.setSample hcov (hland m hm)
      exact ⟨h1, h2⟩
  · rcases hm : landing i main k flags j st with _ | m <;> rw [hm] at he <;> rw [he, hof] <;> rfl

/-- After a seek the packets of a stream continue as in a straight read from its landing on, or as before. -/
theorem Reads.demux_seek (h : Reads c₀ c) (hc : ∀ st ∈ c₀.streams, st.Covered) {i : ℕ} {ts : ℤ} {flags : SeekFlags}
    (hs : c.mov_read_seek i ts flags = some c') : ∃ (main : MOVStream) (k : ℕ),
    c₀.streams[i]? = some main ∧ main.target ts flags = some k ∧
      ∀ (j : ℕ) (st : MOVStream), c₀.streams[j]? = some st → c'.demux.filter (fun p => p.stream_index = j) =
        match landing i main k flags j st with
        | some m => (st.packets c₀.bytes j).drop m
        | none => c.demux.filter fun p => p.stream_index = j := by
  have h' : Reads c₀ c' := h.seek hc hs
  obtain ⟨main, k, hi, hk, -, -, hst⟩ := seek_stream hs
  obtain ⟨main₀, hi₀, -, hof⟩ := h.origin hi
  refine ⟨main₀, k, hi₀, by rw [← hk, hof]; rfl, fun j st₀ hj₀ => ?_⟩
  obtain ⟨st, hj, -, hofj⟩ := h.stream hj₀
  obtain ⟨st', hj', he⟩ := hst j st hj
  have hland : landing i main₀ k flags j st₀ = landing i main k flags j st := by
    rw [hof, hofj]
    rfl
  rw [h'.demux hj' hj₀, hland]
  rcases hm : landing i main k flags j st with _ | m <;> rw [hm] at he <;> rw [he]
  · exact (h.demux hj hj₀).symm
  · rfl

end MOVContext

inductive MOVOp
  | read
  | seek (i : ℕ) (timestamp : ℤ) (flags : SeekFlags)

namespace MOVContext

/-- A call that fails changes nothing. -/
def op (c : MOVContext) : MOVOp → MOVContext
  | .read => (c.mov_read_packet.map Prod.snd).getD c
  | .seek i timestamp flags => (c.mov_read_seek i timestamp flags).getD c

/-- The header was just read, and the `ctts` tables cover the samples or are absent. -/
def Opened (c : MOVContext) : Prop :=
  ∀ st ∈ c.streams, st.current_sample = 0 ∧ st.ctts = {} ∧ st.ctts_data.Positive ∧ st.Covered

theorem Opened.run {c : MOVContext} (h : c.Opened) (ops : List MOVOp) : Reads c (ops.foldl op c) := by
  have hcov : ∀ st ∈ c.streams, st.Covered := fun st hst => (h st hst).2.2.2
  have h₀ : Reads c c := by
    refine ⟨rfl, fun {j st₀} hj => ⟨st₀, hj, ?_, rfl⟩, rfl⟩
    obtain ⟨hk, hc, hp, -⟩ := h st₀ (List.mem_of_getElem? hj)
    exact ⟨hp, by rw [hk, hc]; exact Runs.located_start hp⟩
  suffices hrun : ∀ d, Reads c d → Reads c (ops.foldl op d) from hrun c h₀
  induction ops with
  | nil => exact fun d hd => hd
  | cons o ops ih =>
    intro d hd
    refine ih _ ?_
    cases o with
    | read =>
      rcases hr : d.mov_read_packet with _ | ⟨p, d'⟩
      · simp only [op, hr]
        exact hd
      · simp only [op, hr]
        exact hd.read hr
    | seek i timestamp flags =>
      rcases hs : d.mov_read_seek i timestamp flags with _ | d'
      · simp only [op, hs]
        exact hd
      · simp only [op, hs]
        exact hd.seek hcov hs

end MOVContext

/-- A video with two key frames and composition offsets, and audio. -/
def movFile : MOVContext where
  streams :=
    [{ index_entries := [⟨0, 0, 1, 2, 0⟩, ⟨4, 40, 0, 2, 1⟩, ⟨8, 80, 1, 2, 0⟩, ⟨12, 120, 0, 2, 1⟩]
       ctts_data := [(1, 80), (3, 40)], time_scale := 1000, duration := 160 },
     { index_entries := [⟨2, 0, 1, 2, 0⟩, ⟨6, 44, 1, 2, 0⟩, ⟨10, 88, 1, 2, 0⟩], time_scale := 1000, duration := 132 }]
  bytes pos n := List.replicate n.toNat (UInt8.ofNat pos.toNat)

/-- On an index with increasing timestamps a seek goes to the nearest sample that the flags ask for, from its time
in decoding order. Without one it goes to the first sample if all samples are later, and fails otherwise. -/
theorem mov_target_nearest {st : MOVStream} (hs : st.index_entries.Sorted) (timestamp : ℤ) (flags : SeekFlags) :
    match st.index_entries.nearest (timestamp - (st.min_corrected_pts + st.dts_shift)) flags with
    | some e => ∃ k, st.target timestamp flags = some k ∧ st.index_entries[k]? = some e ∧
        (flags.backward = true → ∀ (j : ℕ) (f : AVIndexEntry), k < j → st.index_entries[j]? = some f →
          (flags.any || f.keyframe) = true → timestamp < f.timestamp + (st.min_corrected_pts + st.dts_shift))
    | none => st.target timestamp flags =
        if st.index_entries ≠ [] ∧ timestamp - (st.min_corrected_pts + st.dts_shift) < st.index_entries.ts 0 then some 0
        else none := by
  obtain ⟨h0, hn⟩ := Index.search_nearest hs (timestamp - (st.min_corrected_pts + st.dts_shift)) flags
  obtain ⟨-, hlt⟩ := Index.search_range st.index_entries (timestamp - (st.min_corrected_pts + st.dts_shift)) flags
  unfold MOVStream.target
  dsimp only
  generalize hw : timestamp - (st.min_corrected_pts + st.dts_shift) = w at h0 hn hlt ⊢
  generalize ff_index_search_timestamp st.index_entries w flags = m at h0 hn hlt ⊢
  unfold Index.entry at hn
  split
  · rename_i e he
    rw [he] at hn
    split_ifs at hn with hm
    have hin : (if m < 0 ∧ st.index_entries ≠ [] ∧ w < st.index_entries.ts 0 then 0 else m) = m :=
      if_neg fun h => hm h.1
    rw [hin, if_neg hm]
    refine ⟨m.toNat, rfl, hn, fun hb j f hj hf hkey => ?_⟩
    by_contra hle
    have hwant : Index.wanted w flags f = true := by
      simp only [Index.wanted, hb, if_true, hkey, Bool.and_true, decide_eq_true_iff]
      omega
    obtain ⟨-, -, hmax⟩ := Index.nearest_some hs he
    have hfe := hmax f (List.mem_of_getElem? hf) hwant
    rw [if_pos hb] at hfe
    obtain ⟨hml, rfl⟩ := List.getElem?_eq_some_iff.mp hn
    obtain ⟨hjl, rfl⟩ := List.getElem?_eq_some_iff.mp hf
    exact absurd (List.pairwise_iff_getElem.mp hs m.toNat j hml hjl hj) (not_lt.mpr hfe)
  · rename_i he
    rw [he] at hn
    have hm : m < 0 := by
      by_contra hm
      rw [if_neg hm, List.getElem?_eq_none_iff] at hn
      have := hlt (not_lt.mp hm)
      omega
    by_cases hfirst : st.index_entries ≠ [] ∧ w < st.index_entries.ts 0
    · simp [hm, hfirst]
    · simp [hm, hfirst]

/-- 100 ms of the video in decoding order. -/
theorem mov_target_nearest_movFile : ∃ k, (movFile.streams.head (by decide)).target 100 { backward := true } = some k ∧
    k = 2 := by
  have hs : (movFile.streams.head (by decide)).index_entries.Sorted := by
    unfold Index.Sorted
    decide
  have h := mov_target_nearest hs 100 { backward := true }
  rw [show Index.nearest _ _ _ = some ⟨8, 80, 1, 2, 0⟩ from rfl] at h
  obtain ⟨k, hk, he, -⟩ := h
  exact ⟨k, hk, Option.some.inj (hk.symm.trans (by decide +kernel))⟩

/-! ### The order between streams -/

namespace MOVContext

/-- One more stream moves the best timestamp up by a second at most. -/
theorem consider_le (best : ℕ × AVIndexEntry × ℤ) (st : MOVStream × ℕ) :
    ∃ b, consider true (some best) st = some b ∧ b.2.2 ≤ best.2.2 + AV_TIME_BASE ∧ ∀ f, st.1.sample = some f →
      b.2.2 ≤ av_rescale f.timestamp AV_TIME_BASE st.1.time_scale + AV_TIME_BASE := by
  obtain ⟨i, e, bd⟩ := best
  have hT : 0 < AV_TIME_BASE := by decide
  unfold consider
  rcases hs : st.1.sample with _ | f
  · exact ⟨_, rfl, by dsimp only; omega, fun f hf => by cases hf⟩
  · dsimp only
    generalize hd : av_rescale f.timestamp AV_TIME_BASE st.1.time_scale = d
    have hbetter : better true e f bd d = true → d ≤ bd + AV_TIME_BASE := by
      unfold better
      rw [if_pos rfl]
      split_ifs with habs
      · exact fun _ => by rw [abs_le] at habs; omega
      · intro h
        have := of_decide_eq_true h
        omega
    have hworse : better true e f bd d = false → bd ≤ d + AV_TIME_BASE := by
      unfold better
      rw [if_pos rfl]
      split_ifs with habs
      · exact fun _ => by rw [abs_le] at habs; omega
      · intro h
        have := of_decide_eq_false h
        omega
    by_cases hb : better true e f bd d = true
    · rw [if_pos hb]
      exact ⟨_, rfl, hbetter hb, fun g hg => by cases hg; rw [hd]; dsimp only; omega⟩
    · rw [if_neg hb]
      exact ⟨_, rfl, by dsimp only; omega, fun g hg => by cases hg; rw [hd]; exact hworse (by simpa using hb)⟩

theorem consider_foldl_le (l : List (MOVStream × ℕ)) (best : ℕ × AVIndexEntry × ℤ) :
    ∃ r, l.foldl (consider true) (some best) = some r ∧ r.2.2 ≤ best.2.2 + l.length * AV_TIME_BASE ∧
      ∀ st ∈ l, ∀ f, st.1.sample = some f →
        r.2.2 ≤ av_rescale f.timestamp AV_TIME_BASE st.1.time_scale + l.length * AV_TIME_BASE := by
  induction l generalizing best with
  | nil => exact ⟨best, rfl, by simp, fun st h => absurd h List.not_mem_nil⟩
  | cons st l ih =>
    obtain ⟨b, hb, h1, h2⟩ := consider_le best st
    obtain ⟨r, hr, h3, h4⟩ := ih b
    have hT : 0 < AV_TIME_BASE := by decide
    have hlen : ((st :: l).length : ℤ) * AV_TIME_BASE = l.length * AV_TIME_BASE + AV_TIME_BASE := by
      push_cast [List.length_cons]
      ring
    rw [hlen]
    refine ⟨r, by rw [List.foldl_cons, hb, hr], by omega, fun st' hst' f hf => ?_⟩
    rcases List.mem_cons.mp hst' with rfl | hst'
    · have := h2 f hf
      omega
    · have := h4 st' hst' f hf
      omega

/-- In a seekable file the sample that is read next is at most a second later than the next one of any other
stream, for each stream between them. -/
theorem next_le {c : MOVContext} (hk : c.seekable = true) {i : ℕ} {e : AVIndexEntry} {dts : ℤ}
    (h : c.mov_find_next_sample = some (i, e, dts)) {j : ℕ} {st : MOVStream} {f : AVIndexEntry}
    (hj : c.streams[j]? = some st) (hf : st.sample = some f) :
    dts ≤ av_rescale f.timestamp AV_TIME_BASE st.time_scale + (c.streams.length - 1) * AV_TIME_BASE := by
  have hT : 0 < AV_TIME_BASE := by decide
  suffices hl : ∀ l : List (MOVStream × ℕ), l.foldl (consider true) none = some (i, e, dts) → (st, j) ∈ l →
      dts ≤ av_rescale f.timestamp AV_TIME_BASE st.time_scale + (l.length - 1) * AV_TIME_BASE by
    unfold mov_find_next_sample at h
    rw [hk] at h
    have := hl _ h (List.mk_mem_zipIdx_iff_getElem?.mpr hj)
    rwa [List.length_zipIdx] at this
  intro l
  induction l with
  | nil => exact fun h => by cases h
  | cons s l ih =>
    intro h hm
    rw [List.foldl_cons] at h
    have hlen : (((s :: l).length : ℤ) - 1) * AV_TIME_BASE = l.length * AV_TIME_BASE := by
      push_cast [List.length_cons]
      ring
    rw [hlen]
    rcases hs : s.1.sample with _ | g
    · have hc : consider true none s = none := by simp only [consider, hs]
      rw [hc] at h
      rcases List.mem_cons.mp hm with rfl | hm
      · rw [hs] at hf
        cases hf
      · have := ih h hm
        nlinarith
    · have hc : consider true none s = some (s.2, g, av_rescale g.timestamp AV_TIME_BASE s.1.time_scale) := by
        simp only [consider, hs]
      rw [hc] at h
      obtain ⟨r, hr, h1, h2⟩ := consider_foldl_le l (s.2, g, av_rescale g.timestamp AV_TIME_BASE s.1.time_scale)
      obtain rfl := Option.some.inj (hr.symm.trans h)
      rcases List.mem_cons.mp hm with rfl | hm
      · rw [hs] at hf
        cases hf
        exact h1
      · exact h2 _ hm f hf

end MOVContext

open MOVContext in
/-- A packet of a seekable file is at most a second later in decoding order than what is to come of any other
stream, for each further stream of the file: with one audio and one video stream, a second. -/
theorem mov_interleaved {c c' : MOVContext} (hk : c.seekable = true) {p : MOVPacket}
    (h : c.mov_read_packet = some (p, c')) : ∃ st, c.streams[p.stream_index]? = some st ∧
      ∀ (j : ℕ) (st' : MOVStream) (f : AVIndexEntry), c.streams[j]? = some st' → st'.sample = some f →
        av_rescale p.dts AV_TIME_BASE st.time_scale ≤
          av_rescale f.timestamp AV_TIME_BASE st'.time_scale + (c.streams.length - 1) * AV_TIME_BASE := by
  unfold mov_read_packet at h
  rcases hn : c.mov_find_next_sample with _ | ⟨i, e, dts⟩ <;> rw [hn] at h
  · cases h
  · obtain ⟨st, hi, hs, rfl⟩ := next_some hn
    simp only [hi] at h
    cases h
    exact ⟨st, hi, fun j st' f hj hf => next_le hk hn hj hf⟩

theorem mov_interleaved_movFile : ∃ p c', movFile.mov_read_packet = some (p, c') ∧
    av_rescale p.dts AV_TIME_BASE 1000 ≤ 1000000 := by
  obtain ⟨r, hr⟩ : ∃ r, movFile.mov_read_packet = some r := Option.isSome_iff_exists.mp (by decide +kernel)
  have hp : r.1.stream_index = 0 := by
    have hm : movFile.mov_read_packet.map (·.1.stream_index) = some 0 := by decide +kernel
    rw [hr] at hm
    exact Option.some.inj hm
  obtain ⟨st, hst, h⟩ := mov_interleaved rfl (hr.trans rfl : _ = some (r.1, r.2))
  rw [hp] at hst
  obtain rfl := Option.some.inj hst
  refine ⟨r.1, r.2, hr, ?_⟩
  have := h 1 _ _ rfl rfl
  exact this.trans (by decide +kernel)

end LibAV
