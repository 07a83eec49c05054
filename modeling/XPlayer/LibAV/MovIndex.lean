import XPlayer.LibAV.Mov

/-!
# The sample tables of an MP4 file

An MP4 file describes its samples by tables in runs: durations (`stts`), samples for each chunk (`stsc`), chunk
offsets (`stco`), sizes (`stsz`) and key frames (`stss`). `mov_read_stsc` repairs what makes no sense in its table,
and `mov_build_index` turns them all into the index of the stream, sample by sample.

The loop keeps a clock for each table. `DtsClock` never goes back, whatever the durations are, so the index is
sorted (`mov_build_index_sorted`). Uncompressed audio has a loop of its own, with an entry for each part of a
chunk.
-/

namespace LibAV
open XPlayer

/-! ### `stsc` -/

structure MOVStsc where
  first : ℤ
  count : ℤ
  id : ℤ
  deriving DecidableEq

/-- The entry `e` with the number `i`, where `prev` is the first chunk of the entry before it, as read, and `next`
the entry after it, already repaired. -/
def repairStsc (i : ℕ) (prev : Option ℤ) (e : MOVStsc) (next : Option MOVStsc) : MOVStsc :=
  let first_min : ℤ := i + 1
  if (∃ n ∈ next, n.first ≤ e.first) ∨ (∃ p ∈ prev, e.first ≤ p) ∨ e.first < first_min ∨ e.count < 1 ∨ e.id < 1 then
    match next with
    | none =>
      let first := max e.first first_min
      { first := match prev with
          | some p => if first ≤ p then min (p + 1) INT_MAX else first
          | none => first
        count := max e.count 1, id := max e.id 1 }
    | some n => { first := n.first - 1, count := n.count, id := n.id }
  else e

/-- The loop of `mov_read_stsc` over the entries, from the last to the first. -/
def mov_read_stsc : ℕ → Option ℤ → List MOVStsc → List MOVStsc
  | _, _, [] => []
  | i, prev, e :: es =>
    let es' := mov_read_stsc (i + 1) (some e.first) es
    repairStsc i prev e es'.head? :: es'

/-- A table as it should be; `i` is the number of its first entry. -/
structure StscValid (i : ℕ) (es : List MOVStsc) : Prop where
  sorted : es.Pairwise fun e f => e.first < f.first
  first : ∀ k (h : k < es.length), (i + k + 1 : ℤ) ≤ es[k].first
  count : ∀ e ∈ es, 1 ≤ e.count
  id : ∀ e ∈ es, 1 ≤ e.id

theorem StscValid.cons {i : ℕ} {e : MOVStsc} {es : List MOVStsc} (h : StscValid (i + 1) es) (hf : (i + 1 : ℤ) ≤ e.first)
    (hn : ∀ n ∈ es.head?, e.first < n.first) (hc : 1 ≤ e.count) (hi : 1 ≤ e.id) : StscValid i (e :: es) := by
  refine ⟨List.pairwise_cons.mpr ⟨fun f hfm => ?_, h.sorted⟩, fun k hk => ?_, List.forall_mem_cons.mpr ⟨hc, h.count⟩,
    List.forall_mem_cons.mpr ⟨hi, h.id⟩⟩
  · cases es with
    | nil => cases hfm
    | cons n es =>
      have hen := hn n rfl
      rcases List.mem_cons.mp hfm with rfl | hfm
      · exact hen
      · exact hen.trans ((List.pairwise_cons.mp h.sorted).1 f hfm)
  · cases k with
    | zero => simpa using hf
    | succ k =>
      have := h.first k (by simpa using hk)
      rw [List.getElem_cons_succ]
      push_cast at this ⊢
      omega

theorem mov_read_stsc_length (i : ℕ) (prev : Option ℤ) (es : List MOVStsc) :
    (mov_read_stsc i prev es).length = es.length := by
  induction es generalizing i prev with
  | nil => rfl
  | cons e es ih => simp only [mov_read_stsc, List.length_cons, ih]

theorem mov_read_stsc_loop (es : List MOVStsc) (i : ℕ) (prev : Option ℤ) (hlen : (i + es.length : ℤ) ≤ INT_MAX) :
    StscValid i (mov_read_stsc i prev es) := by
  induction es generalizing i prev with
  | nil => exact ⟨.nil, fun k hk => absurd hk (Nat.not_lt_zero k), fun e h => absurd h List.not_mem_nil,
      fun e h => absurd h List.not_mem_nil⟩
  | cons e es ih =>
    have hv := ih (i + 1) (some e.first) (by push_cast [List.length_cons] at hlen ⊢; omega)
    have hl := mov_read_stsc_length (i + 1) (some e.first) es
    unfold mov_read_stsc
    dsimp only
    generalize mov_read_stsc (i + 1) (some e.first) es = es' at hv hl
    have hlast : es' = [] → (i : ℤ) + 1 ≤ INT_MAX := by
      rintro rfl
      push_cast [List.length_cons, ← hl] at hlen
      simpa using hlen
    unfold repairStsc
    dsimp only
    split_ifs with hbad
    · rcases es' with _ | ⟨n, es'⟩
      · have hmax := hlast rfl
        refine hv.cons ?_ (fun n hn => by cases hn) (le_max_right _ _) (le_max_right _ _)
        dsimp only [List.head?_nil]
        rcases prev with _ | p
        · exact le_max_right _ _
        · dsimp only
          split_ifs with hp
          · have := le_max_right e.first ((i : ℤ) + 1)
            omega
          · exact le_max_right _ _
      · have hn := hv.first 0 (Nat.zero_lt_succ _)
        rw [List.getElem_cons_zero] at hn
        push_cast at hn
        refine hv.cons ?_ (fun m hm => ?_) (hv.count n List.mem_cons_self) (hv.id n List.mem_cons_self)
        · dsimp only [List.head?_cons]
          omega
        · cases hm
          dsimp only [List.head?_cons]
          omega
    · push Not at hbad
      obtain ⟨h1, -, h3, h4, h5⟩ := hbad
      exact hv.cons (by omega) (fun n hn => h1 n hn) h4 h5

theorem StscValid.tail {i : ℕ} {e : MOVStsc} {es : List MOVStsc} (h : StscValid i (e :: es)) : StscValid (i + 1) es := by
  refine ⟨(List.pairwise_cons.mp h.sorted).2, fun k hk => ?_, fun f hf => h.count f (List.mem_cons_of_mem _ hf),
    fun f hf => h.id f (List.mem_cons_of_mem _ hf)⟩
  have := h.first (k + 1) (by simpa using hk)
  rw [List.getElem_cons_succ] at this
  push_cast at this ⊢
  omega

/-- A table that is as it should be stays as it is. -/
theorem mov_read_stsc_valid {i : ℕ} {prev : Option ℤ} {es : List MOVStsc} (h : StscValid i es)
    (hp : ∀ p ∈ prev, ∀ e ∈ es.head?, p < e.first) : mov_read_stsc i prev es = es := by
  induction es generalizing i prev with
  | nil => rfl
  | cons e es ih =>
    have hlt : ∀ n ∈ es.head?, e.first < n.first := fun n hn =>
      (List.pairwise_cons.mp h.sorted).1 n (List.mem_of_mem_head? hn)
    have hfirst := h.first 0 (Nat.zero_lt_succ _)
    rw [List.getElem_cons_zero] at hfirst
    have hrest : mov_read_stsc (i + 1) (some e.first) es = es := ih h.tail (by rintro p ⟨⟩; exact hlt)
    unfold mov_read_stsc
    dsimp only
    rw [hrest]
    unfold repairStsc
    dsimp only
    rw [if_neg]
    push Not
    refine ⟨hlt, fun p hpp => hp p hpp e rfl, by push_cast at hfirst; omega, h.count e List.mem_cons_self,
      h.id e List.mem_cons_self⟩

/-- Whatever the atom holds, the table is as it should be afterwards: its chunk numbers increase and start at
their index at least, and all counts and ids are positive. A table that was so is not changed. -/
theorem mov_read_stsc_repairs (es : List MOVStsc) (hlen : (es.length : ℤ) ≤ INT_MAX) :
    StscValid 0 (mov_read_stsc 0 none es) ∧ (StscValid 0 es → mov_read_stsc 0 none es = es) :=
  ⟨mov_read_stsc_loop es 0 none (by simpa using hlen), fun h => mov_read_stsc_valid h fun p hp => by cases hp⟩

theorem mov_read_stsc_repairs_two :
    StscValid 0 (mov_read_stsc 0 none [⟨1, 3, 1⟩, ⟨1, 0, 1⟩, ⟨0, 0, 0⟩]) :=
  (mov_read_stsc_repairs [⟨1, 3, 1⟩, ⟨1, 0, 1⟩, ⟨0, 0, 0⟩] (by decide)).1

/-! ### `mov_build_index` -/

/-- The tables of a track, as its atoms were read. -/
structure MOVTables where
  chunk_offsets : List ℤ
  stts_data : Runs ℤ
  stsc_data : List MOVStsc
  sample_size : ℕ := 0
  stsz_sample_size : ℕ := 0
  sample_count : ℕ
  sample_sizes : List ℕ := []
  keyframe_absent : Bool := false
  keyframes : List ℤ := []
  stps_data : List ℤ := []
  rap_group : Runs ℕ := []
  pseudo_stream_id : ℤ := -1
  audio : Bool := false
  dts_shift : ℤ := 0
  samples_per_frame : ℕ := 0
  bytes_per_frame : ℕ := 0

/-- The decoding time and the cursor into `stts_data`; a negative duration is replaced there when it is met. -/
structure DtsClock where
  stts_data : Runs ℤ
  stts_index : ℕ := 0
  stts_sample : ℕ := 0
  current_dts : ℤ
  last_dts : ℤ
  dts_correction : ℤ := 0

/-- The end of a sample. -/
def DtsClock.tick (s : DtsClock) : DtsClock :=
  let run := (s.stts_data[s.stts_index]?).getD (0, 0)
  let correction := if run.2 < 0 then s.dts_correction + (run.2 - 1) else s.dts_correction
  let duration := if run.2 < 0 then 1 else run.2
  let dts := s.current_dts + duration
  let next := correction = 0 ∨ s.last_dts < dts + correction
  -- no decoding time before the last one
  let current_dts := if next then dts + correction else s.last_dts + 1
  let full := s.stts_index + 1 < s.stts_data.length ∧ s.stts_sample + 1 = run.1
  { stts_data := s.stts_data.set s.stts_index (run.1, duration)
    stts_index := if full then s.stts_index + 1 else s.stts_index
    stts_sample := if full then 0 else s.stts_sample + 1
    current_dts := current_dts
    last_dts := current_dts
    dts_correction := if next then 0 else correction + (dts - s.last_dts - 1) }

/-- The cursors into the tables of key frames, and the distance from the last one. -/
structure KeyClock where
  stss_index : ℕ := 0
  stps_index : ℕ := 0
  rap_group : Runs.Cursor := {}
  distance : ℕ := 0

namespace MOVTables
variable (t : MOVTables)

/-- `key_off` -/
def key_off : ℤ :=
  if (∃ k ∈ t.keyframes.head?, 0 < k) ∨ ∃ k ∈ t.stps_data.head?, 0 < k then 1 else 0

/-- Whether a sample is a key frame, and the cursors after it; `first` says that it is the first of the file. -/
def mark (s : KeyClock) (current_sample : ℕ) (first : Bool) : Bool × KeyClock :=
  let stss := t.keyframe_absent = false ∧
    (t.keyframes = [] ∨ t.keyframes[s.stss_index]? = some (current_sample + t.key_off))
  let stps := ¬ stss ∧ t.stps_data[s.stps_index]? = some (current_sample + t.key_off)
  let rap := ∃ index ∈ t.rap_group.value s.rap_group, 0 < index
  let only := t.keyframe_absent = true ∧ t.stps_data = [] ∧ t.rap_group = [] ∧ (t.audio = true ∨ first = true)
  let keyframe := decide (stss ∨ stps ∨ rap ∨ only)
  (keyframe,
    { stss_index := if stss ∧ s.stss_index + 1 < t.keyframes.length then s.stss_index + 1 else s.stss_index
      stps_index := if stps ∧ s.stps_index + 1 < t.stps_data.length then s.stps_index + 1 else s.stps_index
      rap_group := t.rap_group.step s.rap_group
      distance := if keyframe then 0 else s.distance })

end MOVTables

/-- The state of the loop over the samples. -/
structure IndexBuild where
  dts : DtsClock
  key : KeyClock := {}
  current_sample : ℕ := 0
  current_offset : ℤ := 0
  stsz_sample_size : ℕ
  index_entries : Index := []

namespace MOVTables
variable (t : MOVTables)

def sampleSize (s : IndexBuild) : ℕ :=
  if 0 < s.stsz_sample_size then s.stsz_sample_size else (t.sample_sizes[s.current_sample]?).getD 0

/-- The entry for the sample that comes next. -/
def entry (first : Bool) (s : IndexBuild) : AVIndexEntry :=
  let m := t.mark s.key s.current_sample first
  { pos := s.current_offset, timestamp := s.dts.current_dts, size := int30 (t.sampleSize s),
    min_distance := m.2.distance, flags := if m.1 then AVINDEX_KEYFRAME else 0 }

/-- The samples with the description `id` belong to the stream. -/
def kept (id : ℤ) : Prop := t.pseudo_stream_id = -1 ∨ id - 1 = t.pseudo_stream_id

instance (id : ℤ) : Decidable (t.kept id) := inferInstanceAs (Decidable (_ ∨ _))

/-- A sample of a chunk whose description is `id`; nothing if the function returns. -/
def sample (id : ℤ) (first : Bool) (s : IndexBuild) : Option IndexBuild :=
  if t.sample_count ≤ s.current_sample then none
  else if t.kept id ∧ 0x3FFFFFFF < t.sampleSize s then none
  else
    let key := (t.mark s.key s.current_sample first).2
    some { s with index_entries := if t.kept id then s.index_entries ++ [t.entry first s] else s.index_entries
                  current_offset := s.current_offset + t.sampleSize s
                  dts := s.dts.tick
                  key := { key with distance := key.distance + 1 }
                  current_sample := s.current_sample + 1 }

/-- `n` samples of a chunk, and whether the function goes on after them. -/
def samples (id : ℤ) : ℕ → Bool → IndexBuild → Bool × IndexBuild
  | 0, _, s => (true, s)
  | n + 1, first, s =>
    match t.sample id first s with
    | none => (false, s)
    | some s' => samples id n false s'

/-- The entries of `stsc` from the one for the chunk `i` on. -/
def advance (i : ℕ) : List MOVStsc → List MOVStsc
  | e :: e' :: es => if (i : ℤ) + 1 = e'.first then advance i (e' :: es) else e :: e' :: es
  | es => es

/-- The sample size of `stsz`, unless the samples of a chunk would not fit or it is too small. -/
def checkSize (offset next_offset count : ℤ) (stsz_sample_size : ℕ) : ℕ :=
  let stsz := if offset < next_offset ∧ 0 < t.sample_size ∧ t.sample_size < stsz_sample_size ∧
    next_offset - offset < count * stsz_sample_size then t.sample_size else stsz_sample_size
  if 0 < stsz ∧ stsz < t.sample_size then t.sample_size else stsz

def startChunk (offset next_offset count : ℤ) (s : IndexBuild) : IndexBuild :=
  { s with current_offset := offset
           stsz_sample_size := t.checkSize offset next_offset count s.stsz_sample_size }

/-- The chunks from `i` on, with `stsc` as the chunk before has left it. -/
def chunks : List ℤ → ℕ → List MOVStsc → IndexBuild → IndexBuild
  | [], _, _, s => s
  | offset :: offsets, i, stsc, s =>
    match advance i stsc with
    | [] => s
    | e :: es =>
      match t.samples e.id e.count.toNat (i == 0)
          (t.startChunk offset (offsets.head?.getD INT64_MAX) e.count s) with
      | (false, s) => s
      | (true, s) => chunks offsets (i + 1) (e :: es) s

/-! Uncompressed audio: an entry for each part of a chunk -/

/-- Audio whose samples all have the duration 1. -/
def Uncompressed : Prop := t.audio = true ∧ t.stts_data.map Prod.snd = [1]

instance : Decidable t.Uncompressed := inferInstanceAs (Decidable (_ ∧ _))

/-- The samples of a part that are whole frames. -/
def wholeFrames : ℕ := 1024 / t.samples_per_frame * t.samples_per_frame

/-- The number of parts of a chunk. -/
def partCount (chunk_samples : ℕ) : ℕ :=
  if 160 ≤ t.samples_per_frame then chunk_samples / t.samples_per_frame
  else if 1 < t.samples_per_frame then (chunk_samples + t.wholeFrames - 1) / t.wholeFrames
  else (chunk_samples + 1023) / 1024

/-- The number of parts of all chunks; nothing if a chunk that is not of the last entry has a broken frame. -/
def totalParts : List MOVStsc → ℕ → Option ℕ
  | [], total => some total
  | e :: es, total =>
    if es ≠ [] ∧ t.samples_per_frame ≠ 0 ∧ e.count.toNat % t.samples_per_frame ≠ 0 then none
    else
      let chunk_count : ℤ := match es with
        | next :: _ => next.first - e.first
        | [] => t.chunk_offsets.length - (e.first - 1)
      totalParts es ((total + chunk_count * t.partCount e.count.toNat) % 2 ^ 32).toNat

/-- The samples and the bytes of the next part of a chunk in which `chunk_samples` are left. -/
def part (chunk_samples : ℕ) : Option (ℕ × ℕ) :=
  if 1 < t.samples_per_frame ∧ t.bytes_per_frame = 0 then none
  else if 160 ≤ t.samples_per_frame then some (t.samples_per_frame, t.bytes_per_frame)
  else if 1 < t.samples_per_frame then
    let samples := min t.wholeFrames chunk_samples
    some (samples, samples / t.samples_per_frame * t.bytes_per_frame % 2 ^ 32)
  else some (min 1024 chunk_samples, min 1024 chunk_samples * t.sample_size % 2 ^ 32)

/-- The state of the loop over the parts. -/
structure PartBuild where
  current_offset : ℤ := 0
  current_dts : ℤ := 0
  index_entries : Index := []

/-- The entry for a part of `size` bytes: all are key frames. -/
def PartBuild.entry (s : PartBuild) (size : ℕ) : AVIndexEntry :=
  { pos := s.current_offset, timestamp := s.current_dts, size := int30 size, min_distance := 0
    flags := AVINDEX_KEYFRAME }

def PartBuild.add (s : PartBuild) (samples size : ℕ) : PartBuild where
  current_offset := s.current_offset + size
  current_dts := s.current_dts + samples
  index_entries := s.index_entries ++ [s.entry size]

/-- The parts of a chunk, where `room` entries are left of the total; and whether the function goes on. The
unsigned `chunk_samples` wraps around when the last frame is broken. -/
def parts : ℕ → ℕ → PartBuild → Bool × PartBuild
  | 0, chunk_samples, s => (decide (chunk_samples = 0), s)
  | room + 1, chunk_samples, s =>
    if chunk_samples = 0 then (true, s)
    else
      match t.part chunk_samples with
      | none => (false, s)
      | some (samples, size) =>
        if 0x3FFFFFFF < size then (false, s)
        else parts room ((chunk_samples + 2 ^ 32 - samples) % 2 ^ 32) (s.add samples size)

/-- At most one entry of `stsc` on. -/
def advanceOne (i : ℕ) : List MOVStsc → List MOVStsc
  | e :: e' :: es => if (i : ℤ) + 1 = e'.first then e' :: es else e :: e' :: es
  | es => es

/-- The chunks from `i` on, part by part. -/
def chunkParts (total : ℕ) : List ℤ → ℕ → List MOVStsc → PartBuild → PartBuild
  | [], _, _, s => s
  | offset :: offsets, i, stsc, s =>
    match advanceOne i stsc with
    | [] => s
    | e :: es =>
      match t.parts (total - s.index_entries.length) e.count.toNat { s with current_offset := offset } with
      | (false, s) => s
      | (true, s) => chunkParts total offsets (i + 1) (e :: es) s

end MOVTables

def mov_build_index (t : MOVTables) : Index :=
  if t.Uncompressed then
    match t.totalParts t.stsc_data 0 with
    | none => []
    | some total => if maxIndexEntries ≤ total then [] else (t.chunkParts total t.chunk_offsets 0 t.stsc_data {}).index_entries
  else if t.sample_count = 0 ∨ maxIndexEntries ≤ t.sample_count then []
  else
    (t.chunks t.chunk_offsets 0 t.stsc_data
      { dts := { stts_data := t.stts_data, current_dts := -t.dts_shift, last_dts := -t.dts_shift }
        stsz_sample_size := t.stsz_sample_size }).index_entries

/-! ### The index is sorted -/

/-- The durations that a clock will use are not zero. -/
structure DtsClock.Forward (s : DtsClock) : Prop where
  last : s.last_dts = s.current_dts
  duration : ∀ r ∈ s.stts_data, r.2 ≠ 0
  index : s.stts_index < s.stts_data.length

/-- Every sample is later than the one before. -/
theorem DtsClock.Forward.tick {s : DtsClock} (h : s.Forward) : s.tick.Forward ∧ s.current_dts < s.tick.current_dts := by
  have hrun : (s.stts_data[s.stts_index]?).getD (0, 0) ∈ s.stts_data := by
    rw [List.getElem?_eq_getElem h.index]
    exact List.getElem_mem _
  have hne := h.duration _ hrun
  have hlast := h.last
  unfold DtsClock.tick
  dsimp only
  generalize (s.stts_data[s.stts_index]?).getD (0, 0) = run at hne ⊢
  refine ⟨⟨rfl, fun r hr => ?_, ?_⟩, ?_⟩
  · rcases List.mem_or_eq_of_mem_set hr with hr | rfl
    · exact h.duration r hr
    · dsimp only
      split_ifs <;> omega
  · rw [List.length_set]
    have := h.index
    dsimp only
    split_ifs <;> omega
  · split_ifs <;> omega

theorem Index.Sorted.concat {es : Index} (h : es.Sorted) {f : AVIndexEntry}
    (hf : ∀ e ∈ es, e.timestamp < f.timestamp) : Index.Sorted (es ++ [f]) :=
  List.pairwise_append.mpr ⟨h, List.pairwise_singleton _ _, fun e he _ hg => List.mem_singleton.mp hg ▸ hf e he⟩

namespace MOVTables
variable {t : MOVTables} {s s' : IndexBuild}

/-- The entries so far are sorted and before the sample that comes next. -/
structure Sorts (s : IndexBuild) : Prop where
  dts : s.dts.Forward
  sorted : s.index_entries.Sorted
  before : ∀ e ∈ s.index_entries, e.timestamp < s.dts.current_dts

theorem Sorts.sample (h : Sorts s) {id : ℤ} {first : Bool} (hs : t.sample id first s = some s') : Sorts s' := by
  obtain ⟨hruns, hlt⟩ := h.dts.tick
  unfold MOVTables.sample at hs
  by_cases h1 : t.sample_count ≤ s.current_sample
  · rw [if_pos h1] at hs
    cases hs
  · by_cases h2 : t.kept id ∧ 0x3FFFFFFF < t.sampleSize s
    · rw [if_neg h1, if_pos h2] at hs
      cases hs
    · rw [if_neg h1, if_neg h2] at hs
      cases hs
      by_cases hk : t.kept id
      · simp only [if_pos hk]
        refine ⟨hruns, h.sorted.concat h.before, fun e he => ?_⟩
        · rcases List.mem_append.mp he with he | he
          · exact (h.before e he).trans hlt
          · rw [List.mem_singleton.mp he]
            exact hlt
      · simp only [if_neg hk]
        exact ⟨hruns, h.sorted, fun e he => (h.before e he).trans hlt⟩

theorem Sorts.samples {n : ℕ} {id : ℤ} {first : Bool} (h : Sorts s) : Sorts (t.samples id n first s).2 := by
  induction n generalizing first s with
  | zero => exact h
  | succ n ih =>
    unfold MOVTables.samples
    rcases hs : t.sample id first s with _ | s'
    · exact h
    · exact ih (h.sample hs)

theorem Sorts.chunks {offsets : List ℤ} {i : ℕ} {stsc : List MOVStsc} (h : Sorts s) :
    Sorts (t.chunks offsets i stsc s) := by
  induction offsets generalizing i stsc s with
  | nil => exact h
  | cons offset offsets ih =>
    unfold MOVTables.chunks
    split
    · exact h
    · have hc : ∀ next count, Sorts (t.startChunk offset next count s) := fun _ _ => ⟨h.dts, h.sorted, h.before⟩
      split <;> rename_i r he
      · have hr : _ = r := congrArg Prod.snd he
        exact hr ▸ (hc _ _).samples
      · have hr : _ = r := congrArg Prod.snd he
        exact ih (hr ▸ (hc _ _).samples)

theorem part_pos {n samples size : ℕ} (hn : n ≠ 0) (h : t.part n = some (samples, size)) : 0 < samples := by
  unfold part at h
  split_ifs at h with h1 h2 h3 <;> cases h
  · omega
  · have hw : 0 < t.wholeFrames :=
      Nat.mul_pos (Nat.div_pos (by omega) (by omega)) (by omega)
    exact lt_min hw (Nat.pos_of_ne_zero hn)
  · exact lt_min (by decide) (Nat.pos_of_ne_zero hn)

/-- The entries so far are sorted and before the part that comes next. -/
structure PartSorts (s : PartBuild) : Prop where
  sorted : s.index_entries.Sorted
  before : ∀ e ∈ s.index_entries, e.timestamp < s.current_dts

theorem PartSorts.add {s : PartBuild} (h : PartSorts s) {samples size : ℕ} (hs : 0 < samples) :
    PartSorts (s.add samples size) := by
  have hlt : s.current_dts < (s.add samples size).current_dts := by
    dsimp only [PartBuild.add]
    omega
  refine ⟨h.sorted.concat h.before, fun e he => ?_⟩
  rcases List.mem_append.mp he with he | he
  · exact (h.before e he).trans hlt
  · rw [List.mem_singleton.mp he]
    exact hlt

theorem PartSorts.parts {room n : ℕ} {s : PartBuild} (h : PartSorts s) : PartSorts (t.parts room n s).2 := by
  induction room generalizing n s with
  | zero => exact h
  | succ room ih =>
    unfold MOVTables.parts
    split_ifs with hn
    · exact h
    · rcases hp : t.part n with _ | ⟨samples, size⟩ <;> dsimp only
      · exact h
      · split_ifs
        · exact h
        · exact ih (h.add (part_pos hn hp))

theorem PartSorts.chunkParts {total : ℕ} {offsets : List ℤ} {i : ℕ} {stsc : List MOVStsc} {s : PartBuild}
    (h : PartSorts s) : PartSorts (t.chunkParts total offsets i stsc s) := by
  induction offsets generalizing i stsc s with
  | nil => exact h
  | cons offset offsets ih =>
    unfold MOVTables.chunkParts
    split
    · exact h
    · have hc : PartSorts { s with current_offset := offset } := ⟨h.sorted, h.before⟩
      split <;> rename_i r he
      · have hr : _ = r := congrArg Prod.snd he
        exact hr ▸ hc.parts
      · have hr : _ = r := congrArg Prod.snd he
        exact ih (hr ▸ hc.parts)

end MOVTables

namespace MOVTables
variable (t : MOVTables)

/-- The decoding time of the sample `k`. -/
def dts : ℕ → ℤ
  | 0 => -t.dts_shift
  | k + 1 => dts k + (t.stts_data.at k).getD 0

def size (k : ℕ) : ℕ := if 0 < t.stsz_sample_size then t.stsz_sample_size else (t.sample_sizes[k]?).getD 0

/-- Samples are counted from 1 in the table of key frames; without a table all are key frames. -/
def key (k : ℕ) : Bool := decide (t.keyframes = [] ∨ (k + 1 : ℤ) ∈ t.keyframes)

/-- The number of samples since the last key frame. -/
def distance : ℕ → ℕ
  | 0 => 0
  | k + 1 => if t.key (k + 1) then 0 else distance k + 1

/-- The samples of chunk `i`, counted from 0: those of the last entry that starts at or before it. -/
def chunkSize (i : ℕ) : ℕ :=
  (((t.stsc_data.filter fun e => decide (e.first ≤ (i : ℤ) + 1)).getLast?).map fun e => e.count.toNat).getD 0

/-- The positions of `n` samples of a chunk, from the sample `k` at `offset` on: one after the other. -/
def row : ℤ → ℕ → ℕ → List ℤ
  | _, _, 0 => []
  | offset, k, n + 1 => offset :: row (offset + t.size k) (k + 1) n

/-- The positions of the samples of chunks, from the sample `k` on. -/
def positions : List (ℤ × ℕ) → ℕ → List ℤ
  | [], _ => []
  | (offset, n) :: cs, k => t.row offset k n ++ positions cs (k + n)

/-- The sample `k` at the position `pos`. -/
def sampleAt (pos : ℤ) (k : ℕ) : AVIndexEntry :=
  { pos := pos, timestamp := t.dts k, size := int30 (t.size k), min_distance := t.distance k
    flags := if t.key k then AVINDEX_KEYFRAME else 0 }

/-- The samples at the positions `P`. -/
def table (P : List ℤ) : Index := P.zipIdx.map fun c => t.sampleAt c.1 c.2

/-- The samples that the tables describe. -/
def sampleTable : Index :=
  t.table ((t.positions (t.chunk_offsets.zipIdx.map fun c => (c.1, t.chunkSize c.2)) 0).take t.sample_count)

/-- The tables of a track with one description, sync samples in order and a duration for each sample, that is not
uncompressed audio. -/
structure Plain : Prop where
  uncompressed : ¬ t.Uncompressed
  stts : t.stts_data.Positive ∧ t.sample_count ≤ t.stts_data.total ∧ ∀ r ∈ t.stts_data, 0 < r.2
  stsc : StscValid 0 t.stsc_data ∧ (t.stsc_data.head?).map (·.first) = some 1
  stsz : t.stsz_sample_size = 0 ∨ t.sample_size = t.stsz_sample_size
  size : ∀ k, t.size k ≤ 0x3FFFFFFF
  stss : t.keyframe_absent = false ∧ t.keyframes.Pairwise (· < ·) ∧ ∀ k ∈ t.keyframes, 0 < k
  none : t.stps_data = [] ∧ t.rap_group = [] ∧ t.pseudo_stream_id = -1
  count : t.sample_count < maxIndexEntries

/-- The clock of the decoding time shows the time of the sample `k`. -/
structure DtsAt (s : DtsClock) (k : ℕ) : Prop where
  stts_data : s.stts_data = t.stts_data
  current_dts : s.current_dts = t.dts k
  last_dts : s.last_dts = t.dts k
  dts_correction : s.dts_correction = 0
  located : k < t.stts_data.total → t.stts_data.Located ⟨s.stts_index, s.stts_sample⟩ k

/-- The key frames behind the cursor are before the sample `k`, and the one at it is not, unless it is the last. -/
structure KeyAt (s : KeyClock) (k : ℕ) : Prop where
  index : t.keyframes ≠ [] → s.stss_index < t.keyframes.length
  behind : ∀ j f, j < s.stss_index → t.keyframes[j]? = some f → f ≤ k
  ahead : ∀ f, t.keyframes[s.stss_index]? = some f → k < f ∨ s.stss_index + 1 = t.keyframes.length
  distance : 0 < k → s.distance = t.distance (k - 1) + 1
  start : k = 0 → s.distance = 0

variable {t}

theorem DtsAt.tick (h : t.Plain) {s : DtsClock} {k : ℕ} (hs : t.DtsAt s k) (hk : k < t.sample_count) :
    t.DtsAt s.tick (k + 1) := by
  obtain ⟨hp, hcount, hpos⟩ := h.stts
  have hloc := hs.located (by omega)
  have hlt := hloc.index_lt (by omega)
  have hval := hloc.value_eq
  unfold Runs.value at hval
  dsimp only at hlt hval
  have hget := List.getElem?_eq_getElem hlt
  rw [hget] at hval
  have hd : 0 < t.stts_data[s.stts_index].2 := hpos _ (List.getElem_mem hlt)
  have hdts : t.dts (k + 1) = t.dts k + t.stts_data[s.stts_index].2 := by
    rw [dts, ← hval]
    rfl
  have hstep := hloc.step hp
  simp only [Runs.step, hget] at hstep
  unfold DtsClock.tick
  simp only [hs.stts_data, hs.dts_correction, hs.current_dts, hs.last_dts, hget, Option.getD_some,
    if_neg (not_lt.mpr hd.le), true_or, if_true, add_zero]
  refine ⟨List.set_getElem_self hlt, hdts.symm, hdts.symm, rfl, fun hk1 => ?_⟩
  dsimp only
  by_cases hfull : t.stts_data[s.stts_index].1 = s.stts_sample + 1
  · rw [if_pos hfull] at hstep
    have hnext : s.stts_index + 1 < t.stts_data.length := by
      by_contra hge
      have := hloc.total_eq (show s.stts_index + 1 = _ by omega) hget hfull
      omega
    rw [if_pos ⟨hnext, hfull.symm⟩, if_pos ⟨hnext, hfull.symm⟩]
    exact hstep
  · rw [if_neg hfull] at hstep
    have hn : ¬ (s.stts_index + 1 < t.stts_data.length ∧ s.stts_sample + 1 = t.stts_data[s.stts_index].1) :=
      fun hc => hfull hc.2.symm
    rw [if_neg hn, if_neg hn]
    exact hstep

theorem mark_eq (h : t.Plain) (s : KeyClock) (k : ℕ) (first : Bool) : t.mark s k first =
    (decide (t.keyframes = [] ∨ t.keyframes[s.stss_index]? = some (k + 1 : ℤ)),
      { s with stss_index := if t.keyframes[s.stss_index]? = some (k + 1 : ℤ) ∧ s.stss_index + 1 < t.keyframes.length
                 then s.stss_index + 1 else s.stss_index
               distance := if t.keyframes = [] ∨ t.keyframes[s.stss_index]? = some (k + 1 : ℤ) then 0
                 else s.distance }) := by
  obtain ⟨habs, -, hpos⟩ := h.stss
  obtain ⟨hstps, hrap, -⟩ := h.none
  have hoff : t.keyframes ≠ [] → t.key_off = 1 := by
    intro hne
    obtain ⟨f, fs, hf⟩ := List.exists_cons_of_ne_nil hne
    have := hpos f (by rw [hf]; exact List.mem_cons_self)
    unfold key_off
    rw [hf, if_pos (.inl ⟨f, rfl, this⟩)]
  have hiff : (t.keyframes = [] ∨ t.keyframes[s.stss_index]? = some (k + t.key_off)) ↔
      (t.keyframes = [] ∨ t.keyframes[s.stss_index]? = some (k + 1 : ℤ)) := by
    by_cases hne : t.keyframes = []
    · simp [hne]
    · rw [hoff hne]
  have hlen : (t.keyframes = [] ∨ t.keyframes[s.stss_index]? = some (k + 1 : ℤ)) ∧
      s.stss_index + 1 < t.keyframes.length ↔
        t.keyframes[s.stss_index]? = some (k + 1 : ℤ) ∧ s.stss_index + 1 < t.keyframes.length := by
    constructor
    · rintro ⟨hn | he, hl⟩
      · rw [hn] at hl
        exact absurd hl (Nat.not_lt_zero _)
      · exact ⟨he, hl⟩
    · exact fun hc => ⟨.inr hc.1, hc.2⟩
  have hval : t.rap_group.value s.rap_group = none ∧ t.rap_group.step s.rap_group = s.rap_group := by
    rw [hrap]
    exact ⟨rfl, rfl⟩
  unfold mark
  simp only [habs, hstps, hval.1, hval.2, hiff, true_and, hlen]
  simp

/-- The cursor is at the sample `k` if and only if the sample is in the table. -/
theorem KeyAt.key_iff (h : t.Plain) {s : KeyClock} {k : ℕ} (hs : t.KeyAt s k) :
    (t.keyframes = [] ∨ t.keyframes[s.stss_index]? = some (k + 1 : ℤ)) ↔ t.key k = true := by
  unfold key
  rw [decide_eq_true_iff]
  refine or_congr_right ⟨fun he => List.mem_of_getElem? he, fun hm => ?_⟩
  obtain ⟨j, hj⟩ := List.mem_iff_getElem?.mp hm
  have hjl := (List.getElem?_eq_some_iff.mp hj).1
  rcases Nat.lt_trichotomy j s.stss_index with hlt | rfl | hgt
  · have := hs.behind j _ hlt hj
    omega
  · exact hj
  · -- the table increases
    have hi : s.stss_index < t.keyframes.length := by omega
    have hlt := List.pairwise_iff_getElem.mp h.stss.2.1 s.stss_index j hi hjl hgt
    have hjv := (List.getElem?_eq_some_iff.mp hj).2
    rcases hs.ahead _ (List.getElem?_eq_getElem hi) with ha | ha
    · omega
    · omega

theorem KeyAt.mark (h : t.Plain) {s : KeyClock} {k : ℕ} (hs : t.KeyAt s k) (first : Bool) :
    (t.mark s k first).1 = t.key k ∧ (t.mark s k first).2.distance = t.distance k ∧
      t.KeyAt { (t.mark s k first).2 with distance := (t.mark s k first).2.distance + 1 } (k + 1) := by
  have hkey := hs.key_iff h
  rw [mark_eq h]
  have hdist : (if t.keyframes = [] ∨ t.keyframes[s.stss_index]? = some (k + 1 : ℤ) then 0 else s.distance) =
      t.distance k := by
    rcases k with _ | k
    · rw [hs.start rfl]
      simp [MOVTables.distance]
    · rw [if_congr hkey rfl rfl, hs.distance (Nat.succ_pos k), Nat.add_sub_cancel, MOVTables.distance]
  refine ⟨?_, hdist, ?_⟩
  · dsimp only
    rw [Bool.eq_iff_iff, decide_eq_true_iff]
    exact hkey
  · refine ⟨fun hne => ?_, fun j f hj hf => ?_, fun f hf => ?_, fun _ => ?_, fun h0 => absurd h0 (Nat.succ_ne_zero k)⟩
    · have := hs.index hne
      dsimp only
      split_ifs <;> omega
    · dsimp only at hj
      push_cast
      split_ifs at hj with hc
      · rcases Nat.lt_succ_iff_lt_or_eq.mp hj with hj | rfl
        · have := hs.behind j f hj hf
          omega
        · have := Option.some.inj (hc.1.symm.trans hf)
          omega
      · have := hs.behind j f hj hf
        omega
    · dsimp only at hf ⊢
      push_cast
      split_ifs at hf ⊢ with hc
      · obtain ⟨hc, hl⟩ := hc
        obtain ⟨h1, hv⟩ := List.getElem?_eq_some_iff.mp hc
        obtain ⟨h2, rfl⟩ := List.getElem?_eq_some_iff.mp hf
        have := List.pairwise_iff_getElem.mp h.stss.2.1 s.stss_index (s.stss_index + 1) h1 h2 (Nat.lt_succ_self _)
        omega
      · rcases hs.ahead f hf with ha | ha
        · by_cases he : f = k + 1
          · rw [he] at hf
            have hl : ¬ s.stss_index + 1 < t.keyframes.length := fun hl => hc ⟨hf, hl⟩
            have := (List.getElem?_eq_some_iff.mp hf).1
            omega
          · omega
        · exact .inr ha
    · dsimp only
      rw [hdist, Nat.add_sub_cancel]

theorem table_append (P : List ℤ) (p : ℤ) : t.table (P ++ [p]) = t.table P ++ [t.sampleAt p P.length] := by
  unfold table
  rw [List.zipIdx_append, List.map_append]
  simp

theorem length_row (offset : ℤ) (k n : ℕ) : (t.row offset k n).length = n := by
  induction n generalizing offset k with
  | zero => rfl
  | succ n ih => rw [row, List.length_cons, ih]

/-- The loop has built the samples at the positions `P`. -/
structure BuiltAt (t : MOVTables) (P : List ℤ) (s : IndexBuild) : Prop where
  current : s.current_sample = P.length
  dts : t.DtsAt s.dts P.length
  key : t.KeyAt s.key P.length
  stsz : s.stsz_sample_size = t.stsz_sample_size
  entries : s.index_entries = t.table P
  bound : P.length ≤ t.sample_count

theorem BuiltAt.sampleSize {P : List ℤ} {s : IndexBuild} (hs : t.BuiltAt P s) : t.sampleSize s = t.size P.length := by
  unfold MOVTables.sampleSize MOVTables.size
  rw [hs.stsz, hs.current]

theorem BuiltAt.sample (h : t.Plain) {P : List ℤ} {s : IndexBuild} (hs : t.BuiltAt P s) (hk : P.length < t.sample_count)
    (id : ℤ) (first : Bool) : ∃ s', t.sample id first s = some s' ∧ t.BuiltAt (P ++ [s.current_offset]) s' ∧
      s'.current_offset = s.current_offset + t.size P.length := by
  have hkept : t.kept id := .inl h.none.2.2
  have hsize := hs.sampleSize
  have hmax := h.size P.length
  obtain ⟨hm1, hm2, hm3⟩ := hs.key.mark h first
  have he : t.entry first s = t.sampleAt s.current_offset P.length := by
    unfold entry sampleAt
    dsimp only
    rw [hs.current, hm1, hm2, hsize, hs.dts.current_dts]
  unfold MOVTables.sample
  rw [if_neg (by rw [hs.current]; omega), if_neg (by rw [hsize]; omega), if_pos hkept]
  refine ⟨_, rfl, ⟨?_, ?_, ?_, hs.stsz, ?_, ?_⟩, by rw [hsize]⟩
  · rw [List.length_append, hs.current]
    rfl
  · rw [List.length_append]
    exact hs.dts.tick h hk
  · rw [List.length_append, hs.current]
    exact hm3
  · dsimp only
    rw [he, hs.entries, table_append]
  · rw [List.length_append]
    exact hk

/-- The samples of a chunk, as far as there are any. -/
theorem BuiltAt.samples (h : t.Plain) {P : List ℤ} {s : IndexBuild} (hs : t.BuiltAt P s) (id : ℤ) (n : ℕ) (first : Bool) :
    (t.samples id n first s).1 = decide (P.length + n ≤ t.sample_count) ∧
      t.BuiltAt ((P ++ t.row s.current_offset P.length n).take t.sample_count) (t.samples id n first s).2 := by
  induction n generalizing P s first with
  | zero =>
    have hb := hs.bound
    refine ⟨(decide_eq_true (by omega)).symm, ?_⟩
    rw [row, List.append_nil, List.take_of_length_le hb]
    exact hs
  | succ n ih =>
    rcases hs.bound.lt_or_eq with hk | hk
    · obtain ⟨s', hs', hb, ho⟩ := hs.sample h hk id first
      obtain ⟨h1, h2⟩ := ih hb false
      rw [List.length_append, List.length_singleton] at h1 h2
      unfold MOVTables.samples
      rw [hs']
      refine ⟨h1.trans (decide_eq_decide.mpr (by omega)), ?_⟩
      rw [ho, List.append_assoc] at h2
      exact h2
    · have hnone : t.sample id first s = none := by
        unfold MOVTables.sample
        rw [if_pos (by rw [hs.current]; omega)]
      unfold MOVTables.samples
      rw [hnone]
      refine ⟨(decide_eq_false (by omega)).symm, ?_⟩
      rw [← hk, List.take_left]
      exact hs

/-- Before the chunk `i`: the entry `e` has started, the entries after it have not. -/
def Starts (t : MOVTables) (i : ℕ) (stsc : List MOVStsc) : Prop :=
  ∃ (pre : List MOVStsc) (e : MOVStsc) (es : List MOVStsc), stsc = e :: es ∧ t.stsc_data = pre ++ e :: es ∧
    e.first ≤ i + 1 ∧ ∀ f ∈ es, (i : ℤ) < f.first

/-- No entry after `e` has started with the chunk `i`: this chunk has the count of `e`. -/
theorem chunkSize_eq {i : ℕ} {pre es : List MOVStsc} {e : MOVStsc} (hd : t.stsc_data = pre ++ e :: es)
    (he : e.first ≤ i + 1) (hes : ∀ f ∈ es, (i : ℤ) + 1 < f.first) : e.count.toNat = t.chunkSize i := by
  have hnil : (es.filter fun e => decide (e.first ≤ (i : ℤ) + 1)) = [] := by
    rw [List.filter_eq_nil_iff]
    intro f hf
    have := hes f hf
    rw [decide_eq_true_iff]
    omega
  unfold chunkSize
  rw [hd, List.filter_append, List.filter_cons_of_pos (by simpa using he), hnil, List.getLast?_concat]
  rfl

theorem Starts.advance (h : t.Plain) {i : ℕ} {stsc : List MOVStsc} (hs : t.Starts i stsc) :
    ∃ e es, MOVTables.advance i stsc = e :: es ∧ e.count.toNat = t.chunkSize i ∧ t.Starts (i + 1) (e :: es) := by
  obtain ⟨pre, e, es, rfl, hd, he, hes⟩ := hs
  have hstop : (∀ f ∈ es, (i : ℤ) + 1 < f.first) → e.count.toNat = t.chunkSize i ∧ t.Starts (i + 1) (e :: es) := by
    intro hafter
    refine ⟨chunkSize_eq hd he hafter, pre, e, es, rfl, hd, by push_cast; omega, fun f hf => ?_⟩
    have := hafter f hf
    push_cast
    omega
  induction es generalizing pre e with
  | nil =>
    obtain ⟨h1, h2⟩ := hstop fun f hf => absurd hf List.not_mem_nil
    exact ⟨e, [], rfl, h1, h2⟩
  | cons e' es ih =>
    unfold MOVTables.advance
    have hsort := (List.pairwise_append.mp (hd ▸ h.stsc.1.sorted)).2.1
    have hrest := (List.pairwise_cons.mp (List.pairwise_cons.mp hsort).2).1
    by_cases hnext : (i : ℤ) + 1 = e'.first
    · have hd' : t.stsc_data = (pre ++ [e]) ++ e' :: es := by
        rw [hd, List.append_assoc]
        rfl
      rw [if_pos hnext]
      refine ih (pre ++ [e]) e' hd' hnext.ge
        (fun f hf => hes f (List.mem_cons_of_mem _ hf)) fun hafter => ?_
      refine ⟨chunkSize_eq hd' hnext.ge hafter, pre ++ [e], e', es, rfl, hd', by push_cast; omega, fun f hf => ?_⟩
      have := hafter f hf
      push_cast
      omega
    · rw [if_neg hnext]
      have he' := hes e' List.mem_cons_self
      obtain ⟨h1, h2⟩ := hstop (List.forall_mem_cons.mpr ⟨by omega, fun f hf => by have := hrest f hf; omega⟩)
      exact ⟨e, e' :: es, rfl, h1, h2⟩

theorem checkSize_eq (h : t.Plain) (offset next_offset count : ℤ) :
    t.checkSize offset next_offset count t.stsz_sample_size = t.stsz_sample_size := by
  unfold checkSize
  rcases h.stsz with h0 | h0
  · rw [h0]
    simp
  · rw [h0]
    simp

/-- The chunks from `i` on. -/
theorem BuiltAt.chunks (h : t.Plain) {offsets : List ℤ} {i : ℕ} {stsc : List MOVStsc} {P : List ℤ} {s : IndexBuild}
    (hs : t.BuiltAt P s) (hst : t.Starts i stsc) : (t.chunks offsets i stsc s).index_entries =
      t.table ((P ++ t.positions ((offsets.zipIdx i).map fun c => (c.1, t.chunkSize c.2)) P.length).take
        t.sample_count) := by
  induction offsets generalizing i stsc P s with
  | nil =>
    unfold MOVTables.chunks
    rw [hs.entries, List.zipIdx_nil, List.map_nil, positions, List.append_nil, List.take_of_length_le hs.bound]
  | cons offset offsets ih =>
    obtain ⟨e, es, hadv, hcount, hst'⟩ := hst.advance h
    unfold MOVTables.chunks
    rw [hadv]
    dsimp only
    generalize offsets.head?.getD INT64_MAX = next_offset
    have hc : t.BuiltAt P (t.startChunk offset next_offset e.count s) := by
      refine ⟨hs.current, hs.dts, hs.key, ?_, hs.entries, hs.bound⟩
      unfold startChunk
      dsimp only
      rw [hs.stsz, checkSize_eq h]
    obtain ⟨h1, h2⟩ := hc.samples h e.id e.count.toNat (i == 0)
    have ho : (t.startChunk offset next_offset e.count s).current_offset = offset := rfl
    rw [ho, hcount] at h2
    rw [hcount] at h1 ⊢
    rw [List.zipIdx_cons, List.map_cons, positions]
    rcases hr : t.samples e.id (t.chunkSize i) (i == 0) (t.startChunk offset next_offset e.count s) with ⟨_ | _, s'⟩ <;>
      rw [hr] at h1 h2
    · -- the samples are at their end
      have hlen : t.sample_count < P.length + t.chunkSize i := by
        by_contra hle
        rw [decide_eq_true (not_lt.mp hle)] at h1
        cases h1
      have hrow : t.sample_count ≤ (P ++ t.row offset P.length (t.chunkSize i)).length := by
        rw [List.length_append, length_row]
        exact hlen.le
      rw [h2.entries, ← List.append_assoc, List.take_append_of_le_length hrow]
    · have hlen : P.length + t.chunkSize i ≤ t.sample_count := of_decide_eq_true h1.symm
      rw [List.take_of_length_le (by rw [List.length_append, length_row]; exact hlen)] at h2
      have hih := ih h2 hst'
      rw [List.length_append, length_row, List.append_assoc] at hih
      exact hih

end MOVTables

/-- For a track with one description, sync samples in order and a duration for each sample, the index is what the
tables say: the samples of each chunk one after the other from its offset on, each with its decoding time, its size
and whether it is a key frame. -/
theorem mov_build_index_eq {t : MOVTables} (h : t.Plain) : mov_build_index t = t.sampleTable := by
  have hhead : t.sample_count = 0 → t.sampleTable = [] := by
    intro h0
    unfold MOVTables.sampleTable
    rw [h0]
    rfl
  unfold mov_build_index
  rw [if_neg h.uncompressed]
  split_ifs with h0
  · rcases h0 with h0 | h0
    · exact (hhead h0).symm
    · exact absurd h0 (not_le.mpr h.count)
  · obtain ⟨e, he, hfirst⟩ := Option.map_eq_some_iff.mp h.stsc.2
    obtain ⟨es, hst⟩ := List.head?_eq_some_iff.mp he
    have hs : t.BuiltAt [] { dts := { stts_data := t.stts_data, current_dts := -t.dts_shift, last_dts := -t.dts_shift }
                             stsz_sample_size := t.stsz_sample_size } := by
      refine ⟨rfl, ⟨rfl, rfl, rfl, rfl, fun _ => Runs.located_start h.stts.1⟩, ⟨fun hne => List.length_pos_iff.mpr hne,
        fun j f hj => absurd hj (Nat.not_lt_zero j), fun f hf => .inl ?_, fun h => absurd h (lt_irrefl 0), fun _ => rfl⟩,
        rfl, rfl, Nat.zero_le _⟩
      exact h.stss.2.2 f (List.mem_of_getElem? hf)
    have hS : t.Starts 0 t.stsc_data := by
      refine ⟨[], e, es, hst, hst, by rw [hfirst]; rfl, fun f hf => ?_⟩
      have := (List.pairwise_cons.mp (hst ▸ h.stsc.1.sorted)).1 f hf
      push_cast
      omega
    exact hs.chunks h hS

/-- Two chunks of two samples and one, with a key frame in each. -/
def movTables : MOVTables where
  chunk_offsets := [40, 100]
  stts_data := [(2, 40), (1, 20)]
  stsc_data := [⟨1, 2, 1⟩, ⟨2, 1, 1⟩]
  sample_count := 3
  sample_sizes := [5, 6, 7]
  keyframes := [1, 3]

theorem mov_build_index_eq_movTables : mov_build_index movTables =
    [⟨40, 0, 1, 5, 0⟩, ⟨45, 40, 0, 6, 1⟩, ⟨100, 80, 1, 7, 0⟩] := by
  have hsize : ∀ k, movTables.size k ≤ 0x3FFFFFFF
    | 0 | 1 | 2 => by decide
    | _ + 3 => Nat.zero_le _
  have h : movTables.Plain :=
    ⟨by decide, by refine ⟨?_, by decide, ?_⟩ <;> simp [movTables, Runs.Positive],
      ⟨⟨by decide, by decide, by decide, by decide⟩, rfl⟩, .inl rfl, hsize, by refine ⟨rfl, ?_, ?_⟩ <;> decide,
      ⟨rfl, rfl, rfl⟩, by decide⟩
  rw [mov_build_index_eq h]
  decide +kernel

/-- Uncompressed audio: a chunk of 1500 samples has two parts. -/
example : mov_build_index { movTables with
    audio := true, stts_data := [(1501, 1)], stsc_data := [⟨1, 1500, 1⟩, ⟨2, 1, 1⟩], sample_size := 4 } =
      [⟨40, 0, 1, 4096, 0⟩, ⟨4136, 1024, 1, 1904, 0⟩, ⟨100, 1500, 1, 4, 0⟩] := by decide +kernel

end LibAV
