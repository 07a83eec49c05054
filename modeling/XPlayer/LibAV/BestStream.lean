import Mathlib.Data.List.MinMax
import Mathlib.Data.Prod.Lex
import XPlayer.Demux
import XPlayer.LibAV.Decode

/-!
# The stream to play

`av_find_best_stream` goes through the streams of a file, or of the program that has the related stream, and keeps the
best one of a type: the dispositions count first, then up to five frames seen while probing, the bit rate, and all
frames seen. What it finds is the first candidate with the largest of these keys (`find_best_stream_eq`). Its branch
that tries all streams when a program has no candidate stands behind the `continue`s, where `ret` is an index: it is
never taken (`loop_eq`), and a program without a candidate gives an error. `FFDemux` gets the best streams of a file
(`paras_of_best`).
-/

namespace LibAV
open XPlayer (AVMediaType)

def AVERROR.STREAM_NOT_FOUND : AVERROR := .other 1381258232
def AVERROR.DECODER_NOT_FOUND : AVERROR := .other 1128613112

def AV_DISPOSITION_DEFAULT : ℕ := 0x0001
def AV_DISPOSITION_HEARING_IMPAIRED : ℕ := 0x0080
def AV_DISPOSITION_VISUAL_IMPAIRED : ℕ := 0x0100

/-- A stream with what only `av_find_best_stream` reads; `bit_rate` is a field of `codecpar`. -/
structure StreamInfo extends XPlayer.AVStream where
  bit_rate : ℤ
  disposition : ℕ
  codec_info_nb_frames : ℤ
  deriving DecidableEq

def StreamInfo.dispositionScore (st : StreamInfo) : ℤ :=
  (if st.disposition &&& (AV_DISPOSITION_HEARING_IMPAIRED ||| AV_DISPOSITION_VISUAL_IMPAIRED) = 0 then 1 else 0) +
    if st.disposition &&& AV_DISPOSITION_DEFAULT = 0 then 0 else 1

/-- The variables of the loop; `C` are the decoders. -/
structure BestStream (C : Type) where
  ret : Except AVERROR ℕ := .error .STREAM_NOT_FOUND
  best_disposition : ℤ := -1
  best_multiframe : ℤ := -1
  best_bitrate : ℤ := -1
  best_count : ℤ := -1
  best_decoder : Option C := none

/-- A program is the list of its `stream_index`; `last` is the number of a program. -/
def av_find_program_from_stream (programs : List (List ℕ)) (last : Option ℕ) (s : ℕ) : Option (List ℕ) :=
  (programs.drop (last.elim 0 (· + 1))).find? fun p => s ∈ p

/-- The program that is searched instead of all streams. -/
def relatedProgram (programs : List (List ℕ)) (wanted_stream_nb related_stream : Option ℕ) : Option (List ℕ) :=
  match related_stream, wanted_stream_nb with
  | some r, none => av_find_program_from_stream programs none r
  | _, _ => none

section
variable {C : Type}
variable (type : AVMediaType) (wanted_stream_nb : Option ℕ) (find_decoder : Option (StreamInfo → Option C))

/-- The tests of a stream before that of its decoder. -/
def admitted (s : ℕ × StreamInfo) : Bool :=
  s.2.codecpar.codec_type = type && wanted_stream_nb.all (s.1 = ·) &&
    !(type = .audio && !(s.2.codecpar.channels ≠ 0 && s.2.codecpar.sample_rate ≠ 0))

/-- A turn of the loop for the stream `s.2` with the number `s.1`, and whether it gets past its `continue`s;
`find_decoder` is `none` if `decoder_ret` is null. -/
def BestStream.turn (b : BestStream C) (s : ℕ × StreamInfo) : BestStream C × Bool :=
  if admitted type wanted_stream_nb s = false then (b, false)
  else
    match find_decoder.map fun f => f s.2 with
    | some none =>
      match b.ret with
      | .error _ => ({ b with ret := .error .DECODER_NOT_FOUND }, false)
      | .ok _ => (b, false)
    | decoder =>
      let disposition := s.2.dispositionScore
      let count := s.2.codec_info_nb_frames
      let bitrate := s.2.bit_rate
      let multiframe := min 5 count
      if disposition < b.best_disposition ∨
          b.best_disposition = disposition ∧ multiframe < b.best_multiframe ∨
          b.best_disposition = disposition ∧ b.best_multiframe = multiframe ∧ bitrate < b.best_bitrate ∨
          b.best_disposition = disposition ∧ b.best_multiframe = multiframe ∧ b.best_bitrate = bitrate ∧
            count ≤ b.best_count then (b, false)
      else
        ({ ret := .ok s.1, best_disposition := disposition, best_multiframe := multiframe, best_bitrate := bitrate
           best_count := count, best_decoder := decoder.join }, true)

/-- The loop over streams, those of a program or all. At the end of the body for the last stream of a program, where
nothing was found, it begins `again`. -/
def BestStream.loop (program : Bool) (again : BestStream C → BestStream C) :
    List (ℕ × StreamInfo) → BestStream C → BestStream C
  | [], b => b
  | s :: l, b =>
    let r := b.turn type wanted_stream_nb find_decoder s
    if r.2 ∧ program ∧ l = [] ∧ r.1.ret.toOption = none then again r.1 else loop program again l r.1

/-- The streams in the order of the loop, with their numbers. -/
def visited (streams : List StreamInfo) (program : Option (List ℕ)) : List (ℕ × StreamInfo) :=
  (program.getD (List.range streams.length)).filterMap fun i => (streams[i]?).map fun st => (i, st)

/-- The number of the stream, and its decoder. Trying all streams begins behind the first: `i = 0` is followed by
`i++`. -/
def av_find_best_stream (streams : List StreamInfo) (programs : List (List ℕ)) (related_stream : Option ℕ) :
    Except AVERROR ℕ × Option C :=
  let program := relatedProgram programs wanted_stream_nb related_stream
  let again := BestStream.loop type wanted_stream_nb find_decoder false id ((visited streams none).drop 1)
  let b := BestStream.loop type wanted_stream_nb find_decoder program.isSome again (visited streams program) {}
  (b.ret, b.best_decoder)

/-! ### The best candidate -/

/-- What is compared, in this order. -/
def StreamKey := ℤ ×ₗ ℤ ×ₗ ℤ ×ₗ ℤ

instance : LinearOrder StreamKey :=
  @Prod.Lex.instLinearOrder _ _ Int.instLinearOrder <|
    @Prod.Lex.instLinearOrder _ _ Int.instLinearOrder <|
      @Prod.Lex.instLinearOrder _ _ Int.instLinearOrder Int.instLinearOrder

def StreamInfo.key (st : StreamInfo) : StreamKey :=
  toLex (st.dispositionScore, toLex (min 5 st.codec_info_nb_frames, toLex (st.bit_rate, st.codec_info_nb_frames)))

/-- A stream that may be returned. -/
def candidate (s : ℕ × StreamInfo) : Bool :=
  admitted type wanted_stream_nb s && find_decoder.all fun f => (f s.2).isSome

/-- The variables when `s` is the best stream. -/
def BestStream.chosen (s : ℕ × StreamInfo) : BestStream C where
  ret := .ok s.1
  best_disposition := s.2.dispositionScore
  best_multiframe := min 5 s.2.codec_info_nb_frames
  best_bitrate := s.2.bit_rate
  best_count := s.2.codec_info_nb_frames
  best_decoder := find_decoder.bind fun f => f s.2

/-- The variables after the streams `l`. -/
def bestOf (l : List (ℕ × StreamInfo)) : BestStream C :=
  match (l.filter (candidate type wanted_stream_nb find_decoder)).argmax fun s => s.2.key with
  | some s => .chosen find_decoder s
  | none => { ret := .error (if l.any (admitted type wanted_stream_nb) then .DECODER_NOT_FOUND else .STREAM_NOT_FOUND) }

variable {type wanted_stream_nb find_decoder}

theorem StreamInfo.dispositionScore_nonneg (st : StreamInfo) : 0 ≤ st.dispositionScore := by
  unfold dispositionScore
  split_ifs <;> omega

/-- The comparison of the loop is that of the keys. -/
theorem key_lt_iff (s t : StreamInfo) : s.key < t.key ↔
    ¬ (t.dispositionScore < s.dispositionScore ∨
      s.dispositionScore = t.dispositionScore ∧ min 5 t.codec_info_nb_frames < min 5 s.codec_info_nb_frames ∨
      s.dispositionScore = t.dispositionScore ∧ min 5 s.codec_info_nb_frames = min 5 t.codec_info_nb_frames ∧
        t.bit_rate < s.bit_rate ∨
      s.dispositionScore = t.dispositionScore ∧ min 5 s.codec_info_nb_frames = min 5 t.codec_info_nb_frames ∧
        s.bit_rate = t.bit_rate ∧ t.codec_info_nb_frames ≤ s.codec_info_nb_frames) := by
  unfold StreamInfo.key
  change toLex (_, toLex (_, toLex (_, _))) < toLex (_, toLex (_, toLex (_, _))) ↔ _
  simp only [Prod.Lex.toLex_lt_toLex]
  generalize min 5 s.codec_info_nb_frames = m, min 5 t.codec_info_nb_frames = n
  omega

theorem turn_skip (b : BestStream C) {s : ℕ × StreamInfo} (h : admitted type wanted_stream_nb s = false) :
    (b.turn type wanted_stream_nb find_decoder s).1 = b :=
  congrArg Prod.fst (if_pos h)

theorem turn_candidate (b : BestStream C) {s : ℕ × StreamInfo}
    (h : candidate type wanted_stream_nb find_decoder s = true) :
    (b.turn type wanted_stream_nb find_decoder s).1 =
      if s.2.dispositionScore < b.best_disposition ∨
          b.best_disposition = s.2.dispositionScore ∧ min 5 s.2.codec_info_nb_frames < b.best_multiframe ∨
          b.best_disposition = s.2.dispositionScore ∧ b.best_multiframe = min 5 s.2.codec_info_nb_frames ∧
            s.2.bit_rate < b.best_bitrate ∨
          b.best_disposition = s.2.dispositionScore ∧ b.best_multiframe = min 5 s.2.codec_info_nb_frames ∧
            b.best_bitrate = s.2.bit_rate ∧ s.2.codec_info_nb_frames ≤ b.best_count then b
      else .chosen find_decoder s := by
  obtain ⟨ha, hd⟩ := Bool.and_eq_true_iff.mp h
  cases find_decoder with
  | none =>
    simp only [BestStream.turn, ha, Option.map_none, Option.join_none, Bool.true_eq_false, if_false, apply_ite Prod.fst]
    rfl
  | some f =>
    obtain ⟨c, hc⟩ := Option.isSome_iff_exists.mp hd
    simp only [BestStream.turn, BestStream.chosen, ha, Option.map_some, hc, Option.join_some, Option.bind_some,
      Bool.true_eq_false, if_false, apply_ite Prod.fst]

/-- The first candidate is taken: the dispositions count at least zero. -/
theorem turn_first (e : AVERROR) {s : ℕ × StreamInfo} (h : candidate type wanted_stream_nb find_decoder s = true) :
    (BestStream.turn type wanted_stream_nb find_decoder { ret := .error e } s).1 = .chosen find_decoder s := by
  have h0 := s.2.dispositionScore_nonneg
  rw [turn_candidate _ h]
  exact if_neg (by dsimp only; omega)

/-- A later candidate is taken if its key is larger. -/
theorem turn_chosen {t s : ℕ × StreamInfo} (h : candidate type wanted_stream_nb find_decoder s = true) :
    (BestStream.turn type wanted_stream_nb find_decoder (.chosen find_decoder t) s).1 =
      if t.2.key < s.2.key then .chosen find_decoder s else .chosen find_decoder t := by
  rw [turn_candidate _ h]
  simp only [key_lt_iff, ite_not]
  rfl

/-- A stream without a decoder only changes the error. -/
theorem turn_missing (b : BestStream C) {s : ℕ × StreamInfo} (ha : admitted type wanted_stream_nb s = true)
    (hd : (find_decoder.all fun f => (f s.2).isSome) = false) : (b.turn type wanted_stream_nb find_decoder s).1 =
      match b.ret with
      | .error _ => { b with ret := .error .DECODER_NOT_FOUND }
      | .ok _ => b := by
  cases find_decoder with
  | none => cases hd
  | some f =>
    have hf : f s.2 = none := Option.not_isSome_iff_eq_none.mp (by simpa using hd)
    simp only [BestStream.turn, ha, Option.map_some, hf, Bool.true_eq_false, if_false]
    cases b.ret <;> rfl

/-- At the end of the body a stream has been found. -/
theorem turn_found {b : BestStream C} {s : ℕ × StreamInfo} (h : (b.turn type wanted_stream_nb find_decoder s).2 = true) :
    (b.turn type wanted_stream_nb find_decoder s).1.ret = .ok s.1 := by
  unfold BestStream.turn at h ⊢
  by_cases ha : admitted type wanted_stream_nb s = false
  · rw [if_pos ha] at h
    cases h
  · rw [if_neg ha] at h ⊢
    split at h
    · split at h <;> cases h
    · dsimp only at h ⊢
      split_ifs at h ⊢
      rfl

theorem bestOf_snoc (l : List (ℕ × StreamInfo)) (s : ℕ × StreamInfo) :
    ((bestOf type wanted_stream_nb find_decoder l).turn type wanted_stream_nb find_decoder s).1 =
      bestOf type wanted_stream_nb find_decoder (l ++ [s]) := by
  unfold bestOf
  rw [List.filter_append, List.any_append]
  cases hc : candidate type wanted_stream_nb find_decoder s with
  | true =>
    rw [List.filter_cons_of_pos hc, List.filter_nil, List.argmax_concat]
    cases List.argmax (fun s => s.2.key) (l.filter (candidate type wanted_stream_nb find_decoder)) with
    | none => exact turn_first _ hc
    | some t =>
      rw [turn_chosen hc]
      by_cases hk : t.2.key < s.2.key
      · simp only [hk, if_true]
      · simp only [hk, if_false]
  | false =>
    rw [List.filter_cons_of_neg (by simp [hc]), List.filter_nil, List.append_nil]
    cases ha : admitted type wanted_stream_nb s with
    | false => simp only [turn_skip _ ha, List.any_cons, ha, List.any_nil, Bool.or_false]
    | true =>
      have hd : (find_decoder.all fun f => (f s.2).isSome) = false := by
        simpa only [candidate, ha, Bool.true_and] using hc
      rw [turn_missing _ ha hd]
      cases List.argmax (fun s => s.2.key) (l.filter (candidate type wanted_stream_nb find_decoder)) with
      | none => simp only [List.any_cons, ha, Bool.true_or, Bool.or_true, if_true]
      | some t => rfl

theorem foldl_turn (l : List (ℕ × StreamInfo)) :
    l.foldl (fun b s => (BestStream.turn type wanted_stream_nb find_decoder b s).1) {} =
      bestOf type wanted_stream_nb find_decoder l := by
  induction l using List.reverseRecOn with
  | nil => rfl
  | append_singleton l s ih => rw [List.foldl_append, List.foldl_cons, List.foldl_nil, ih, bestOf_snoc]

/-- The loop never begins again. -/
theorem loop_eq (program : Bool) (again : BestStream C → BestStream C) (l : List (ℕ × StreamInfo)) (b : BestStream C) :
    BestStream.loop type wanted_stream_nb find_decoder program again l b =
      l.foldl (fun b s => (BestStream.turn type wanted_stream_nb find_decoder b s).1) b := by
  induction l generalizing b with
  | nil => rfl
  | cons s l ih =>
    unfold BestStream.loop
    rw [if_neg, ih, List.foldl_cons]
    rintro ⟨hr, -, -, hn⟩
    rw [turn_found hr] at hn
    cases hn

/-- The first of the best streams is found, with its decoder. -/
theorem find_best_stream_eq (streams : List StreamInfo) (programs : List (List ℕ)) (related_stream : Option ℕ) :
    av_find_best_stream type wanted_stream_nb find_decoder streams programs related_stream =
      let l := visited streams (relatedProgram programs wanted_stream_nb related_stream)
      match (l.filter (candidate type wanted_stream_nb find_decoder)).argmax fun s => s.2.key with
      | some s => (.ok s.1, find_decoder.bind fun f => f s.2)
      | none =>
        (.error (if l.any (admitted type wanted_stream_nb) then .DECODER_NOT_FOUND else .STREAM_NOT_FOUND), none) := by
  simp only [av_find_best_stream, loop_eq, foldl_turn, bestOf]
  split
  · rfl
  · rfl

-- a program without a video stream: the other streams are not tried
example : (av_find_best_stream .video none (none : Option (StreamInfo → Option Unit))
    [⟨⟨⟨.video, 27, 0, 0, 0⟩, ⟨1, 25⟩, 25⟩, 0, 1, 25⟩, ⟨⟨⟨.audio, 86018, 2, 8000, 8⟩, ⟨1, 8000⟩, 8000⟩, 0, 1, 25⟩]
    [[1]] (some 1)).1 = .error .STREAM_NOT_FOUND := rfl

end

/-! ### The streams of `FFDemux` -/

section
variable {streams : List StreamInfo} {t : AVMediaType} {s : ℕ × StreamInfo}

/-- What `av_find_best_stream(ic, t, -1, -1, 0, 0)` returns, `-1` for an error. -/
def bestIndex (streams : List StreamInfo) (t : AVMediaType) : ℤ :=
  match (av_find_best_stream t none (none : Option (StreamInfo → Option Unit)) streams [] none).1 with
  | .ok i => i
  | .error _ => -1

/-- The best stream of a type among all streams of a file. -/
def bestStream (streams : List StreamInfo) (t : AVMediaType) : Option (ℕ × StreamInfo) :=
  ((visited streams none).filter (admitted t none)).argmax fun s => s.2.key

theorem bestIndex_eq (streams : List StreamInfo) (t : AVMediaType) :
    bestIndex streams t = (bestStream streams t).elim (-1 : ℤ) fun s => (s.1 : ℤ) := by
  have hc : candidate t none (none : Option (StreamInfo → Option Unit)) = admitted t none := by
    funext s
    rw [candidate, Option.all_none, Bool.and_true]
  simp only [bestIndex, av_find_best_stream, loop_eq, foldl_turn, bestOf, hc]
  cases h : bestStream streams t with
  | none => rw [show relatedProgram [] none none = none from rfl, show List.argmax _ _ = none from h]; rfl
  | some s => rw [show relatedProgram [] none none = none from rfl, show List.argmax _ _ = some s from h]; rfl

theorem getElem?_of_visited {program : Option (List ℕ)} (h : s ∈ visited streams program) :
    streams[s.1]? = some s.2 := by
  obtain ⟨i, -, hi⟩ := List.mem_filterMap.mp h
  obtain ⟨st, hst, rfl⟩ := Option.map_eq_some_iff.mp hi
  exact hst

theorem bestStream_mem (h : bestStream streams t = some s) :
    streams[s.1]? = some s.2 ∧ s.2.codecpar.codec_type = t := by
  obtain ⟨hv, ha⟩ := List.mem_filter.mp (List.argmax_mem h)
  refine ⟨getElem?_of_visited hv, ?_⟩
  simp only [admitted, Bool.and_eq_true, decide_eq_true_eq] at ha
  exact ha.1.1

theorem bestIndex_nonneg (h : 0 ≤ bestIndex streams t) :
    ∃ s, bestStream streams t = some s ∧ (bestIndex streams t).toNat = s.1 := by
  rw [bestIndex_eq] at h ⊢
  cases hb : bestStream streams t with
  | none => rw [hb] at h; exact absurd h (by decide)
  | some s => exact ⟨s, rfl, rfl⟩

/-- A file as `FFDemux` sees it. -/
def container (streams : List StreamInfo) (duration : ℤ) : XPlayer.Container where
  streams := streams.map (·.toAVStream)
  duration
  best := bestIndex streams
  best_lt t h := by
    obtain ⟨s, hs, hi⟩ := bestIndex_nonneg h
    rw [hi, List.length_map]
    exact (List.getElem?_eq_some_iff.mp (bestStream_mem hs).1).1
  best_type t h := by
    obtain ⟨s, hs, hi⟩ := bestIndex_nonneg h
    obtain ⟨hm, ht⟩ := bestStream_mem hs
    obtain ⟨hlt, he⟩ := List.getElem?_eq_some_iff.mp hm
    simp only [List.get_eq_getElem, List.getElem_map, hi, he, ht]

/-- `GetVideoPara` and `GetAudioPara` give the best stream of their type, and leave the index alone without one. -/
theorem paras_of_best (d : XPlayer.FFDemux) (streams : List StreamInfo) (duration : ℤ) (ps : List XPlayer.AVPacket) :
    let d := { d with ic := some ⟨container streams duration, ps⟩ }
    d.getVideoPara = (match bestStream streams .video with
      | some s => ({ para := some s.2.codecpar }, { d with videoStream := s.1 })
      | none => ({}, d)) ∧
    d.getAudioPara = (match bestStream streams .audio with
      | some s =>
        ({ para := some s.2.codecpar, channels := s.2.codecpar.channels, sampleRate := s.2.codecpar.sample_rate },
          { d with audioStream := s.1 })
      | none => ({}, d)) := by
  have hpos : ∀ n : ℕ, ¬ (n : ℤ) < 0 := fun n => by omega
  constructor
  · simp only [XPlayer.FFDemux.getVideoPara, container, bestIndex_eq]
    cases hb : bestStream streams .video with
    | none => rfl
    | some s =>
      simp only [Option.elim_some, if_neg (hpos _), Int.toNat_natCast, List.getElem?_map, (bestStream_mem hb).1,
        Option.map_some]
  · simp only [XPlayer.FFDemux.getAudioPara, container, bestIndex_eq]
    cases hb : bestStream streams .audio with
    | none => rfl
    | some s =>
      simp only [Option.elim_some, if_neg (hpos _), Int.toNat_natCast, List.getElem?_map, (bestStream_mem hb).1,
        Option.map_some]

end
end LibAV
