import XPlayer.LibAV.AVIORun

/-!
# Probing

`av_probe_input_buffer2` reads from the start of a file until its format is found, and gives the bytes back:
`ffio_rewind_with_probe_data` makes the probe data the buffer, without a seek in the file. What the probe functions see
is the start of the file, and the demuxer reads from there whatever has happened (`probe_rewinds`).
-/

namespace LibAV
open XPlayer

def PROBE_BUF_MIN : ℕ := 2048
def PROBE_BUF_MAX : ℕ := 2 ^ 20
def AVPROBE_SCORE_RETRY : ℕ := 25

namespace AVIOContext
variable {σ : Type}

/-- The probe data `buf` and what is in the buffer behind it become the buffer. -/
def ffio_rewind_with_probe_data (s : AVIOContext σ) (buf : List UInt8) : Except AVERROR Unit × AVIOContext σ :=
  let buffer_size := s.buffer.length
  let buffer_start : ℤ := s.pos - buffer_size
  if (buf.length : ℤ) < buffer_start then (.error .EINVAL, s)
  else
    let overlap := buf.length - buffer_start
    let new_size := buf.length + buffer_size - overlap
    let buf' := if (buf.length : ℤ) < new_size then buf ++ s.buffer.drop overlap.toNat else buf
    (.ok (), { s with buffer := buf', buf_ptr := 0, buffer_size := max s.buffer_size new_size.toNat, pos := buf'.length
                      eof_reached := false })

variable {F : Type} (P : IOCallbacks σ) (probe : List UInt8 → ℕ → Option F × ℕ)

/-- The variables of `av_probe_input_buffer2`: a format, if one was found, with its score. -/
structure Probing (F σ : Type) where
  probe_size : ℕ
  probe_pos : 0 < probe_size
  buf : List UInt8
  fmt : Option F
  score : ℕ
  s : AVIOContext σ

/-- With the bytes `bs` more, and the score that is asked for at least. -/
def Probing.next (max_probe_size : ℕ) (x : Probing F σ) (bs : List UInt8) (score : ℕ) (s : AVIOContext σ) :
    Probing F σ where
  probe_size := min (2 * x.probe_size) (max max_probe_size (x.probe_size + 1))
  probe_pos := by have := x.probe_pos; omega
  buf := x.buf ++ bs
  fmt := (probe (x.buf ++ bs) score).1
  score := (probe (x.buf ++ bs) score).2
  s := s

/-- The loop; it ends with an error if a read fails. -/
def probeLoop (max_probe_size : ℕ) : Loop (Probing F σ) (Option AVERROR × Probing F σ) where
  turn := fun x =>
    if x.probe_size ≤ max_probe_size ∧ x.fmt.isNone then
      let score := if x.probe_size < max_probe_size then AVPROBE_SCORE_RETRY else 0
      match x.s.avio_read P (x.probe_size - x.buf.length) with
      | (.ok bs, s) => .inl (x.next probe max_probe_size bs score s)
      | (.error e, s) => if e = .EOF then .inl (x.next probe max_probe_size [] 0 s) else .inr (some e, { x with s := s })
    else .inr (none, x)
  rank := fun x => max_probe_size + 1 - x.probe_size
  turn_lt := by
    intro x x' h
    have hx := x.probe_pos
    have hnext : ∀ bs score s, x.probe_size ≤ max_probe_size →
        max_probe_size + 1 - (x.next probe max_probe_size bs score s).probe_size <
          max_probe_size + 1 - x.probe_size := by
      intro bs score s hle
      simp only [Probing.next]
      omega
    by_cases hle : x.probe_size ≤ max_probe_size ∧ x.fmt.isNone = true
    · simp only [if_pos hle] at h
      rcases hr : x.s.avio_read P (x.probe_size - x.buf.length) with ⟨e | bs, s⟩ <;> rw [hr] at h <;> dsimp only at h
      · split_ifs at h
        obtain rfl := Sum.inl.inj h
        exact hnext _ _ _ hle.1
      · obtain rfl := Sum.inl.inj h
        exact hnext _ _ _ hle.1
    · simp only [if_neg hle, reduceCtorEq] at h

/-- The end of the function, with the error of a read. -/
def Probing.finish (e : Option AVERROR) (x : Probing F σ) : Except AVERROR (F × ℕ) × AVIOContext σ :=
  let re := x.s.ffio_rewind_with_probe_data x.buf
  match e, x.fmt, re.1 with
  | some e, _, _ => (.error e, re.2)
  | none, none, _ => (.error .INVALIDDATA, re.2)
  | none, some _, .error e => (.error e, re.2)
  | none, some f, .ok _ => (.ok (f, x.score), re.2)

/-- `probe` is `av_probe_input_format2`, which takes the score that is asked for and returns that of the format. -/
def av_probe_input_buffer2 (s : AVIOContext σ) (max_probe_size : ℕ) : Except AVERROR (F × ℕ) × AVIOContext σ :=
  if max_probe_size ≠ 0 ∧ max_probe_size < PROBE_BUF_MIN then (.error .EINVAL, s)
  else
    let max_probe_size := if max_probe_size = 0 then PROBE_BUF_MAX else max_probe_size
    let r := (probeLoop P probe max_probe_size).run ⟨PROBE_BUF_MIN, by decide, [], none, 0, s⟩
    r.2.finish r.1

variable {P probe} {file : List UInt8} {loc : σ → ℕ} {s : AVIOContext σ}

theorem rewind_spec {buf : List UInt8} (h : ReadFrom file loc 0 buf s) :
    (s.ffio_rewind_with_probe_data buf).1 = .ok () ∧
      At file loc (some 0) (s.ffio_rewind_with_probe_data buf).2 := by
  obtain ⟨hs, hseg, hp⟩ := h
  have h1 := hs.ptr
  have h2 := hs.start
  have hrest := hs.rest
  rw [Nat.zero_add] at hp
  have hp' : s.pos - (s.buffer.length - s.buf_ptr) = buf.length := hp
  rw [hp] at hrest
  unfold ffio_rewind_with_probe_data
  dsimp only
  rw [if_neg (by omega)]
  refine ⟨rfl, ?_⟩
  have hov : ((buf.length : ℤ) - (s.pos - s.buffer.length)).toNat = s.buf_ptr := by omega
  have hbuf : Segment file 0 (if (buf.length : ℤ) < buf.length + s.buffer.length -
      (buf.length - (s.pos - s.buffer.length)) then buf ++ s.buffer.drop s.buf_ptr else buf) ∧
      (if (buf.length : ℤ) < buf.length + s.buffer.length - (buf.length - (s.pos - s.buffer.length))
        then buf ++ s.buffer.drop s.buf_ptr else buf).length = s.pos := by
    split_ifs with hlt
    · refine ⟨hseg.append (by rwa [Nat.zero_add]), ?_⟩
      rw [List.length_append, List.length_drop]
      omega
    · exact ⟨hseg, by omega⟩
  rw [hov]
  generalize (if (buf.length : ℤ) < buf.length + s.buffer.length - (buf.length - (s.pos - s.buffer.length))
    then buf ++ s.buffer.drop s.buf_ptr else buf) = buf' at hbuf ⊢
  obtain ⟨hseg', hlen⟩ := hbuf
  refine .place ⟨Nat.zero_le _, le_rfl, ?_, ?_, ?_, fun h => absurd h Bool.false_ne_true⟩ ?_
    fun h => absurd h Bool.false_ne_true
  · dsimp only
    rwa [Nat.sub_self]
  · exact hs.loc_eq.trans hlen.symm
  · have := hs.size
    dsimp only
    omega
  · simp [place, avail]

/-- The file was read from its start, and the format was found in what was read. -/
structure Probed (probe : List UInt8 → ℕ → Option F × ℕ) (file : List UInt8) (loc : σ → ℕ) (x : Probing F σ) :
    Prop where
  reads : ReadFrom file loc 0 x.buf x.s
  quiet : x.s.Quiet
  found : ∀ f, x.fmt = some f → ∃ n t, probe (file.take n) t = (some f, x.score)

theorem Probed.next {x : Probing F σ} (h : Probed probe file loc x) {max_probe_size t : ℕ} {bs : List UInt8}
    {s' : AVIOContext σ} (hc : Coherent file loc s') (hq : s'.Quiet) (hseg : Segment file x.s.place bs)
    (hp : s'.place = x.s.place + bs.length) : Probed probe file loc (x.next probe max_probe_size bs t s') := by
  have hx := h.reads.place
  have hbuf : Segment file 0 (x.buf ++ bs) := h.reads.seg.append (hx ▸ hseg)
  refine ⟨⟨hc, hbuf, ?_⟩, hq, fun f hf => ⟨(x.buf ++ bs).length, t, ?_⟩⟩
  · simp only [Probing.next, List.length_append]
    omega
  · have htake := hbuf.eq_take
    rw [List.drop_zero] at htake
    rw [← htake]
    exact Prod.ext hf rfl

theorem probeLoop_spec (hP : Serves P file loc) (max_probe_size : ℕ) {x : Probing F σ} (h : Probed probe file loc x) :
    Probed probe file loc ((probeLoop P probe max_probe_size).run x).2 := by
  refine (probeLoop P probe max_probe_size).run_inv (I := Probed probe file loc)
    (Q := fun r => Probed probe file loc r.2) ?_ ?_ h
  · intro x x' hx e
    obtain ⟨hc, hread⟩ := read_spec hP hx.reads.coherent (x.probe_size - x.buf.length)
    obtain ⟨hR, -⟩ := hread hx.quiet
    by_cases hle : x.probe_size ≤ max_probe_size ∧ x.fmt.isNone = true
    · simp only [probeLoop, if_pos hle] at e
      rcases hr : x.s.avio_read P (x.probe_size - x.buf.length) with ⟨e' | bs, s'⟩ <;> rw [hr] at e hc hR <;>
        dsimp only at e
      · split_ifs at e
        obtain rfl := Sum.inl.inj e
        exact hx.next hc hR.quiet .nil (hR.error e' rfl).1
      · obtain rfl := Sum.inl.inj e
        obtain ⟨hseg, hp, -⟩ := hR.ok bs rfl
        exact hx.next hc hR.quiet hseg hp
    · simp only [probeLoop, if_neg hle, reduceCtorEq] at e
  · intro x r hx e
    obtain ⟨hc, hread⟩ := read_spec hP hx.reads.coherent (x.probe_size - x.buf.length)
    obtain ⟨hR, -⟩ := hread hx.quiet
    by_cases hle : x.probe_size ≤ max_probe_size ∧ x.fmt.isNone = true
    · simp only [probeLoop, if_pos hle] at e
      rcases hr : x.s.avio_read P (x.probe_size - x.buf.length) with ⟨e' | bs, s'⟩ <;> rw [hr] at e hc hR <;>
        dsimp only at e
      · split_ifs at e
        obtain rfl := Sum.inr.inj e
        exact ⟨⟨hc, hx.reads.seg, (hR.error e' rfl).1.trans hx.reads.place⟩, hR.quiet, hx.found⟩
      · cases e
    · simp only [probeLoop, if_neg hle] at e
      obtain rfl := Sum.inr.inj e
      exact hx

theorem Probed.finish (e : Option AVERROR) {x : Probing F σ} (h : Probed probe file loc x) :
    At file loc (some 0) (x.finish e).2 ∧
      ∀ f score, (x.finish e).1 = .ok (f, score) → ∃ n t, probe (file.take n) t = (some f, score) := by
  obtain ⟨h1, h2⟩ := rewind_spec h.reads
  cases e with
  | some e =>
    refine ⟨h2, fun f score h => ?_⟩
    cases h
  | none =>
    unfold Probing.finish
    dsimp only
    rw [h1]
    cases hf : x.fmt with
    | none =>
      refine ⟨h2, fun f score h => ?_⟩
      cases h
    | some f =>
      refine ⟨h2, fun f' score h' => ?_⟩
      cases h'
      exact h.found f hf

end AVIOContext

/-- After probing, a file is read from its start, whether it can seek or not and whatever was found; and what was found,
was found in the first bytes of the file. -/
theorem probe_rewinds {σ F : Type} {P : IOCallbacks σ} {file : List UInt8} {loc : σ → ℕ} {s : AVIOContext σ}
    (probe : List UInt8 → ℕ → Option F × ℕ) (hP : AVIOContext.Serves P file loc) (hs : AVIOContext.Opened loc s)
    (max_probe_size : ℕ) :
    (∀ os, AVIOContext.AnswersAll file (some 0)
      (AVIOContext.run P (s.av_probe_input_buffer2 P probe max_probe_size).2 os)) ∧
    ∀ f score, (s.av_probe_input_buffer2 P probe max_probe_size).1 = .ok (f, score) →
      ∃ n t, probe (file.take n) t = (some f, score) := by
  have h₀ : AVIOContext.At file loc (some 0) s := hs.start
  obtain ⟨hp, hq⟩ := h₀.known 0 rfl
  unfold AVIOContext.av_probe_input_buffer2
  by_cases hmax : max_probe_size ≠ 0 ∧ max_probe_size < PROBE_BUF_MIN
  · rw [if_pos hmax]
    refine ⟨fun os => h₀.answersAll hP os, fun f score h => ?_⟩
    cases h
  · rw [if_neg hmax]
    have hx : AVIOContext.Probed probe file loc ⟨PROBE_BUF_MIN, by decide, [], none, 0, s⟩ :=
      ⟨⟨h₀.coherent, .nil, hp⟩, hq, fun f h => by cases h⟩
    obtain ⟨h1, h2⟩ := (AVIOContext.probeLoop_spec hP _ hx).finish _
    exact ⟨fun os => h1.answersAll hP os, h2⟩

/-- A format that begins with two bytes, found in a file of four. -/
theorem probe_rewinds_magic :
    let P := FileContext.callbacks ⟨[7, 9, 3, 4], 1000⟩
    let probe : List UInt8 → ℕ → Option Unit × ℕ := fun bs t => if bs.take 2 = [7, 9] then (some (), 100) else (none, t)
    let r := AVIOContext.av_probe_input_buffer2 P probe { url := 0 } 0
    ∀ os, AVIOContext.AnswersAll [7, 9, 3, 4] (some 0) (AVIOContext.run P r.2 os) :=
  (probe_rewinds (fun bs t => if bs.take 2 = [7, 9] then (some (), 100) else (none, t))
    (FileContext.serves ⟨[7, 9, 3, 4], 1000⟩ (by decide)) ⟨rfl, rfl, rfl, rfl, rfl, by decide, rfl⟩ 0).1

end LibAV
