import XPlayer.Demux
import XPlayer.Lib.Wrap

/-!
# The timestamps of `Read`

`Read` scales `pts` and `dts` of a packet to milliseconds (`toMillis`) and stores `pts` once more as an `int`. A
packet without a timestamp has `AV_NOPTS_VALUE` there, which is scaled like any other value;
`timestamps_faithful` says for which time bases and values the timestamps keep their meaning.
-/

namespace XPlayer

/-- No timestamp. -/
def AV_NOPTS_VALUE : ℤ := -2 ^ 63

/-- The values of a 64-bit integer. -/
def Int64 (n : ℤ) : Prop := -2 ^ 63 ≤ n ∧ n < 2 ^ 63

instance (n : ℤ) : Decidable (Int64 n) := inferInstanceAs (Decidable (_ ∧ _))

/-- A timestamp in milliseconds, toward zero. -/
def millis (tb : AVRational) (ts : ℤ) : ℤ := trunc (ts * (1000 * (tb.num / tb.den)))

/-- The timestamp `ts'` means the same as `ts` in the time base `tb`. -/
def Stamp (tb : AVRational) (ts ts' : ℤ) : Prop :=
  ts' = if ts = AV_NOPTS_VALUE then AV_NOPTS_VALUE else millis tb ts

/-- `x` is the packet `p` with its timestamps in milliseconds. -/
def Stamped (tb : AVRational) (p : AVPacket) (x : XData) : Prop :=
  ∃ h p', x.data = .packet h p' ∧ Stamp tb p.pts p'.pts ∧ Stamp tb p.dts p'.dts

/-- What `Stamp` needs of a time base and a timestamp. -/
def Convertible (tb : AVRational) (ts : ℤ) : Prop :=
  if ts = AV_NOPTS_VALUE then tb.den ≤ 1000 * tb.num else Int64 (millis tb ts)

/-- The `int` values of two times in milliseconds are in order: on the way from `a` to `b`, without full turns
of `2^32`, the greatest `int` is not passed. -/
def NoTurn (a b : ℤ) : Prop := (a + 2 ^ 31) % 2 ^ 32 + (b - a) % 2 ^ 32 < 2 ^ 32

theorem toInt32_le_toInt32 (a b : ℤ) : toInt32 a ≤ toInt32 b ↔ NoTurn a b :=
  Wrap.bmod_le_bmod_iff (by norm_num)

theorem toInt64_eq_trunc {q : ℚ} : toInt64 q = trunc q ↔ Int64 (trunc q) := by
  unfold toInt64 Int64
  omega

theorem toInt64_eq_nopts {q : ℚ} : toInt64 q = AV_NOPTS_VALUE ↔ trunc q ≤ AV_NOPTS_VALUE := by
  unfold toInt64 AV_NOPTS_VALUE
  omega

/-- Toward zero, a rational is at most a negative integer if and only if it was before. -/
theorem trunc_le_iff {q : ℚ} {n : ℤ} (hn : n < 0) : trunc q ≤ n ↔ q ≤ n := by
  have hd : (0 : ℤ) < q.den := by exact_mod_cast q.den_pos
  have hq : q ≤ n ↔ q.num ≤ n * q.den := by
    conv_lhs => rw [← Rat.num_div_den q, div_le_iff₀ (by exact_mod_cast hd)]
    exact_mod_cast Iff.rfl
  rw [hq]
  unfold trunc
  rcases le_or_gt 0 q.num with h | h
  · have h1 := Int.tdiv_nonneg h hd.le
    have h2 : n * q.den < 0 := Int.mul_neg_of_neg_of_pos hn hd
    constructor <;> intro <;> omega
  · have h1 : q.num.tdiv q.den = -(-q.num / q.den) := by
      rw [← Int.tdiv_eq_ediv_of_nonneg (by omega), Int.neg_tdiv, neg_neg]
    rw [h1, neg_le, Int.le_ediv_iff_mul_le hd, neg_mul, neg_le_neg_iff]

theorem toMillis_eq {ic : AVFormatContext} {i : ℕ} {st : AVStream} (hi : ic.file.streams[i]? = some st)
    (hn : 0 < st.time_base.num) (hd : 0 < st.time_base.den) (ts : ℤ) :
    FFDemux.toMillis ic i ts = toInt64 (ts * (1000 * (st.time_base.num / st.time_base.den))) := by
  simp only [FFDemux.toMillis, hi, Option.map_some, Option.getD_some, r2d]
  rw [if_neg (by omega)]

theorem stamp_iff {ic : AVFormatContext} {i : ℕ} {st : AVStream} (hi : ic.file.streams[i]? = some st)
    (hn : 0 < st.time_base.num) (hd : 0 < st.time_base.den) (ts : ℤ) :
    Stamp st.time_base ts (FFDemux.toMillis ic i ts) ↔ Convertible st.time_base ts := by
  unfold Stamp Convertible
  rw [toMillis_eq hi hn hd]
  split
  · -- the sentinel: it has to stay at the lower end of the range
    rename_i hts
    have hd' : (0 : ℚ) < st.time_base.den := by exact_mod_cast hd
    have hone : (AV_NOPTS_VALUE : ℚ) * (1000 * (st.time_base.num / st.time_base.den)) ≤ AV_NOPTS_VALUE ↔
        1 ≤ (1000 * st.time_base.num : ℚ) / st.time_base.den := by
      rw [mul_div_assoc]
      norm_num only [AV_NOPTS_VALUE]
      constructor <;> intro h <;> linarith
    rw [toInt64_eq_nopts, trunc_le_iff (by norm_num [AV_NOPTS_VALUE]), hts, hone, le_div_iff₀ hd', one_mul]
    exact_mod_cast Iff.rfl
  · exact toInt64_eq_trunc

theorem read_packet {d : FFDemux} {c : Container} {p : AVPacket} {ps : List AVPacket} (hd : d.ic = some ⟨c, p :: ps⟩)
    (hp : d.classify p.stream_index ≠ .rejected) (h : ℕ) :
    ∃ a, (d.read h).1 = FFDemux.packetData ⟨c, p :: ps⟩ h p a := by
  rw [FFDemux.read_cons hd rfl]
  rcases hc : d.classify p.stream_index with _ | _ | _
  · exact ⟨true, rfl⟩
  · exact ⟨false, rfl⟩
  · exact absurd hc hp

theorem stamped_iff {d : FFDemux} {c : Container} {p : AVPacket} {ps : List AVPacket} {st : AVStream} {h : ℕ}
    (hd : d.ic = some ⟨c, p :: ps⟩) (hp : d.classify p.stream_index ≠ .rejected)
    (hi : c.streams[p.stream_index]? = some st) (hnum : 0 < st.time_base.num) (hden : 0 < st.time_base.den) :
    Stamped st.time_base p (d.read h).1 ↔ Convertible st.time_base p.pts ∧ Convertible st.time_base p.dts := by
  have hs := @stamp_iff ⟨c, p :: ps⟩ _ _ hi hnum hden
  obtain ⟨a, hx⟩ := read_packet hd hp h
  rw [hx, ← hs, ← hs]
  constructor
  · rintro ⟨_, _, hdata, h1, h2⟩
    cases hdata
    exact ⟨h1, h2⟩
  · rintro ⟨h1, h2⟩
    exact ⟨_, _, rfl, h1, h2⟩

/-- The timestamps of two packets of one stream keep their meaning and their order if and only if they are in the
range of a 64-bit integer in milliseconds, a missing one is not scaled down, and no turn of the `int` lies
between the two. -/
theorem timestamps_faithful {c : Container} {st : AVStream} {p q : AVPacket} {ps qs : List AVPacket}
    {d e : FFDemux} (hd : d.ic = some ⟨c, p :: ps⟩) (he : e.ic = some ⟨c, q :: qs⟩)
    (hp : d.classify p.stream_index ≠ .rejected) (hq : e.classify q.stream_index ≠ .rejected)
    (hi : c.streams[p.stream_index]? = some st) (hs : q.stream_index = p.stream_index)
    (hnum : 0 < st.time_base.num) (hden : 0 < st.time_base.den) (h k : ℕ) :
    (Stamped st.time_base p (d.read h).1 ∧ Stamped st.time_base q (e.read k).1 ∧
        (p.pts ≠ AV_NOPTS_VALUE → q.pts ≠ AV_NOPTS_VALUE → p.pts ≤ q.pts → (d.read h).1.pts ≤ (e.read k).1.pts)) ↔
      (∀ ts ∈ [p.pts, p.dts, q.pts, q.dts], Convertible st.time_base ts) ∧
        (p.pts ≠ AV_NOPTS_VALUE → q.pts ≠ AV_NOPTS_VALUE → p.pts ≤ q.pts →
          NoTurn (millis st.time_base p.pts) (millis st.time_base q.pts)) := by
  have hi' : c.streams[q.stream_index]? = some st := hs ▸ hi
  rw [stamped_iff hd hp hi hnum hden, stamped_iff he hq hi' hnum hden]
  obtain ⟨a, hx⟩ := read_packet hd hp h
  obtain ⟨b, hy⟩ := read_packet he hq k
  -- with both timestamps in range, `pts` is the `int` of the milliseconds
  have hpts : ∀ {r : AVPacket} {rs : List AVPacket} (l : ℕ) (a' : Bool), c.streams[r.stream_index]? = some st →
      Convertible st.time_base r.pts → r.pts ≠ AV_NOPTS_VALUE →
      (FFDemux.packetData ⟨c, r :: rs⟩ l r a').pts = toInt32 (millis st.time_base r.pts) := by
    intro r rs l a' hr hc hne
    have hst := (@stamp_iff ⟨c, r :: rs⟩ _ _ hr hnum hden r.pts).mpr hc
    unfold Stamp at hst
    rw [if_neg hne] at hst
    exact congrArg toInt32 hst
  have hall : (∀ ts ∈ [p.pts, p.dts, q.pts, q.dts], Convertible st.time_base ts) ↔
      (Convertible st.time_base p.pts ∧ Convertible st.time_base p.dts) ∧
        Convertible st.time_base q.pts ∧ Convertible st.time_base q.dts := by
    simp only [List.forall_mem_cons, List.not_mem_nil, false_implies, implies_true, and_true, and_assoc]
  rw [hall, ← and_assoc]
  refine and_congr_right fun ⟨⟨hcp, _⟩, hcq, _⟩ => ?_
  refine imp_congr_right fun hpn => imp_congr_right fun hqn => imp_congr_right fun _ => ?_
  rw [hx, hy, hpts h a hi hcp hpn, hpts k b hi' hcq hqn, toInt32_le_toInt32]

/-- A file with one video stream. -/
def oneStream (tb : AVRational) : Container where
  streams := [⟨⟨.video, 27, 0, 0, 0⟩, tb, 0⟩]
  duration := 0
  best t := if t = .video then 0 else -1
  best_lt t h := by cases t <;> simp at h ⊢
  best_type t h := by cases t <;> simp at h ⊢

/-- The demuxer before the packet `p` of this file. -/
def oneStreamAt (tb : AVRational) (p : AVPacket) : FFDemux := { ic := some ⟨oneStream tb, [p]⟩, total := 0 }

/-- Two packets with timestamps in milliseconds. -/
theorem timestamps_faithful_millis : ((oneStreamAt ⟨1, 1000⟩ ⟨0, 40, 40, [1]⟩).read 0).1.pts ≤
    ((oneStreamAt ⟨1, 1000⟩ ⟨0, 80, 60, [1]⟩).read 1).1.pts := by
  have h := timestamps_faithful (d := oneStreamAt ⟨1, 1000⟩ ⟨0, 40, 40, [1]⟩)
    (e := oneStreamAt ⟨1, 1000⟩ ⟨0, 80, 60, [1]⟩) rfl rfl (by decide) (by decide) rfl rfl (by decide) (by decide) 0 1
  have hm : ∀ n : ℤ, millis ⟨1, 1000⟩ n = n := by
    intro n
    unfold millis trunc
    norm_num
  refine (h.mpr ⟨?_, fun _ _ _ => ?_⟩).2.2 (by decide) (by decide) (by decide)
  · simp only [Convertible, hm]
    decide
  · simp only [hm]
    unfold NoTurn
    decide

/-- A packet without a timestamp in a stream that counts in units of 1/90000 s: it gets one. -/
theorem nopts_scaled : ¬ ∀ (c : Container) (st : AVStream) (p q : AVPacket) (ps qs : List AVPacket) (d e : FFDemux),
    d.ic = some ⟨c, p :: ps⟩ → e.ic = some ⟨c, q :: qs⟩ → d.classify p.stream_index ≠ .rejected →
    e.classify q.stream_index ≠ .rejected → c.streams[p.stream_index]? = some st →
    q.stream_index = p.stream_index → 0 < st.time_base.num → 0 < st.time_base.den → ∀ h k : ℕ,
      Stamped st.time_base p (d.read h).1 ∧ Stamped st.time_base q (e.read k).1 ∧
        (p.pts ≠ AV_NOPTS_VALUE → q.pts ≠ AV_NOPTS_VALUE → p.pts ≤ q.pts →
          (d.read h).1.pts ≤ (e.read k).1.pts) := by
  intro h
  let p : AVPacket := ⟨0, AV_NOPTS_VALUE, AV_NOPTS_VALUE, [1]⟩
  have hs := (h _ _ p p _ _ (oneStreamAt ⟨1, 90000⟩ p) (oneStreamAt ⟨1, 90000⟩ p) rfl rfl (by decide) (by decide) rfl rfl
    (by decide) (by decide) 0 0).1
  have hc := (stamped_iff (d := oneStreamAt ⟨1, 90000⟩ p) rfl (by decide) rfl (by decide) (by decide)).mp hs
  have hc := hc.1
  simp [Convertible, p] at hc

end XPlayer
