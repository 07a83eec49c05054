import XPlayer.LibAV.Decode
import XPlayer.Lib.Loop
import Mathlib.Data.List.Sort
import Mathlib.Tactic.Linarith

/-!
# The index of a stream

`index_entries` of a stream lists positions in the file by timestamp. `ff_index_search_timestamp` searches it
for a seek, `ff_add_index_entry` keeps it sorted, and `ff_reduce_index` drops every second entry when it takes
too much memory.

A `Bracket` is the state of the binary search, with its invariant. On a sorted index the search finds the
nearest entry that the flags ask for (`search_nearest`); the search for a non-discarded packet in its loop
makes no difference.
-/

namespace LibAV
open XPlayer

/-! ### Entries -/

structure AVIndexEntry where
  pos : ℤ
  timestamp : ℤ
  /-- `flags:2` -/
  flags : BitVec 2
  /-- `size:30`, a signed bit field -/
  size : ℤ
  min_distance : ℤ
  deriving DecidableEq

def AVINDEX_KEYFRAME : BitVec 2 := 1#2

/-- What a signed bit field of 30 bits keeps of `n`. -/
def int30 (n : ℤ) : ℤ := n.bmod (2 ^ 30)

namespace AVIndexEntry

def keyframe (e : AVIndexEntry) : Bool := e.flags.getLsbD 0

def discard (e : AVIndexEntry) : Bool := e.flags.getLsbD 1

end AVIndexEntry

/-- `index_entries`; the number of entries is the length. -/
abbrev Index := List AVIndexEntry

/-- `AVSEEK_FLAG_…` -/
structure SeekFlags where
  backward : Bool := false
  byte : Bool := false
  any : Bool := false
  frame : Bool := false
  deriving DecidableEq

namespace Index
variable (es : Index)

/-- The timestamp of the entry `m`. -/
def ts (m : ℤ) : ℤ := ((es[m.toNat]?).map (·.timestamp)).getD 0

def keyframe (m : ℤ) : Bool := ((es[m.toNat]?).map (·.keyframe)).getD false

def discard (m : ℤ) : Bool := ((es[m.toNat]?).map (·.discard)).getD false

/-! ### The search -/

/-- `a` and `b` in `ff_index_search_timestamp`: the entries up to `a` are before the wanted timestamp `w` and
those from `b` on after it, or `a` and `b` have met at `w`. -/
@[ext]
structure Bracket (w : ℤ) where
  a : ℤ
  b : ℤ
  range : -1 ≤ a ∧ a ≤ b ∧ b ≤ es.length
  before : a < b → 0 ≤ a → es.ts a < w
  after : a < b → b < es.length → w < es.ts b
  met : a = b → 0 ≤ a ∧ a < es.length ∧ es.ts a = w

/-- The search for the next non-discarded packet, from `m` on. -/
def nextKept (w b : ℤ) : Loop ℤ ℤ where
  turn m :=
    if es.discard m = true ∧ m < b ∧ m < es.length - 1 then
      if m + 1 = b ∧ w ≤ es.ts (m + 1) then .inr (b - 1) else .inl (m + 1)
    else .inr m
  rank m := (b - m).toNat
  turn_lt m m' h := by
    split_ifs at h with hd
    cases h
    omega

variable {es} {w : ℤ}

/-- The loop stays between `m` and `b`. -/
theorem nextKept_range {w b m : ℤ} (hup : b < es.length → w ≤ es.ts b) (hm : m < b) :
    m ≤ (es.nextKept w b).run m ∧ (es.nextKept w b).run m < b := by
  refine (es.nextKept w b).run_inv (I := fun k => m ≤ k ∧ k < b) (Q := fun k => m ≤ k ∧ k < b) ?_ ?_ ⟨le_rfl, hm⟩
  · rintro k k' ⟨hk, hkb⟩ ht
    simp only [nextKept] at ht
    split_ifs at ht with hd hend
    cases ht
    constructor
    · omega
    · by_contra hge
      have he : k + 1 = b := by omega
      exact hend ⟨he, he ▸ hup (by omega)⟩
  · rintro k r ⟨hk, hkb⟩ ht
    simp only [nextKept] at ht
    split_ifs at ht with hd hend <;> cases ht
    · omega
    · exact ⟨hk, hkb⟩

namespace Bracket

/-- The whole index; an entry that is later than all others can be told at once. -/
def start (es : Index) (w : ℤ) : Bracket es w :=
  if h : es ≠ [] ∧ es.ts (es.length - 1) < w then
    ⟨es.length - 1, es.length, by omega, fun _ _ => h.2, fun _ hb => absurd hb (lt_irrefl _), fun he => by omega⟩
  else
    ⟨-1, es.length, by omega, fun _ h => by omega, fun _ hb => absurd hb (lt_irrefl _), fun he => by omega⟩

/-- The entry in the middle, or the next one that is not discarded. -/
def mid (s : Bracket es w) : ℤ := (es.nextKept w s.b).run ((s.a + s.b) / 2)

theorem mid_range (s : Bracket es w) (h : 1 < s.b - s.a) : s.a < s.mid ∧ s.mid < s.b := by
  have hr := s.range
  obtain ⟨h1, h2⟩ := nextKept_range (m := (s.a + s.b) / 2) (fun hb => (s.after (by omega) hb).le) (by omega)
  unfold mid
  omega

/-- A turn of the binary search. -/
def narrow (s : Bracket es w) (h : 1 < s.b - s.a) : Bracket es w :=
  have hm := s.mid_range h
  have hr := s.range
  ⟨if es.ts s.mid ≤ w then s.mid else s.a, if w ≤ es.ts s.mid then s.mid else s.b,
    by split_ifs <;> omega,
    by
      split_ifs with h1 h2
      · exact fun hlt => absurd hlt (lt_irrefl _)
      · exact fun _ _ => by omega
      · exact fun _ ha => s.before (by omega) ha
      · omega,
    by
      split_ifs with h1 h2
      · exact fun hlt => absurd hlt (lt_irrefl _)
      · exact fun _ hb => s.after (by omega) hb
      · exact fun _ _ => by omega
      · omega,
    by split_ifs <;> omega⟩

end Bracket

/-- The binary search. -/
def bisect (es : Index) (w : ℤ) : Loop (Bracket es w) (Bracket es w) where
  turn s := if h : 1 < s.b - s.a then .inl (s.narrow h) else .inr s
  rank s := (s.b - s.a).toNat
  turn_lt s s' h := by
    split_ifs at h with hlt
    cases h
    have hm := s.mid_range hlt
    simp only [Bracket.narrow]
    split_ifs <;> omega

/-- The search for a keyframe, from `m` on. -/
def nextKey (es : Index) (backward : Bool) : Loop ℤ ℤ where
  turn m :=
    if 0 ≤ m ∧ m < es.length ∧ es.keyframe m = false then .inl (m + if backward then -1 else 1) else .inr m
  rank m := if backward then (m + 1).toNat else (es.length - m).toNat
  turn_lt m m' h := by
    by_cases hm : 0 ≤ m ∧ m < es.length ∧ es.keyframe m = false
    · rw [if_pos hm] at h
      cases h
      cases backward <;> simp only [Bool.false_eq_true, if_true, if_false] <;> omega
    · rw [if_neg hm] at h
      cases h

end Index

def ff_index_search_timestamp (es : Index) (wanted_timestamp : ℤ) (flags : SeekFlags) : ℤ :=
  let s := (es.bisect wanted_timestamp).run (.start es wanted_timestamp)
  let m := if flags.backward then s.a else s.b
  let m := if flags.any then m else (es.nextKey flags.backward).run m
  if m = es.length then -1 else m

/-! ### What the search finds -/

namespace Index
variable {es : Index} {w : ℤ}

/-- The timestamps increase. -/
def Sorted (es : Index) : Prop := es.Pairwise fun e f => e.timestamp < f.timestamp

/-- The entry with the index that a search returned. -/
def entry (es : Index) (m : ℤ) : Option AVIndexEntry := if m < 0 then none else es[m.toNat]?

/-- An entry that a search with `flags` may return. -/
def wanted (w : ℤ) (flags : SeekFlags) (e : AVIndexEntry) : Bool :=
  (if flags.backward then decide (e.timestamp ≤ w) else decide (w ≤ e.timestamp)) && (flags.any || e.keyframe)

/-- The last entry that is wanted, or the first one if the search goes forward. -/
def nearest (es : Index) (w : ℤ) (flags : SeekFlags) : Option AVIndexEntry :=
  let es := es.filter (wanted w flags)
  if flags.backward then es.getLast? else es.head?

theorem ts_eq {i : ℕ} (hi : i < es.length) : es.ts i = es[i].timestamp := by
  unfold ts
  rw [Int.toNat_natCast, List.getElem?_eq_getElem hi]
  rfl

theorem keyframe_eq {i : ℕ} (hi : i < es.length) : es.keyframe i = es[i].keyframe := by
  unfold keyframe
  rw [Int.toNat_natCast, List.getElem?_eq_getElem hi]
  rfl

theorem Sorted.ts_lt (hs : es.Sorted) {i j : ℤ} (hi : 0 ≤ i) (hij : i < j) (hj : j < es.length) : es.ts i < es.ts j := by
  obtain ⟨i, rfl⟩ := Int.eq_ofNat_of_zero_le hi
  obtain ⟨j, rfl⟩ := Int.eq_ofNat_of_zero_le (hi.trans hij.le)
  rw [ts_eq (by omega), ts_eq (by omega)]
  exact List.pairwise_iff_getElem.mp hs i j _ _ (by omega)

/-- A filter that keeps the entries before `k` and no other. -/
theorem filter_take {p : AVIndexEntry → Bool} {k : ℤ} (hk : 0 ≤ k)
    (h : ∀ i (hi : i < es.length), p es[i] = true ↔ (i : ℤ) < k) : es.filter p = es.take k.toNat := by
  have h1 : (es.take k.toNat).filter p = es.take k.toNat := by
    rw [List.filter_eq_self]
    intro e he
    obtain ⟨i, hi, rfl⟩ := List.mem_take_iff_getElem.mp he
    exact (h i (by omega)).mpr (by omega)
  have h2 : (es.drop k.toNat).filter p = [] := by
    rw [List.filter_eq_nil_iff]
    intro e he
    obtain ⟨i, hi, rfl⟩ := List.mem_drop_iff_getElem.mp he
    rw [h _ (by omega)]
    omega
  calc es.filter p = (es.take k.toNat).filter p ++ (es.drop k.toNat).filter p := by
        rw [← List.filter_append, List.take_append_drop]
    _ = es.take k.toNat := by rw [h1, h2, List.append_nil]

/-- A filter that keeps the entries from `k` on and no other. -/
theorem filter_drop {p : AVIndexEntry → Bool} {k : ℤ} (hk : 0 ≤ k)
    (h : ∀ i (hi : i < es.length), p es[i] = true ↔ k ≤ (i : ℤ)) : es.filter p = es.drop k.toNat := by
  have h1 : (es.take k.toNat).filter p = [] := by
    rw [List.filter_eq_nil_iff]
    intro e he
    obtain ⟨i, hi, rfl⟩ := List.mem_take_iff_getElem.mp he
    rw [h i (by omega)]
    omega
  have h2 : (es.drop k.toNat).filter p = es.drop k.toNat := by
    rw [List.filter_eq_self]
    intro e he
    obtain ⟨i, hi, rfl⟩ := List.mem_drop_iff_getElem.mp he
    exact (h _ (by omega)).mpr (by omega)
  calc es.filter p = (es.take k.toNat).filter p ++ (es.drop k.toNat).filter p := by
        rw [← List.filter_append, List.take_append_drop]
    _ = es.drop k.toNat := by rw [h1, h2, List.nil_append]

theorem Sorted.ts_le (hs : es.Sorted) {i j : ℤ} (hi : 0 ≤ i) (hij : i ≤ j) (hj : j < es.length) : es.ts i ≤ es.ts j := by
  rcases hij.lt_or_eq with h | rfl
  · exact (hs.ts_lt hi h hj).le
  · exact le_rfl

/-- The two sides of a bracket that is closed. -/
theorem Bracket.split (s : Bracket es w) (hs : es.Sorted) (h : s.b - s.a ≤ 1) {i : ℤ} (hi : 0 ≤ i) (hn : i < es.length) :
    (es.ts i ≤ w ↔ i ≤ s.a) ∧ (w ≤ es.ts i ↔ s.b ≤ i) := by
  have hr := s.range
  have hmet := s.met
  -- the timestamps on the left of `a` and on the right of `b`
  have hl : i ≤ s.a → es.ts i ≤ es.ts s.a := fun hia => hs.ts_le hi hia (by omega)
  have hr' : s.b ≤ i → es.ts s.b ≤ es.ts i := fun hbi => hs.ts_le (by omega) hbi hn
  have hlt : i < s.a → es.ts i < es.ts s.a := fun hia => hs.ts_lt hi hia (by omega)
  have hgt : s.b < i → es.ts s.b < es.ts i := fun hbi => hs.ts_lt (by omega) hbi hn
  rcases hr.2.1.lt_or_eq with hab | hab
  · have ha := s.before hab
    have hb := s.after hab
    constructor <;> constructor <;> intro hle <;> by_contra hc <;> omega
  · obtain ⟨h0, hlen, hw⟩ := hmet hab
    rw [← hab] at hr' hgt ⊢
    constructor <;> constructor <;> intro hle <;> by_contra hc <;> omega

theorem bisect_end (es : Index) (w : ℤ) : ((es.bisect w).run (.start es w)).b - ((es.bisect w).run (.start es w)).a ≤ 1 := by
  refine (es.bisect w).run_inv (I := fun _ => True) (Q := fun s => s.b - s.a ≤ 1) (fun _ _ _ _ => trivial) ?_ trivial
  intro s r _ ht
  simp only [bisect] at ht
  split_ifs at ht with h
  cases ht
  exact not_lt.mp h

theorem entry_eq {m : ℕ} (hm : m < es.length) : es.entry m = some es[m] := by
  unfold entry
  rw [if_neg (by omega), Int.toNat_natCast, List.getElem?_eq_getElem hm]

theorem keyframe_of_stop {m : ℕ} (hm : m < es.length)
    (h : ¬ (0 ≤ (m : ℤ) ∧ (m : ℤ) < es.length ∧ es.keyframe m = false)) : es[m].keyframe = true := by
  rw [keyframe_eq hm] at h
  simpa [hm] using h

/-- The search for a keyframe towards the beginning. -/
theorem nextKey_backward {m : ℤ} (h0 : -1 ≤ m) (hm : m < es.length) :
    -1 ≤ (es.nextKey true).run m ∧ (es.nextKey true).run m ≤ m ∧
      es.entry ((es.nextKey true).run m) = ((es.take (m + 1).toNat).filter (·.keyframe)).getLast? := by
  have htake : ∀ {m : ℕ} (hm : m < es.length), (es.take ((m : ℤ) + 1).toNat).filter (·.keyframe) =
      (es.take m).filter (·.keyframe) ++ [es[m]].filter (·.keyframe) := by
    intro m hm
    rw [← List.filter_append, show ((m : ℤ) + 1).toNat = m + 1 by omega, List.take_add_one,
      List.getElem?_eq_getElem hm]
    rfl
  revert h0 hm
  refine (es.nextKey true).run_induct (P := fun m r => -1 ≤ m → m < es.length →
    -1 ≤ r ∧ r ≤ m ∧ es.entry r = ((es.take (m + 1).toNat).filter (·.keyframe)).getLast?) ?_ ?_ m
  · intro m r ht h0 hm
    simp only [nextKey] at ht
    split_ifs at ht with hk
    cases ht
    refine ⟨h0, le_rfl, ?_⟩
    rcases h0.lt_or_eq with h | rfl
    · obtain ⟨m, rfl⟩ := Int.eq_ofNat_of_zero_le (show 0 ≤ m by omega)
      have hlen : m < es.length := by omega
      rw [htake hlen, entry_eq hlen, List.filter_cons_of_pos (keyframe_of_stop hlen hk), List.filter_nil,
        List.getLast?_concat]
    · rfl
  · intro m m' ht ih h0 hm
    simp only [nextKey] at ht
    split_ifs at ht with hk
    obtain ⟨hm0, hmn, hk⟩ := hk
    cases ht
    obtain ⟨h1, h2, h3⟩ := ih (by omega) (by omega)
    refine ⟨h1, by omega, h3.trans ?_⟩
    obtain ⟨m, rfl⟩ := Int.eq_ofNat_of_zero_le hm0
    have hlen : m < es.length := by omega
    rw [keyframe_eq hlen] at hk
    rw [htake hlen, List.filter_cons_of_neg (by simp [hk]), List.filter_nil, List.append_nil,
      show ((m : ℤ) + -1 + 1).toNat = m by omega]

/-- The search for a keyframe towards the end. -/
theorem nextKey_forward {m : ℤ} (h0 : 0 ≤ m) (hm : m ≤ es.length) :
    m ≤ (es.nextKey false).run m ∧ (es.nextKey false).run m ≤ es.length ∧
      es.entry ((es.nextKey false).run m) = ((es.drop m.toNat).filter (·.keyframe)).head? := by
  revert h0 hm
  refine (es.nextKey false).run_induct (P := fun m r => 0 ≤ m → m ≤ es.length →
    m ≤ r ∧ r ≤ es.length ∧ es.entry r = ((es.drop m.toNat).filter (·.keyframe)).head?) ?_ ?_ m
  · intro m r ht h0 hm
    simp only [nextKey] at ht
    split_ifs at ht with hk
    cases ht
    refine ⟨le_rfl, hm, ?_⟩
    obtain ⟨m, rfl⟩ := Int.eq_ofNat_of_zero_le h0
    rcases hm.lt_or_eq with h | h
    · have hlen : m < es.length := by omega
      rw [entry_eq hlen, Int.toNat_natCast, List.drop_eq_getElem_cons hlen,
        List.filter_cons_of_pos (keyframe_of_stop hlen hk), List.head?_cons]
    · simp [entry, show m = es.length by omega]
  · intro m m' ht ih h0 hm
    simp only [nextKey] at ht
    split_ifs at ht with hk hb
    · cases hb
    · obtain ⟨hm0, hmn, hk⟩ := hk
      cases ht
      obtain ⟨h1, h2, h3⟩ := ih (by omega) (by omega)
      refine ⟨by omega, h2, h3.trans ?_⟩
      obtain ⟨m, rfl⟩ := Int.eq_ofNat_of_zero_le hm0
      have hlen : m < es.length := by omega
      rw [keyframe_eq hlen] at hk
      rw [Int.toNat_natCast, List.drop_eq_getElem_cons hlen, List.filter_cons_of_neg (by simp [hk]),
        show ((m : ℤ) + 1).toNat = m + 1 by omega]

theorem entry_last {m : ℤ} (h0 : -1 ≤ m) (hm : m < es.length) : es.entry m = (es.take (m + 1).toNat).getLast? := by
  rcases h0.lt_or_eq with h | rfl
  · obtain ⟨m, rfl⟩ := Int.eq_ofNat_of_zero_le (show 0 ≤ m by omega)
    have hlen : m < es.length := by omega
    rw [entry_eq hlen, show ((m : ℤ) + 1).toNat = m + 1 by omega, List.take_add_one, List.getElem?_eq_getElem hlen,
      Option.toList_some, List.getLast?_concat]
  · rfl

theorem entry_head {m : ℤ} (h0 : 0 ≤ m) : es.entry m = (es.drop m.toNat).head? := by
  rw [entry, if_neg (not_lt.mpr h0), List.head?_drop]

theorem nearest_eq (es : Index) (w : ℤ) (flags : SeekFlags) : es.nearest w flags =
    if flags.backward then
      ((es.filter fun e => decide (e.timestamp ≤ w)).filter fun e => flags.any || e.keyframe).getLast?
    else ((es.filter fun e => decide (w ≤ e.timestamp)).filter fun e => flags.any || e.keyframe).head? := by
  rw [List.filter_filter, List.filter_filter]
  unfold nearest
  cases h : flags.backward
  · exact congrArg List.head? (List.filter_congr fun e _ => by simp [wanted, h, Bool.and_comm])
  · exact congrArg List.getLast? (List.filter_congr fun e _ => by simp [wanted, h, Bool.and_comm])

/-- On a sorted index the search returns the nearest entry that is wanted, or -1. -/
theorem search_nearest (hs : es.Sorted) (w : ℤ) (flags : SeekFlags) :
    -1 ≤ ff_index_search_timestamp es w flags ∧
      es.entry (ff_index_search_timestamp es w flags) = es.nearest w flags := by
  have hend := bisect_end es w
  rw [nearest_eq]
  unfold ff_index_search_timestamp
  generalize (es.bisect w).run (.start es w) = s at hend
  have hr := s.range
  have hmet := s.met
  have hsplit := fun (i : ℕ) (hi : i < es.length) => s.split hs hend (Int.natCast_nonneg i) (Int.ofNat_lt.mpr hi)
  cases flags.backward with
  | true =>
    have ha : s.a < es.length := by
      rcases hr.2.1.lt_or_eq with h | h
      · omega
      · exact (hmet h).2.1
    have hf : (es.filter fun e => decide (e.timestamp ≤ w)) = es.take (s.a + 1).toNat := by
      refine filter_take (by omega) fun i hi => ?_
      rw [decide_eq_true_iff, ← ts_eq hi, (hsplit i hi).1]
      omega
    simp only [if_true, hf]
    cases flags.any with
    | true =>
      simp only [Bool.true_or, if_true, List.filter_true]
      rw [if_neg (by omega)]
      exact ⟨hr.1, entry_last hr.1 ha⟩
    | false =>
      obtain ⟨h1, h2, h3⟩ := nextKey_backward hr.1 ha
      simp only [Bool.false_or, Bool.false_eq_true, if_false]
      rw [if_neg (by omega)]
      exact ⟨h1, h3⟩
  | false =>
    have hb : 0 ≤ s.b := by
      rcases hr.2.1.lt_or_eq with h | h
      · omega
      · have := hmet h
        omega
    have hf : (es.filter fun e => decide (w ≤ e.timestamp)) = es.drop s.b.toNat := by
      refine filter_drop hb fun i hi => ?_
      rw [decide_eq_true_iff, ← ts_eq hi, (hsplit i hi).2]
    -- the end of the index stands for no entry
    have hnone : ∀ {m : ℤ}, 0 ≤ m → -1 ≤ (if m = es.length then -1 else m) ∧
        es.entry (if m = es.length then -1 else m) = es.entry m := by
      intro m hm
      split_ifs with h
      · refine ⟨le_rfl, ?_⟩
        simp [entry, h]
      · exact ⟨by omega, rfl⟩
    simp only [Bool.false_eq_true, if_false, hf]
    cases flags.any with
    | true =>
      simp only [Bool.true_or, if_true, List.filter_true]
      exact ⟨(hnone hb).1, (hnone hb).2.trans (entry_head hb)⟩
    | false =>
      obtain ⟨h1, h2, h3⟩ := nextKey_forward hb hr.2.2
      simp only [Bool.false_or, Bool.false_eq_true, if_false]
      exact ⟨(hnone (hb.trans h1)).1, (hnone (hb.trans h1)).2.trans h3⟩

end Index

/-! ### Adding entries -/

def RELATIVE_TS_BASE : ℤ := INT64_MAX - 2 ^ 48

def is_relative (ts : ℤ) : Bool := decide (RELATIVE_TS_BASE - 2 ^ 48 < ts)

/-- `UINT_MAX / sizeof(AVIndexEntry)` -/
def maxIndexEntries : ℕ := (2 ^ 32 - 1) / 24

/-- The arguments of `ff_add_index_entry`. -/
structure IndexEntry where
  pos : ℤ
  timestamp : ℤ
  size : ℤ := 0
  distance : ℤ := 0
  flags : ℤ := 1
  deriving DecidableEq

namespace IndexEntry

/-- The timestamp without its relative base. -/
def time (a : IndexEntry) : ℤ := if is_relative a.timestamp then a.timestamp - RELATIVE_TS_BASE else a.timestamp

/-- The entry with the minimal distance `d`. -/
def stored (a : IndexEntry) (d : ℤ) : AVIndexEntry :=
  { pos := a.pos, timestamp := a.time, flags := BitVec.ofInt 2 a.flags, size := int30 a.size, min_distance := d }

end IndexEntry

/-- `av_fast_realloc` succeeds if `realloc` is set. -/
def ff_add_index_entry (es : Index) (a : IndexEntry) (realloc : Bool) : Except AVERROR ℕ × Index :=
  if maxIndexEntries ≤ es.length + 1 then (.error (.other 1), es)
  else if a.timestamp = AV_NOPTS_VALUE then (.error .EINVAL, es)
  else if a.size < 0 ∨ 0x3FFFFFFF < a.size then (.error .EINVAL, es)
  else if realloc = false then (.error (.other 1), es)
  else
    let index := ff_index_search_timestamp es a.time { any := true }
    match es.entry index with
    | none => (.ok es.length, es ++ [a.stored a.distance])
    | some ie =>
      if ie.timestamp ≠ a.time then
        if ie.timestamp ≤ a.time then (.error (.other 1), es)
        else (.ok index.toNat, es.take index.toNat ++ a.stored a.distance :: es.drop index.toNat)
      else
        -- the distance is not reduced
        (.ok index.toNat, es.set index.toNat
          (a.stored (if ie.pos = a.pos ∧ a.distance < ie.min_distance then ie.min_distance else a.distance)))

/-- The entries with even indices. -/
def everySecond : Index → Index
  | [] => []
  | [e] => [e]
  | e :: _ :: es => e :: everySecond es

def ff_reduce_index (max_index_size : ℕ) (es : Index) : Index :=
  if max_index_size / 24 ≤ es.length then everySecond es else es

namespace Index
variable {es : Index} {w : ℤ} {flags : SeekFlags}

/-- The arguments are in order and there is memory. -/
def Admits (es : Index) (a : IndexEntry) (realloc : Bool) : Prop :=
  es.length + 1 < maxIndexEntries ∧ a.timestamp ≠ AV_NOPTS_VALUE ∧ (0 ≤ a.size ∧ a.size ≤ 0x3FFFFFFF) ∧ realloc = true

/-- `e` is what is stored of `a`; its distance is that of `a` or a larger one of before. -/
def Stores (a : IndexEntry) (e : AVIndexEntry) : Prop := e = a.stored e.min_distance ∧ a.distance ≤ e.min_distance

/-- Whatever the index is like, the search returns one of its entries or -1. -/
theorem search_range (es : Index) (w : ℤ) (flags : SeekFlags) :
    -1 ≤ ff_index_search_timestamp es w flags ∧
      (0 ≤ ff_index_search_timestamp es w flags → ff_index_search_timestamp es w flags < es.length) := by
  unfold ff_index_search_timestamp
  generalize (es.bisect w).run (.start es w) = s
  have hr := s.range
  have ha : s.a < es.length := by
    rcases hr.2.1.lt_or_eq with h | h
    · omega
    · exact (s.met h).2.1
  have hb : 0 ≤ s.b := by
    rcases hr.2.1.lt_or_eq with h | h
    · omega
    · have := s.met h
      omega
  have h1 := nextKey_backward hr.1 ha
  have h2 := nextKey_forward hb hr.2.2
  dsimp only
  cases flags.backward <;> cases flags.any <;> simp only [Bool.false_eq_true, if_true, if_false] <;> split_ifs <;>
    omega

theorem nearest_none (h : es.nearest w flags = none) : ∀ f ∈ es, wanted w flags f = false := by
  have hf : es.filter (wanted w flags) = [] := by
    unfold nearest at h
    split_ifs at h
    · exact List.getLast?_eq_none_iff.mp h
    · exact List.head?_eq_none_iff.mp h
  intro f hfe
  simpa using List.filter_eq_nil_iff.mp hf f hfe

theorem nearest_some (hs : es.Sorted) {e : AVIndexEntry} (h : es.nearest w flags = some e) :
    e ∈ es ∧ wanted w flags e = true ∧ ∀ f ∈ es, wanted w flags f = true →
      if flags.backward then f.timestamp ≤ e.timestamp else e.timestamp ≤ f.timestamp := by
  have hsort : (es.filter (wanted w flags)).Pairwise fun e f => e.timestamp < f.timestamp := hs.filter _
  have hmem : e ∈ es.filter (wanted w flags) := by
    unfold nearest at h
    split_ifs at h
    · exact List.mem_of_getLast? h
    · exact List.mem_of_head? h
  refine ⟨List.mem_of_mem_filter hmem, (List.mem_filter.mp hmem).2, fun f hf hw => ?_⟩
  have hf : f ∈ es.filter (wanted w flags) := List.mem_filter.mpr ⟨hf, hw⟩
  unfold nearest at h
  split_ifs at h ⊢
  · obtain ⟨l, hl⟩ := List.getLast?_eq_some_iff.mp h
    rw [hl] at hsort hf
    rcases List.mem_append.mp hf with hf | hf
    · exact ((List.pairwise_append.mp hsort).2.2 f hf e (List.mem_singleton.mpr rfl)).le
    · exact (List.mem_singleton.mp hf ▸ le_rfl)
  · obtain ⟨l, hl⟩ := List.head?_eq_some_iff.mp h
    rw [hl] at hsort hf
    rcases List.mem_cons.mp hf with rfl | hf
    · exact le_rfl
    · exact ((List.pairwise_cons.mp hsort).1 f hf).le

theorem Sorted.getElem?_inj (hs : es.Sorted) {i j : ℕ} {e f : AVIndexEntry} (hi : es[i]? = some e)
    (hj : es[j]? = some f) (hef : e.timestamp = f.timestamp) : i = j := by
  obtain ⟨hil, rfl⟩ := List.getElem?_eq_some_iff.mp hi
  obtain ⟨hjl, rfl⟩ := List.getElem?_eq_some_iff.mp hj
  rcases Nat.lt_trichotomy i j with h | h | h
  · exact absurd hef (List.pairwise_iff_getElem.mp hs i j hil hjl h).ne
  · exact h
  · exact absurd hef (List.pairwise_iff_getElem.mp hs j i hjl hil h).ne'

/-- The search for an entry of any kind returns the first one that is not before `w`. -/
theorem search_any (hs : es.Sorted) (w : ℤ) : match es.entry (ff_index_search_timestamp es w { any := true }) with
    | none => ∀ f ∈ es, f.timestamp < w
    | some ie => ∃ l r, es = l ++ ie :: r ∧ ff_index_search_timestamp es w { any := true } = l.length ∧
        w ≤ ie.timestamp ∧ (∀ f ∈ l, f.timestamp < w) ∧ ∀ f ∈ r, ie.timestamp < f.timestamp := by
  obtain ⟨h0, hn⟩ := search_nearest hs w { any := true }
  have hfind : es.nearest w { any := true } = es.find? fun e => decide (w ≤ e.timestamp) := by
    rw [nearest_eq]
    simp
  rw [hfind] at hn
  generalize ff_index_search_timestamp es w { any := true } = m at h0 hn ⊢
  split
  · rename_i hm
    rw [hm, eq_comm, List.find?_eq_none] at hn
    exact fun f hf => by simpa using hn f hf
  · rename_i ie hm
    rw [hm, eq_comm, List.find?_eq_some_iff_append] at hn
    obtain ⟨hw, l, r, rfl, hl⟩ := hn
    refine ⟨l, r, rfl, ?_, by simpa using hw, fun f hf => by simpa using hl f hf, ?_⟩
    · unfold entry at hm
      split_ifs at hm with hneg
      have := hs.getElem?_inj (i := m.toNat) (j := l.length) hm (by simp) rfl
      omega
    · exact (List.pairwise_cons.mp (List.pairwise_append.mp hs).2.1).1

/-- `es'` is `es` with an entry for `a`: those before it, the entry, and those after it. -/
theorem add_cases (hs : es.Sorted) (a : IndexEntry) {realloc : Bool} (ha : es.Admits a realloc) :
    ∃ (l r : Index) (e : AVIndexEntry), Stores a e ∧ ff_add_index_entry es a realloc = (.ok l.length, l ++ e :: r) ∧
      (es = l ++ r ∨ ∃ ie, ie.timestamp = a.time ∧ es = l ++ ie :: r) ∧
        (∀ f ∈ l, f.timestamp < a.time) ∧ ∀ f ∈ r, a.time < f.timestamp := by
  obtain ⟨hlen, hts, ⟨hsz, hsz'⟩, hre⟩ := ha
  have hsearch := search_any hs a.time
  unfold ff_add_index_entry
  rw [if_neg (by omega), if_neg hts, if_neg (by omega), if_neg (by simp [hre])]
  dsimp only
  generalize ff_index_search_timestamp es a.time { any := true } = m at hsearch ⊢
  have hst : ∀ d, a.distance ≤ d → Stores a (a.stored d) := fun d hd => ⟨rfl, hd⟩
  split at hsearch
  · exact ⟨es, [], _, hst _ le_rfl, rfl, .inl (List.append_nil _).symm, hsearch, fun f hf => absurd hf List.not_mem_nil⟩
  · rename_i ie hm
    obtain ⟨l, r, rfl, rfl, hw, hl, hr⟩ := hsearch
    by_cases he : ie.timestamp = a.time
    · rw [if_neg (by simpa using he)]
      refine ⟨l, r, _, hst (if ie.pos = a.pos ∧ a.distance < ie.min_distance then ie.min_distance else a.distance)
        (by split_ifs <;> omega), ?_, .inr ⟨ie, he, rfl⟩, hl, fun f hf => he ▸ hr f hf⟩
      simp
    · rw [if_pos he, if_neg (by omega)]
      refine ⟨l, ie :: r, _, hst _ le_rfl, ?_, .inl rfl, hl, ?_⟩
      · simp
      · intro f hf
        rcases List.mem_cons.mp hf with rfl | hf
        · omega
        · have := hr f hf
          omega

theorem add_refused (es : Index) (a : IndexEntry) {realloc : Bool} (ha : ¬ es.Admits a realloc) :
    ∃ e, ff_add_index_entry es a realloc = (.error e, es) := by
  unfold ff_add_index_entry
  split_ifs with h1 h2 h3 h4
  · exact ⟨_, rfl⟩
  · exact ⟨_, rfl⟩
  · exact ⟨_, rfl⟩
  · exact ⟨_, rfl⟩
  · exact absurd ⟨by omega, h2, by omega, by simpa using h4⟩ ha

theorem everySecond_sublist : ∀ es : Index, (everySecond es).Sublist es
  | [] => .slnil
  | [_] => .refl _
  | e :: f :: es => ((everySecond_sublist es).cons f).cons_cons e

theorem everySecond_head : ∀ es : Index, (everySecond es).head? = es.head?
  | [] | [_] | _ :: _ :: _ => rfl

end Index

/-! ### The index of a run -/

inductive IndexOp
  | add (a : IndexEntry) (realloc : Bool)
  | reduce

/-- An index with its history: the last entry that was accepted for each timestamp, and whether the index was
reduced. -/
structure Indexed where
  es : Index := []
  latest : ℤ → Option IndexEntry := fun _ => none
  reduced : Bool := false

namespace Indexed

def op (max_index_size : ℕ) (s : Indexed) : IndexOp → Indexed
  | .add a realloc =>
    match ff_add_index_entry s.es a realloc with
    | (.ok _, es) => { s with es := es, latest := Function.update s.latest a.time (some a) }
    | (.error _, es) => { s with es := es }
  | .reduce =>
    { s with es := ff_reduce_index max_index_size s.es
             reduced := s.reduced || decide (max_index_size / 24 ≤ s.es.length) }

def run (max_index_size : ℕ) (ops : List IndexOp) : Indexed := ops.foldl (op max_index_size) {}

/-- The index is sorted, and an entry is what was last stored for its timestamp; the first one is never later
than anything that was added. -/
structure Inv (s : Indexed) : Prop where
  sorted : s.es.Sorted
  stored : ∀ e ∈ s.es, ∃ a, s.latest e.timestamp = some a ∧ Index.Stores a e ∧ 0 ≤ a.size ∧ a.size ≤ 0x3FFFFFFF
  first : ∀ t a, s.latest t = some a → ∃ e ∈ s.es.head?, e.timestamp ≤ t
  whole : s.reduced = false → ∀ t a, s.latest t = some a → ∃ e ∈ s.es, e.timestamp = t

theorem Inv.add {s : Indexed} (h : s.Inv) (max : ℕ) (a : IndexEntry) (realloc : Bool) :
    (s.op max (.add a realloc)).Inv := by
  by_cases ha : s.es.Admits a realloc
  · obtain ⟨l, r, e, he, hadd, hes, hl, hr⟩ := Index.add_cases h.sorted a ha
    have het : e.timestamp = a.time := by
      rw [he.1]
      rfl
    -- what is on both sides was there before
    have hold : ∀ f, f ∈ l ∨ f ∈ r → f ∈ s.es := by
      intro f hf
      rcases hes with hes | ⟨ie, -, hes⟩ <;> rw [hes] <;> simp <;> tauto
    have hother : ∀ f ∈ s.es, f.timestamp ≠ a.time → f ∈ l ∨ f ∈ r := by
      intro f hf hne
      rcases hes with hes | ⟨ie, hie, hes⟩ <;> rw [hes] at hf <;> simp at hf
      · exact hf
      · rcases hf with hf | rfl | hf
        · exact .inl hf
        · exact absurd hie hne
        · exact .inr hf
    have hop : s.op max (.add a realloc) =
        { s with es := l ++ e :: r, latest := Function.update s.latest a.time (some a) } := by
      simp only [op, hadd]
    have hsub : (l ++ r).Sublist s.es := by
      rcases hes with hes | ⟨ie, -, hes⟩ <;> rw [hes]
      exact (List.Sublist.refl l).append (List.sublist_cons_self ie r)
    rw [hop]
    refine ⟨?_, fun f hf => ?_, fun t a' ha' => ?_, fun hred t a' ha' => ?_⟩
    · have hlr := List.pairwise_append.mp (h.sorted.sublist hsub)
      refine List.pairwise_append.mpr ⟨hlr.1, List.pairwise_cons.mpr ⟨fun f hf => het ▸ hr f hf, hlr.2.1⟩, ?_⟩
      intro f hf g hg
      rcases List.mem_cons.mp hg with rfl | hg
      · exact het ▸ hl f hf
      · exact hlr.2.2 f hf g hg
    · dsimp only at hf ⊢
      rw [List.mem_append, List.mem_cons] at hf
      by_cases hfe : f = e
      · rw [hfe, het, Function.update_self]
        exact ⟨a, rfl, he, ha.2.2.1⟩
      · have hne : f.timestamp ≠ a.time := by
          rcases hf with hf | hf | hf
          · exact (hl f hf).ne
          · exact absurd hf hfe
          · exact (hr f hf).ne'
        rw [Function.update_of_ne hne]
        exact h.stored f (hold f (by tauto))
    · dsimp only at ha' ⊢
      -- the head is that of `l`, or the new entry
      rcases l with _ | ⟨x, l⟩
      · refine ⟨e, rfl, ?_⟩
        by_cases ht : t = a.time
        · omega
        · rw [Function.update_of_ne ht] at ha'
          obtain ⟨x, hx, hxt⟩ := h.first t a' ha'
          rcases hes with hes | ⟨ie, hie, hes⟩ <;> rw [hes] at hx
          · have := hr x (List.mem_of_mem_head? hx)
            omega
          · cases hx
            omega
      · refine ⟨x, rfl, ?_⟩
        have hx := hl x List.mem_cons_self
        by_cases ht : t = a.time
        · omega
        · rw [Function.update_of_ne ht] at ha'
          obtain ⟨y, hy, hyt⟩ := h.first t a' ha'
          rcases hes with hes | ⟨ie, hie, hes⟩ <;> rw [hes] at hy <;> cases hy <;> exact hyt
    · dsimp only at ha' ⊢
      by_cases ht : t = a.time
      · exact ⟨e, by simp, het.trans ht.symm⟩
      · rw [Function.update_of_ne ht] at ha'
        obtain ⟨f, hf, rfl⟩ := h.whole hred t a' ha'
        have := hother f hf ht
        exact ⟨f, by rw [List.mem_append, List.mem_cons]; tauto, rfl⟩
  · obtain ⟨e, he⟩ := Index.add_refused s.es a ha
    have hop : s.op max (.add a realloc) = s := by simp only [op, he]
    rw [hop]
    exact h

theorem Inv.reduce {s : Indexed} (h : s.Inv) (max : ℕ) : (s.op max .reduce).Inv := by
  unfold op ff_reduce_index
  split_ifs with hmax
  · have hsub := Index.everySecond_sublist s.es
    refine ⟨h.sorted.sublist hsub, fun e he => h.stored e (hsub.subset he), fun t a ha => ?_, fun hred => ?_⟩
    · rw [Index.everySecond_head]
      exact h.first t a ha
    · simp [hmax] at hred
  · exact ⟨h.sorted, h.stored, h.first, fun hred => h.whole (by simpa [hmax] using hred)⟩

theorem run_inv (max : ℕ) (ops : List IndexOp) : (run max ops).Inv := by
  suffices h : ∀ s : Indexed, s.Inv → (ops.foldl (op max) s).Inv by
    refine h {} ⟨.nil, fun e he => absurd he List.not_mem_nil, fun t a ha => ?_, fun _ t a ha => ?_⟩ <;> cases ha
  induction ops with
  | nil => exact fun s hs => hs
  | cons o ops ih =>
    intro s hs
    cases o with
    | add a realloc => exact ih _ (hs.add max a realloc)
    | reduce => exact ih _ (hs.reduce max)

end Indexed

theorem int30_eq_iff {n : ℤ} (h0 : 0 ≤ n) (hn : n ≤ 0x3FFFFFFF) : int30 n = n ↔ n < 2 ^ 29 := by
  unfold int30
  constructor
  · intro h
    have := Int.bmod_lt (x := n) (m := 2 ^ 30) (by decide)
    omega
  · intro h
    exact Int.bmod_eq_of_le (by omega) (by omega)

/-- Whatever entries were added and however often the index was reduced, it is sorted, and a search finds the
nearest entry that the flags ask for. It stands for the last entry that was accepted for its timestamp, whose size is kept up to
`2 ^ 29`; nothing is missing as long as the index was not reduced, and there always is an entry as early as
what was added. -/
theorem index_search_run (max_index_size : ℕ) (ops : List IndexOp) (w : ℤ) (flags : SeekFlags) :
    let s := Indexed.run max_index_size ops
    s.es.Sorted ∧
    (match s.es.entry (ff_index_search_timestamp s.es w flags) with
      | some e => Index.wanted w flags e = true ∧
          (∀ f ∈ s.es, Index.wanted w flags f = true →
            if flags.backward then f.timestamp ≤ e.timestamp else e.timestamp ≤ f.timestamp) ∧
          ∃ a, s.latest e.timestamp = some a ∧ Index.Stores a e ∧ (e.size = a.size ↔ a.size < 2 ^ 29)
      | none => ∀ f ∈ s.es, Index.wanted w flags f = false) ∧
    ∀ t a, s.latest t = some a →
      (∃ e ∈ s.es.head?, e.timestamp ≤ t) ∧ (s.reduced = false → ∃ e ∈ s.es, e.timestamp = t) := by
  intro s
  have hs : s.Inv := Indexed.run_inv max_index_size ops
  refine ⟨hs.sorted, ?_, fun t a ha => ⟨hs.first t a ha, fun hred => hs.whole hred t a ha⟩⟩
  rw [(Index.search_nearest hs.sorted w flags).2]
  split
  · rename_i e he
    obtain ⟨hmem, hw, hnear⟩ := Index.nearest_some hs.sorted he
    obtain ⟨a, ha, hst, h0, hmax⟩ := hs.stored e hmem
    refine ⟨hw, hnear, a, ha, hst, ?_⟩
    rw [hst.1]
    exact int30_eq_iff h0 hmax
  · rename_i he
    exact Index.nearest_none he

end LibAV
