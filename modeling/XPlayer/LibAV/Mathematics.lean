import XPlayer.Data
import XPlayer.Lib.Wrap
import Mathlib.Algebra.Order.Round
import Mathlib.Tactic.Ring
import Mathlib.Tactic.Linarith
import Mathlib.Tactic.FieldSimp

/-!
# Rescaling of timestamps

`av_rescale_rnd` computes `a * b / c` in 64-bit integers without losing the bits of the product: directly
while the operands are small, in two parts while `b` and `c` are, and else by a 128-bit product of 32-bit
halves that is divided bit by bit. `av_rescale_rnd_eq` says that it is the quotient, rounded as asked for,
in each of the three ways, and that it returns `INT64_MIN` exactly when that does not fit.
-/

namespace LibAV
open XPlayer

def INT_MAX : ℤ := 2 ^ 31 - 1
def INT64_MAX : ℤ := 2 ^ 63 - 1
def INT64_MIN : ℤ := -2 ^ 63

def int64 (n : ℤ) : ℤ := n.bmod (2 ^ 64)

def uint64 (n : ℕ) : ℕ := n % 2 ^ 64

inductive AVRounding
  | ZERO | INF | DOWN | UP | NEAR_INF
  deriving DecidableEq

namespace AVRounding

/-- `rnd ^ ((rnd >> 1) & 1)`: up and down change places. -/
def mirror : AVRounding → AVRounding
  | DOWN => UP
  | UP => DOWN
  | rnd => rnd

/-- What is added to the dividend. -/
def bias (c : ℤ) : AVRounding → ℤ
  | NEAR_INF => c / 2
  | INF | UP => c - 1
  | ZERO | DOWN => 0

end AVRounding

/-- The upper and the lower half of `a * b + r`. -/
def mul128 (a b r : ℕ) : ℕ × ℕ :=
  let a0 := a % 2 ^ 32
  let a1 := a / 2 ^ 32
  let b0 := b % 2 ^ 32
  let b1 := b / 2 ^ 32
  let t1 := uint64 (a0 * b1 + a1 * b0)
  let t1a := uint64 (t1 * 2 ^ 32)
  let lo := uint64 (a0 * b0 + t1a)
  let hi := uint64 (a1 * b1 + t1 / 2 ^ 32 + if lo < t1a then 1 else 0)
  let lo' := uint64 (lo + r)
  (uint64 (hi + if lo' < r then 1 else 0), lo')

/-- A turn of the division: the next bit `i` of `a0` is shifted into `a1`. -/
def divBit (c a0 : ℕ) (s : ℕ × ℕ) (i : ℕ) : ℕ × ℕ :=
  let a1 := uint64 (s.1 + (s.1 + a0 / 2 ^ i % 2))
  let t1 := uint64 (s.2 + s.2)
  if c ≤ a1 then (a1 - c, uint64 (t1 + 1)) else (a1, t1)

/-- The bits `n - 1` to `0` of `a0`, one by one. -/
def divBits (c a0 : ℕ) : ℕ → ℕ × ℕ → ℕ × ℕ
  | 0, s => s
  | n + 1, s => divBits c a0 n (divBit c a0 s n)

/-- `av_rescale_rnd` of an `a` that is not negative. -/
def rescalePos (a b c : ℤ) (rnd : AVRounding) : ℤ :=
  let r := rnd.bias c
  if b ≤ INT_MAX ∧ c ≤ INT_MAX then
    if a ≤ INT_MAX then int64 (a * b + r) / c
    else
      let ad := a / c
      let a2 := int64 (a % c * b + r) / c
      if ad ≥ INT_MAX ∧ b ≠ 0 ∧ ad > (INT64_MAX - a2) / b then INT64_MIN else int64 (ad * b + a2)
  else
    let p := mul128 a.toNat b.toNat r.toNat
    -- `t1` still holds a part of the product: the 64 turns shift it out
    let t1 := (divBits c.toNat p.2 64
      (p.1, uint64 (a.toNat % 2 ^ 32 * (b.toNat / 2 ^ 32) + a.toNat / 2 ^ 32 * (b.toNat % 2 ^ 32)))).2
    if (t1 : ℤ) > INT64_MAX then INT64_MIN else t1

/-- `pass` is `AV_ROUND_PASS_MINMAX`. -/
def av_rescale_rnd (a b c : ℤ) (rnd : AVRounding) (pass : Bool) : ℤ :=
  if c ≤ 0 ∨ b < 0 then INT64_MIN
  else if pass ∧ (a = INT64_MIN ∨ a = INT64_MAX) then a
  else if a < 0 then int64 (-rescalePos (-max a (-INT64_MAX)) b c rnd.mirror)
  else rescalePos a b c rnd

def av_rescale (a b c : ℤ) : ℤ := av_rescale_rnd a b c .NEAR_INF false

def av_rescale_q_rnd (a : ℤ) (bq cq : AVRational) (rnd : AVRounding) (pass : Bool) : ℤ :=
  av_rescale_rnd a (bq.num * cq.den) (cq.num * bq.den) rnd pass

def av_rescale_q (a : ℤ) (bq cq : AVRational) : ℤ := av_rescale_q_rnd a bq cq .NEAR_INF false

/-! ### The product and the division in 64-bit pieces -/

/-- The sum wrapped exactly when it is below the second summand. -/
theorem add_carry {x y : ℕ} (hx : x < 2 ^ 64) (hy : y < 2 ^ 64) :
    (if uint64 (x + y) < y then 1 else 0) * 2 ^ 64 + uint64 (x + y) = x + y := by
  unfold uint64
  split <;> omega

/-- The two halves are `a * b + r`, without a carry lost. -/
theorem mul128_eq {a b r : ℕ} (ha : a < 2 ^ 63) (hb : b < 2 ^ 63) (hr : r < 2 ^ 63) :
    (mul128 a b r).1 * 2 ^ 64 + (mul128 a b r).2 = a * b + r ∧ (mul128 a b r).1 < 2 ^ 63 ∧
      (mul128 a b r).2 < 2 ^ 64 := by
  have hab : a * b = a / 2 ^ 32 * (b / 2 ^ 32) * 2 ^ 64 +
      (a % 2 ^ 32 * (b / 2 ^ 32) + a / 2 ^ 32 * (b % 2 ^ 32)) * 2 ^ 32 + a % 2 ^ 32 * (b % 2 ^ 32) := by
    nth_rewrite 1 [← Nat.div_add_mod a (2 ^ 32), ← Nat.div_add_mod b (2 ^ 32)]
    ring
  have a0 : a % 2 ^ 32 ≤ 2 ^ 32 - 1 := by omega
  have a1 : a / 2 ^ 32 ≤ 2 ^ 31 - 1 := by omega
  have b0 : b % 2 ^ 32 ≤ 2 ^ 32 - 1 := by omega
  have b1 : b / 2 ^ 32 ≤ 2 ^ 31 - 1 := by omega
  have h00 := Nat.mul_le_mul a0 b0
  have h01 := Nat.mul_le_mul a0 b1
  have h10 := Nat.mul_le_mul a1 b0
  have h11 : a / 2 ^ 32 * (b / 2 ^ 32) ≤ 2 ^ 62 := (Nat.mul_le_mul a1 b1).trans (by decide)
  rw [hab]
  simp only [mul128]
  generalize a % 2 ^ 32 * (b % 2 ^ 32) = x00 at h00 ⊢
  generalize a % 2 ^ 32 * (b / 2 ^ 32) = x01 at h01 ⊢
  generalize a / 2 ^ 32 * (b % 2 ^ 32) = x10 at h10 ⊢
  generalize a / 2 ^ 32 * (b / 2 ^ 32) = x11 at h11 ⊢
  have ht : uint64 (x01 + x10) = x01 + x10 := Nat.mod_eq_of_lt (by omega)
  have hta : uint64 ((x01 + x10) * 2 ^ 32) = (x01 + x10) % 2 ^ 32 * 2 ^ 32 := by unfold uint64; omega
  have c1 := add_carry (x := x00) (y := (x01 + x10) % 2 ^ 32 * 2 ^ 32) (by omega) (by omega)
  have c2 := add_carry (x := uint64 (x00 + (x01 + x10) % 2 ^ 32 * 2 ^ 32)) (y := r)
    (Nat.mod_lt _ (by decide)) (by omega)
  rw [ht, hta]
  have hlo0 : uint64 (x00 + (x01 + x10) % 2 ^ 32 * 2 ^ 32) < 2 ^ 64 := Nat.mod_lt _ (by decide)
  generalize uint64 (x00 + (x01 + x10) % 2 ^ 32 * 2 ^ 32) = lo at c1 c2 hlo0 ⊢
  generalize (if lo < (x01 + x10) % 2 ^ 32 * 2 ^ 32 then 1 else 0) = k1 at c1 ⊢
  have hlo : uint64 (lo + r) < 2 ^ 64 := Nat.mod_lt _ (by decide)
  generalize uint64 (lo + r) = lo' at c2 hlo ⊢
  generalize (if lo' < r then 1 else 0) = k2 at c2 ⊢
  have hk1 : k1 ≤ 1 := by omega
  have hk2 : k2 ≤ 1 := by omega
  have hth : (x01 + x10) / 2 ^ 32 ≤ 2 ^ 32 := by omega
  have hhi : uint64 (x11 + (x01 + x10) / 2 ^ 32 + k1) = x11 + (x01 + x10) / 2 ^ 32 + k1 :=
    Nat.mod_eq_of_lt (by omega)
  have hhi' : uint64 (x11 + (x01 + x10) / 2 ^ 32 + k1 + k2) = x11 + (x01 + x10) / 2 ^ 32 + k1 + k2 :=
    Nat.mod_eq_of_lt (by omega)
  rw [hhi, hhi']
  have hdm := Nat.div_add_mod (x01 + x10) (2 ^ 32)
  refine ⟨?_, ?_, hlo⟩
  · linarith only [c1, c2, hdm]
  · linarith only [h11, hk1, hk2, hth]

theorem divBits_snd (c a0 n : ℕ) (s : ℕ × ℕ) :
    ∃ q < 2 ^ n, (divBits c a0 n s).2 % 2 ^ 64 = (s.2 * 2 ^ n + q) % 2 ^ 64 := by
  induction n generalizing s with
  | zero => exact ⟨0, Nat.one_pos, by simp [divBits]⟩
  | succ n ih =>
    obtain ⟨q, hq, h⟩ := ih (divBit c a0 s n)
    obtain ⟨d, hd, hs⟩ : ∃ d < 2, (divBit c a0 s n).2 % 2 ^ 64 = (s.2 * 2 + d) % 2 ^ 64 := by
      unfold divBit uint64
      by_cases hc : c ≤ (s.1 + (s.1 + a0 / 2 ^ n % 2)) % 2 ^ 64
      · exact ⟨1, by omega, by simp only [if_pos hc]; omega⟩
      · exact ⟨0, by omega, by simp only [if_neg hc]; omega⟩
    refine ⟨d * 2 ^ n + q, ?_, ?_⟩
    · calc d * 2 ^ n + q < d * 2 ^ n + 2 ^ n := by omega
        _ = (d + 1) * 2 ^ n := by ring
        _ ≤ 2 * 2 ^ n := Nat.mul_le_mul_right _ (by omega)
        _ = 2 ^ (n + 1) := by ring
    · calc (divBits c a0 n (divBit c a0 s n)).2 % 2 ^ 64
          = ((divBit c a0 s n).2 % 2 ^ 64 * 2 ^ n + q) % 2 ^ 64 := by rw [h]; simp [Nat.add_mod, Nat.mul_mod]
        _ = ((s.2 * 2 + d) * 2 ^ n + q) % 2 ^ 64 := by rw [hs]; simp [Nat.add_mod, Nat.mul_mod]
        _ = (s.2 * 2 ^ (n + 1) + (d * 2 ^ n + q)) % 2 ^ 64 := by ring_nf

theorem divBit_eq {c : ℕ} (hc : c ≤ 2 ^ 63) (a0 i : ℕ) {s : ℕ × ℕ} (hs : s.1 < c) :
    ∃ d < 2, s.1 * 2 + a0 / 2 ^ i % 2 = d * c + (divBit c a0 s i).1 ∧ (divBit c a0 s i).1 < c ∧
      (divBit c a0 s i).2 = (s.2 * 2 + d) % 2 ^ 64 := by
  have hw : (s.1 + (s.1 + a0 / 2 ^ i % 2)) % 2 ^ 64 = s.1 + (s.1 + a0 / 2 ^ i % 2) :=
    Nat.mod_eq_of_lt (by omega)
  unfold divBit uint64
  rw [hw]
  by_cases hd : c ≤ s.1 + (s.1 + a0 / 2 ^ i % 2)
  · exact ⟨1, by omega, by simp only [if_pos hd]; omega⟩
  · exact ⟨0, by omega, by simp only [if_neg hd]; omega⟩

/-- While the remainder is below `c`, the turns divide. -/
theorem divBits_eq {c : ℕ} (hc : c ≤ 2 ^ 63) (a0 n : ℕ) {s : ℕ × ℕ} (hs : s.1 < c) :
    ∃ q < 2 ^ n, s.1 * 2 ^ n + a0 % 2 ^ n = q * c + (divBits c a0 n s).1 ∧ (divBits c a0 n s).1 < c ∧
      (divBits c a0 n s).2 % 2 ^ 64 = (s.2 * 2 ^ n + q) % 2 ^ 64 := by
  induction n generalizing s with
  | zero => exact ⟨0, Nat.one_pos, by simp [divBits, Nat.mod_one], hs, by simp [divBits]⟩
  | succ n ih =>
    obtain ⟨d, hd, h1, h2, h3⟩ := divBit_eq hc a0 n hs
    obtain ⟨q, hq, h4, h5, h6⟩ := ih h2
    have hm : a0 % 2 ^ (n + 1) = a0 / 2 ^ n % 2 * 2 ^ n + a0 % 2 ^ n := by
      rw [pow_succ, Nat.mod_mul]; ring
    refine ⟨d * 2 ^ n + q, ?_, ?_, h5, ?_⟩
    · have := Nat.mul_le_mul_right (2 ^ n) (show d + 1 ≤ 2 by omega)
      rw [pow_succ]; linarith
    · calc s.1 * 2 ^ (n + 1) + a0 % 2 ^ (n + 1) = (s.1 * 2 + a0 / 2 ^ n % 2) * 2 ^ n + a0 % 2 ^ n := by
            rw [hm]; ring
        _ = d * 2 ^ n * c + ((divBit c a0 s n).1 * 2 ^ n + a0 % 2 ^ n) := by rw [h1]; ring
        _ = (d * 2 ^ n + q) * c + (divBits c a0 n (divBit c a0 s n)).1 := by rw [h4]; ring
    · calc (divBits c a0 n (divBit c a0 s n)).2 % 2 ^ 64
          = ((s.2 * 2 + d) % 2 ^ 64 * 2 ^ n + q) % 2 ^ 64 := by rw [h6, h3]
        _ = ((s.2 * 2 + d) * 2 ^ n + q) % 2 ^ 64 := by simp [Nat.add_mod, Nat.mul_mod]
        _ = (s.2 * 2 ^ (n + 1) + (d * 2 ^ n + q)) % 2 ^ 64 := by ring_nf

theorem divBit_lt (c a0 i : ℕ) (s : ℕ × ℕ) : (divBit c a0 s i).2 < 2 ^ 64 := by
  unfold divBit uint64
  dsimp only
  split <;> exact Nat.mod_lt _ (by decide)

theorem divBits_lt (c a0 n : ℕ) {s : ℕ × ℕ} (hs : s.2 < 2 ^ 64) : (divBits c a0 n s).2 < 2 ^ 64 := by
  induction n generalizing s with
  | zero => exact hs
  | succ n ih => exact ih (divBit_lt c a0 n s)

/-- The 128-bit way: the quotient, or `2 ^ 63` and more if the quotient is. -/
theorem div128_eq {a b c r t : ℕ} (ha : a < 2 ^ 63) (hb : b < 2 ^ 63) (hr : r < 2 ^ 63) (hc0 : 0 < c)
    (hc : c ≤ 2 ^ 63) :
    (divBits c (mul128 a b r).2 64 ((mul128 a b r).1, t)).2 % 2 ^ 64 = (a * b + r) / c ∨
      2 ^ 63 ≤ (divBits c (mul128 a b r).2 64 ((mul128 a b r).1, t)).2 % 2 ^ 64 ∧ 2 ^ 63 ≤ (a * b + r) / c := by
  obtain ⟨hm, hhi, hlo⟩ := mul128_eq ha hb hr
  generalize mul128 a b r = p at hm hhi hlo ⊢
  rw [← hm]
  by_cases hs : p.1 < c
  · left
    obtain ⟨q, hq, h1, h2, h3⟩ := divBits_eq hc p.2 64 (s := (p.1, t)) hs
    rw [Nat.mod_eq_of_lt hlo] at h1
    rw [h3, Nat.mul_add_mod_of_lt hq, h1, Nat.mul_comm q c, Nat.mul_add_div hc0, Nat.div_eq_of_lt h2,
      Nat.add_zero]
  · right
    constructor
    · -- the first turn already sets the uppermost bit
      obtain ⟨q, hq, h⟩ := divBits_snd c p.2 63 (divBit c p.2 (p.1, t) 63)
      have hd : (divBit c p.2 (p.1, t) 63).2 % 2 = 1 := by
        have hle : c ≤ uint64 (p.1 + (p.1 + p.2 / 2 ^ 63 % 2)) := by unfold uint64; omega
        rw [show (divBit c p.2 (p.1, t) 63).2 = uint64 (uint64 (t + t) + 1) from
          congrArg Prod.snd (if_pos hle)]
        unfold uint64
        omega
      rw [divBits, h]
      omega
    · calc 2 ^ 63 ≤ 2 ^ 64 * c / c := by rw [Nat.mul_div_cancel _ hc0]; decide
        _ ≤ (p.1 * 2 ^ 64 + p.2) / c := Nat.div_le_div_right (by omega)

theorem int64_eq {n : ℤ} (h0 : -2 ^ 63 ≤ n) (h1 : n < 2 ^ 63) : int64 n = n :=
  (Wrap.bmod_eq_self_iff (by decide)).mpr ⟨h0, h1⟩

theorem bias_nonneg {c : ℤ} (hc : 0 < c) (rnd : AVRounding) : 0 ≤ rnd.bias c ∧ rnd.bias c < c := by
  cases rnd <;> simp only [AVRounding.bias] <;> omega

/-- What `av_rescale_rnd` computes of an `a` that is not negative, in each of its three ways. -/
theorem rescalePos_eq {a b c : ℤ} {rnd : AVRounding} (ha0 : 0 ≤ a) (ha : a ≤ INT64_MAX) (hb0 : 0 ≤ b)
    (hb : b ≤ INT64_MAX) (hc0 : 0 < c) (hc : c ≤ INT64_MAX) :
    rescalePos a b c rnd =
      if (a * b + rnd.bias c) / c ≤ INT64_MAX then (a * b + rnd.bias c) / c else INT64_MIN := by
  obtain ⟨hr0, hr⟩ := bias_nonneg hc0 rnd
  unfold INT64_MAX at ha hb hc
  unfold rescalePos
  by_cases hs : b ≤ INT_MAX ∧ c ≤ INT_MAX
  · simp only [if_pos hs]
    unfold INT_MAX at hs
    by_cases hm : a ≤ INT_MAX
    · rw [if_pos hm]
      unfold INT_MAX at hm
      have hab : a * b ≤ (2 ^ 31 - 1) * (2 ^ 31 - 1) := Int.mul_le_mul hm hs.1 hb0 (by decide)
      have hab0 := Int.mul_nonneg ha0 hb0
      have hle : (a * b + rnd.bias c) / c ≤ a * b + rnd.bias c := Int.ediv_le_self _ (by omega)
      rw [int64_eq (by omega) (by omega), if_pos (by unfold INT64_MAX; omega)]
    · rw [if_neg hm]
      have hm0 := Int.emod_nonneg a hc0.ne'
      have hm1 := Int.emod_lt_of_pos a hc0
      have hq : (a * b + rnd.bias c) / c = a / c * b + (a % c * b + rnd.bias c) / c := by
        nth_rewrite 1 [← Int.mul_ediv_add_emod a c]
        rw [show (c * (a / c) + a % c) * b + rnd.bias c = a % c * b + rnd.bias c + a / c * b * c by ring,
          Int.add_mul_ediv_right _ _ hc0.ne', add_comm]
      have hmb : a % c * b ≤ (2 ^ 31 - 1) * (2 ^ 31 - 1) := Int.mul_le_mul (by omega) hs.1 hb0 (by decide)
      have hmb0 := Int.mul_nonneg hm0 hb0
      rw [int64_eq (by omega) (by omega), hq]
      have h2 : (a % c * b + rnd.bias c) / c ≤ b := by
        refine Int.le_of_lt_add_one (Int.ediv_lt_of_lt_mul hc0 ?_)
        have := Int.mul_le_mul_of_nonneg_right (show a % c ≤ c - 1 by omega) hb0
        linarith
      have h20 : 0 ≤ (a % c * b + rnd.bias c) / c := Int.ediv_nonneg (by omega) hc0.le
      generalize (a % c * b + rnd.bias c) / c = a2 at h2 h20 ⊢
      have had : 0 ≤ a / c := Int.ediv_nonneg ha0 hc0.le
      generalize a / c = ad at had ⊢
      have hadb := Int.mul_nonneg had hb0
      unfold INT64_MAX INT_MAX
      by_cases hov : ad * b + a2 ≤ 2 ^ 63 - 1
      · rw [if_pos hov, int64_eq (by omega) (by omega), if_neg]
        rintro ⟨-, hb', h⟩
        have := (Int.ediv_lt_iff_lt_mul (by omega)).mp h
        omega
      · rw [if_neg hov, if_pos]
        have hb' : b ≠ 0 := by
          rintro rfl
          omega
        refine ⟨?_, hb', (Int.ediv_lt_iff_lt_mul (by omega)).mpr (by omega)⟩
        by_contra hlt
        have := Int.mul_le_mul (show ad ≤ 2 ^ 31 - 2 by omega) hs.1 hb0 (by decide)
        omega
  · simp only [if_neg hs]
    lift a to ℕ using ha0
    lift b to ℕ using hb0
    lift c to ℕ using hc0.le
    obtain ⟨r, hr'⟩ := Int.eq_ofNat_of_zero_le hr0
    simp only [hr', Int.toNat_natCast] at hr ⊢
    have h := div128_eq (a := a) (b := b) (r := r) (c := c)
      (t := uint64 (a % 2 ^ 32 * (b / 2 ^ 32) + a / 2 ^ 32 * (b % 2 ^ 32)))
      (by omega) (by omega) (by omega) (by omega) (by omega)
    rw [Nat.mod_eq_of_lt (divBits_lt _ _ _ (Nat.mod_lt _ (by decide)))] at h
    generalize (divBits c (mul128 a b r).2 64 _).2 = q at h ⊢
    have hq : (((a * b + r) / c : ℕ) : ℤ) = (a * b + r) / c := by push_cast; rfl
    rw [← hq]
    unfold INT64_MAX
    rcases h with h | ⟨h1, h2⟩
    · rw [h]
      split_ifs <;> omega
    · rw [if_pos (by omega), if_neg (by omega)]

/-! ### Rounding -/

namespace AVRounding

/-- What the rounding methods mean. -/
def round : AVRounding → ℚ → ℤ
  | ZERO, q => if 0 ≤ q then ⌊q⌋ else ⌈q⌉
  | INF, q => if 0 ≤ q then ⌈q⌉ else ⌊q⌋
  | DOWN, q => ⌊q⌋
  | UP, q => ⌈q⌉
  | NEAR_INF, q => if 0 ≤ q then ⌊q + 1 / 2⌋ else ⌈q - 1 / 2⌉

theorem round_neg (rnd : AVRounding) (q : ℚ) : rnd.round (-q) = -rnd.mirror.round q := by
  have h1 : ⌊-q + 2⁻¹⌋ = -⌈q - 2⁻¹⌉ := by rw [← Int.floor_neg]; congr 1; ring
  have h2 : ⌈-q - 2⁻¹⌉ = -⌊q + 2⁻¹⌋ := by rw [← Int.ceil_neg]; congr 1; ring
  rcases lt_trichotomy q 0 with hq | rfl | hq
  · have hn : ¬ 0 ≤ q := not_le.mpr hq
    have hp : 0 ≤ -q := by linarith
    cases rnd <;> simp [round, mirror, hn, hp, Int.floor_neg, Int.ceil_neg, h1]
  · cases rnd <;> norm_num [round, mirror]
  · have hn : ¬ 0 ≤ -q := by linarith
    cases rnd <;> simp [round, mirror, hq.le, hn, Int.floor_neg, Int.ceil_neg, h2]

theorem floor_div (n : ℤ) {c : ℤ} (hc : 0 < c) : ⌊(n / c : ℚ)⌋ = n / c := by
  lift c to ℕ using hc.le
  exact Rat.floor_intCast_div_natCast n c

theorem round_div {n c : ℤ} (hn : 0 ≤ n) (hc : 0 < c) (rnd : AVRounding) :
    rnd.round (n / c) = (n + rnd.bias c) / c := by
  have hq : (0 : ℚ) ≤ n / c := div_nonneg (by exact_mod_cast hn) (by exact_mod_cast hc.le)
  have hup : ⌈(n / c : ℚ)⌉ = (n + (c - 1)) / c := by
    have hcq : (0 : ℚ) < c := by exact_mod_cast hc
    have hdm := Int.mul_ediv_add_emod (n + (c - 1)) c
    have hm0 := Int.emod_nonneg (n + (c - 1)) hc.ne'
    have hm1 := Int.emod_lt_of_pos (n + (c - 1)) hc
    rw [Int.ceil_eq_iff, lt_div_iff₀ hcq, div_le_iff₀ hcq]
    generalize (n + (c - 1)) / c = k at hdm ⊢
    constructor
    · exact_mod_cast (by linarith : (k - 1) * c < n)
    · exact_mod_cast (by linarith : n ≤ k * c)
  cases rnd <;> simp only [round, bias, if_pos hq, add_zero, floor_div n hc, hup]
  have hcq : (c : ℚ) ≠ 0 := by exact_mod_cast hc.ne'
  rw [show (n / c + 1 / 2 : ℚ) = ((2 * n + c : ℤ) : ℚ) / ((2 * c : ℤ) : ℚ) by push_cast; field_simp,
    floor_div _ (by omega), ← Int.ediv_ediv_of_nonneg (by omega)]
  congr 1
  omega

end AVRounding

/-! ### What is computed -/

def rescaled (rnd : AVRounding) (x : ℚ) : ℤ := if |rnd.round x| ≤ INT64_MAX then rnd.round x else INT64_MIN

theorem rescale_rnd_eq {a b c : ℤ} {rnd : AVRounding} {pass : Bool} (ha : INT64_MIN ≤ a ∧ a ≤ INT64_MAX)
    (hb : 0 ≤ b ∧ b ≤ INT64_MAX) (hc : 0 < c ∧ c ≤ INT64_MAX) (hp : ¬ (pass ∧ (a = INT64_MIN ∨ a = INT64_MAX))) :
    av_rescale_rnd a b c rnd pass = rescaled rnd (((max a (-INT64_MAX) * b : ℤ) : ℚ) / c) := by
  have hcb : ¬ (c ≤ 0 ∨ b < 0) := by omega
  unfold av_rescale_rnd
  rw [if_neg hcb, if_neg hp]
  split_ifs with hneg
  · have hm : max a (-INT64_MAX) < 0 := by unfold INT64_MAX; omega
    have hn : 0 ≤ -max a (-INT64_MAX) * b := Int.mul_nonneg (by omega) hb.1
    have hq : rnd.round (((max a (-INT64_MAX) * b : ℤ) : ℚ) / c) =
        -((-max a (-INT64_MAX) * b + rnd.mirror.bias c) / c) := by
      rw [← AVRounding.round_div hn hc.1, ← AVRounding.round_neg]
      congr 1
      push_cast
      ring
    have h0 : 0 ≤ (-max a (-INT64_MAX) * b + rnd.mirror.bias c) / c :=
      Int.ediv_nonneg (Int.add_nonneg hn (bias_nonneg hc.1 _).1) hc.1.le
    rw [rescalePos_eq (by omega) (by omega) hb.1 hb.2 hc.1 hc.2, rescaled, hq, abs_neg, abs_of_nonneg h0]
    have hM : INT64_MAX = 2 ^ 63 - 1 := rfl
    split_ifs with h
    · exact int64_eq (by omega) (by omega)
    · decide
  · have hm : max a (-INT64_MAX) = a := by unfold INT64_MAX; omega
    have hn : 0 ≤ a * b := Int.mul_nonneg (by omega) hb.1
    rw [rescalePos_eq (by omega) ha.2 hb.1 hb.2 hc.1 hc.2, rescaled, hm, AVRounding.round_div hn hc.1,
      abs_of_nonneg (Int.ediv_nonneg (Int.add_nonneg hn (bias_nonneg hc.1 _).1) hc.1.le)]

/-- `av_rescale_rnd` is `a * b / c`, rounded as asked for, and `INT64_MIN` when that does not fit. The least
integer is taken for the least but one. -/
theorem av_rescale_rnd_eq {a b c : ℤ} {rnd : AVRounding} {pass : Bool} (ha : INT64_MIN ≤ a ∧ a ≤ INT64_MAX)
    (hb : 0 ≤ b ∧ b ≤ INT64_MAX) (hc : 0 < c ∧ c ≤ INT64_MAX) :
    av_rescale_rnd a b c rnd pass =
      if pass ∧ (a = INT64_MIN ∨ a = INT64_MAX) then a
      else rescaled rnd (((max a (-INT64_MAX) * b : ℤ) : ℚ) / c) := by
  split_ifs with hp
  · have hcb : ¬ (c ≤ 0 ∨ b < 0) := by omega
    rw [av_rescale_rnd, if_neg hcb, if_pos hp]
  · exact rescale_rnd_eq ha hb hc hp

theorem av_rescale_rnd_samples : av_rescale_rnd (-(2 ^ 62)) (2 ^ 61 + 1) (2 ^ 60) .UP false =
    rescaled .UP (((max (-(2 ^ 62)) (-INT64_MAX) * (2 ^ 61 + 1) : ℤ) : ℚ) / (2 ^ 60 : ℤ)) := by
  rw [av_rescale_rnd_eq (by decide) (by decide) (by decide), if_neg (by decide)]

/-! ### Time bases -/

structure TimeBase (q : AVRational) : Prop where
  num : 0 < q.num ∧ q.num ≤ INT_MAX
  den : 0 < q.den ∧ q.den ≤ INT_MAX

namespace TimeBase
variable {p q : AVRational}

theorem r2d_eq (hq : TimeBase q) : r2d q = q.num / q.den := by
  unfold r2d
  rw [if_neg]
  rintro (h | h)
  · exact hq.num.1.ne' h
  · exact hq.den.1.ne' h

theorem r2d_pos (hq : TimeBase q) : 0 < r2d q := by
  rw [hq.r2d_eq]
  exact div_pos (by exact_mod_cast hq.num.1) (by exact_mod_cast hq.den.1)

theorem mul_bounds (hp : TimeBase p) (hq : TimeBase q) :
    0 < p.num * q.den ∧ p.num * q.den ≤ INT64_MAX := by
  have h := Int.mul_le_mul hp.num.2 hq.den.2 hq.den.1.le (by decide)
  exact ⟨Int.mul_pos hp.num.1 hq.den.1, h.trans (by decide)⟩

theorem rescale_q_eq (hp : TimeBase p) (hq : TimeBase q) {a : ℤ} (ha : |a| ≤ INT64_MAX) (rnd : AVRounding) :
    av_rescale_q_rnd a p q rnd false = rescaled rnd (a * (r2d p / r2d q)) := by
  have hb := mul_bounds hp hq
  have ha' := abs_le.mp ha
  have hM : INT64_MAX = 2 ^ 63 - 1 := rfl
  have hm : max a (-INT64_MAX) = a := by omega
  rw [av_rescale_q_rnd, rescale_rnd_eq ⟨by unfold INT64_MIN; omega, ha'.2⟩ ⟨hb.1.le, hb.2⟩ (mul_bounds hq hp)
    (by simp), hm, hp.r2d_eq, hq.r2d_eq]
  congr 1
  have h1 : (p.den : ℚ) ≠ 0 := by exact_mod_cast hp.den.1.ne'
  have h2 : (q.den : ℚ) ≠ 0 := by exact_mod_cast hq.den.1.ne'
  have h3 : (q.num : ℚ) ≠ 0 := by exact_mod_cast hq.num.1.ne'
  push_cast
  field_simp

end TimeBase

theorem AVRounding.near_inf_close (q : ℚ) : |(NEAR_INF.round q : ℚ) - q| ≤ 1 / 2 := by
  simp only [round]
  split
  · have h1 := Int.floor_le (q + 1 / 2)
    have h2 := Int.lt_floor_add_one (q + 1 / 2)
    rw [abs_le]
    constructor <;> linarith
  · have h1 := Int.le_ceil (q - 1 / 2)
    have h2 := Int.ceil_lt_add_one (q - 1 / 2)
    rw [abs_le]
    constructor <;> linarith

theorem AVRounding.near_inf_eq {q : ℚ} {n : ℤ} (h : |q - n| < 1 / 2) : NEAR_INF.round q = n := by
  rw [abs_lt] at h
  simp only [round]
  split
  · rw [Int.floor_eq_iff]
    constructor <;> linarith
  · rw [Int.ceil_eq_iff]
    constructor <;> linarith

/-- A timestamp that is rescaled to a time base at least as fine, and fits there, comes back unchanged. -/
theorem rescale_round_trip {p q : AVRational} (hp : TimeBase p) (hq : TimeBase q) (hfine : r2d q ≤ r2d p)
    {a : ℤ} (ha : |a| ≤ INT64_MAX) (hfit : av_rescale_q a p q ≠ INT64_MIN) :
    av_rescale_q (av_rescale_q a p q) q p = a := by
  have hpos := hp.r2d_pos
  have hqos := hq.r2d_pos
  rw [av_rescale_q, hp.rescale_q_eq hq ha, rescaled] at hfit
  rw [av_rescale_q, av_rescale_q, hp.rescale_q_eq hq ha, rescaled]
  split_ifs at hfit ⊢ with hy
  · generalize hk : r2d p / r2d q = k at hy ⊢
    have hk1 : 1 ≤ k := by rw [← hk, one_le_div hqos]; exact hfine
    have hkinv : r2d q / r2d p = k⁻¹ := by rw [← hk, inv_div]
    rw [hq.rescale_q_eq hp hy, hkinv, rescaled]
    have hround : AVRounding.NEAR_INF.round (AVRounding.NEAR_INF.round (a * k) * k⁻¹) = a := by
      rcases hk1.eq_or_lt with rfl | hlt
      · have h : AVRounding.NEAR_INF.round (a * 1) = a := AVRounding.near_inf_eq (by norm_num)
        rw [h]
        exact AVRounding.near_inf_eq (by norm_num)
      · -- the error of at most one half shrinks
        have hk0 : 0 < k := by linarith
        have hclose := AVRounding.near_inf_close (a * k)
        have herr : (AVRounding.NEAR_INF.round (a * k) : ℚ) * k⁻¹ - a =
            (AVRounding.NEAR_INF.round (a * k) - a * k) * k⁻¹ := by field_simp
        refine AVRounding.near_inf_eq ?_
        rw [herr, abs_mul, abs_of_pos (inv_pos.mpr hk0)]
        calc |(AVRounding.NEAR_INF.round (a * k) : ℚ) - a * k| * k⁻¹ ≤ 1 / 2 * k⁻¹ :=
              mul_le_mul_of_nonneg_right hclose (inv_pos.mpr hk0).le
          _ < 1 / 2 * 1 := mul_lt_mul_of_pos_left (inv_lt_one_of_one_lt₀ hlt) (by norm_num)
          _ = 1 / 2 := mul_one _
    rw [hround, if_pos ha]
  · exact absurd rfl hfit

theorem rescale_round_trip_90k : av_rescale_q (av_rescale_q (-1025) ⟨1, 44100⟩ ⟨1, 90000⟩) ⟨1, 90000⟩ ⟨1, 44100⟩ =
    -1025 :=
  rescale_round_trip ⟨by decide, by decide⟩ ⟨by decide, by decide⟩ (by norm_num [r2d]) (by decide) (by decide)

end LibAV
