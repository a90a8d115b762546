import Mathlib.Algebra.Order.Field.Basic
import Mathlib.Data.Int.Log
import Mathlib.Data.Rat.Floor
import Mathlib.Tactic.Linarith
import Mathlib.Tactic.Positivity

/-!
# Significant digits

Rational numbers rounded to the multiples of a step (`roundTo`), to `p`
digits to the base `b` (`significant`), and to an integer as decimal columns
round (`roundAway`). Rounding is off by half a step at most, and a number
that is closer to a multiple comes out as that multiple
(`abs_roundTo_sub_le`, `roundTo_eq`).

The main fact is that digits survive: a number with at most `r` digits to
the base `c`, rounded to enough digits to the base `b`, is itself again
when it is rounded back (`significant_of_near`).
-/

namespace Significant

/-- The nearest integer, and the even one of two. -/
def roundEven (q : ℚ) : ℤ :=
  if q - ⌊q⌋ < 1 / 2 then ⌊q⌋
  else if 1 / 2 < q - ⌊q⌋ then ⌊q⌋ + 1
  else ⌊q⌋ + ⌊q⌋ % 2

/-- The nearest integer, and the one farther from zero of two. -/
def roundAway (q : ℚ) : ℤ := if q < 0 then -⌊-q + 1 / 2⌋ else ⌊q + 1 / 2⌋

/-- The nearest multiple of a step. -/
def roundTo (step q : ℚ) : ℚ := roundEven (q / step) * step

/-- The place of the last of `p` digits, as an exponent of the base. -/
def lastPlace (b p : ℕ) (q : ℚ) : ℤ := Int.log b |q| + 1 - p

/-- `q` to `p` digits. -/
def significant (b p : ℕ) (q : ℚ) : ℚ := roundTo ((b : ℚ) ^ lastPlace b p q) q

@[simp] theorem roundAway_intCast (n : ℤ) : roundAway n = n := by
  have hhalf : ∀ m : ℤ, ⌊(m : ℚ) + 1 / 2⌋ = m := by
    intro m
    rw [Int.floor_eq_iff]
    constructor <;> linarith
  unfold roundAway
  split
  · rw [← Int.cast_neg, hhalf, neg_neg]
  · exact hhalf n

/-! ## Steps -/

theorem abs_roundEven_sub_le (q : ℚ) : |(roundEven q : ℚ) - q| ≤ 1 / 2 := by
  have hlo := Int.floor_le q
  have hhi := Int.lt_floor_add_one q
  have hparity : (0 : ℚ) ≤ (⌊q⌋ % 2 : ℤ) ∧ ((⌊q⌋ % 2 : ℤ) : ℚ) ≤ 1 := by
    have hmod : 0 ≤ ⌊q⌋ % 2 ∧ ⌊q⌋ % 2 ≤ 1 := by omega
    exact ⟨by exact_mod_cast hmod.1, by exact_mod_cast hmod.2⟩
  obtain ⟨heven, hodd⟩ := hparity
  unfold roundEven
  split_ifs <;> push_cast <;> rw [abs_le] <;> constructor <;> linarith

/-- No other integer is as near as half of one. -/
theorem roundEven_eq {q : ℚ} {n : ℤ} (h : |q - n| < 1 / 2) : roundEven q = n := by
  have hround := abs_roundEven_sub_le q
  have hdist : |(roundEven q : ℚ) - n| < 1 := by
    calc |(roundEven q : ℚ) - n| ≤ |(roundEven q : ℚ) - q| + |q - n| := abs_sub_le _ _ _
      _ < 1 := by linarith
  have hint : |roundEven q - n| < 1 := by exact_mod_cast hdist
  have hzero := abs_lt.mp hint
  omega

section Step

variable {step q : ℚ}

theorem abs_roundTo_sub_le (hstep : 0 < step) : |roundTo step q - q| ≤ step / 2 := by
  have hscale : roundTo step q - q = (roundEven (q / step) - q / step) * step := by
    rw [roundTo, sub_mul, div_mul_cancel₀ q hstep.ne']
  rw [hscale, abs_mul, abs_of_pos hstep]
  have hround := mul_le_mul_of_nonneg_right (abs_roundEven_sub_le (q / step)) hstep.le
  linarith

theorem roundTo_eq (hstep : 0 < step) {n : ℤ} (h : |q - n * step| < step / 2) :
    roundTo step q = n * step := by
  have hscale : q / step - n = (q - n * step) / step := by
    rw [sub_div, mul_div_cancel_right₀ _ hstep.ne']
  rw [roundTo, roundEven_eq]
  rw [hscale, abs_div, abs_of_pos hstep, div_lt_iff₀ hstep]
  linarith

end Step

/-! ## Places -/

section Base

variable {b : ℕ}

theorem zpow_lastPlace_pos (hb : 1 < b) (p : ℕ) (q : ℚ) : 0 < (b : ℚ) ^ lastPlace b p q :=
  zpow_pos (by exact_mod_cast Nat.zero_lt_of_lt hb) _

theorem zpow_lastPlace (hb : 1 < b) (p : ℕ) (q : ℚ) :
    (b : ℚ) ^ lastPlace b p q * b ^ p = b ^ (Int.log b |q| + 1) := by
  have hne : (b : ℚ) ≠ 0 := by exact_mod_cast (Nat.zero_lt_of_lt hb).ne'
  rw [lastPlace, ← zpow_natCast, ← zpow_add₀ hne, sub_add_cancel]

theorem abs_lt_zpow_lastPlace (hb : 1 < b) (p : ℕ) (q : ℚ) :
    |q| < (b : ℚ) ^ lastPlace b p q * b ^ p := by
  rw [zpow_lastPlace hb]
  exact Int.lt_zpow_succ_log_self hb |q|

theorem zpow_lastPlace_le (hb : 1 < b) (p : ℕ) {q : ℚ} (hq : q ≠ 0) :
    (b : ℚ) ^ lastPlace b p q * b ^ p ≤ |q| * b := by
  have hne : (b : ℚ) ≠ 0 := by exact_mod_cast (Nat.zero_lt_of_lt hb).ne'
  rw [zpow_lastPlace hb, zpow_add_one₀ hne]
  exact mul_le_mul_of_nonneg_right (Int.zpow_log_le_self hb (abs_pos.mpr hq)) (by positivity)

theorem lastPlace_le (hb : 1 < b) (p : ℕ) {q : ℚ} (hq : q ≠ 0) {m : ℤ} (h : |q| < (b : ℚ) ^ m) :
    lastPlace b p q ≤ m - p := by
  have hlog := (Int.lt_zpow_iff_log_lt hb (abs_pos.mpr hq)).mp h
  unfold lastPlace
  omega

/-- A multiple of a power is one of every lower power. -/
theorem exists_eq_mul_zpow (hb : 1 < b) {e m : ℤ} (h : e ≤ m) (k : ℤ) :
    ∃ n : ℤ, (k : ℚ) * (b : ℚ) ^ m = n * (b : ℚ) ^ e := by
  have hne : (b : ℚ) ≠ 0 := by exact_mod_cast (Nat.zero_lt_of_lt hb).ne'
  obtain ⟨d, rfl⟩ := Int.le.dest h
  refine ⟨k * b ^ d, ?_⟩
  rw [zpow_add₀ hne, zpow_natCast]
  push_cast
  ring

end Base

/-! ## There and back -/

section Bases

variable {b c p r : ℕ} {q d : ℚ}

/-- A number near enough is no smaller by half a digit. -/
theorem abs_sub_lt_of_near (hb : 1 < b) (hc : 1 < c) (hwide : 2 * b * c ^ r + b ≤ 2 * b ^ p)
    (hq : q ≠ 0) (hnear : |d - q| ≤ (b : ℚ) ^ lastPlace b p q / 2) :
    |d - q| < (c : ℚ) ^ lastPlace c r d / 2 := by
  set s : ℚ := (b : ℚ) ^ lastPlace b p q
  set t : ℚ := (c : ℚ) ^ lastPlace c r d
  have hs : s * b ^ p ≤ |q| * b := zpow_lastPlace_le hb p hq
  have ht : |d| < t * c ^ r := abs_lt_zpow_lastPlace hc r d
  have hspos : 0 < s := zpow_lastPlace_pos hb p q
  have hwide : (2 * b * c ^ r + b : ℚ) ≤ 2 * b ^ p := by exact_mod_cast hwide
  have hbpos : (0 : ℚ) < b := by exact_mod_cast Nat.zero_lt_of_lt hb
  have hcpos : (0 : ℚ) < (c : ℚ) ^ r := pow_pos (by exact_mod_cast Nat.zero_lt_of_lt hc) r
  -- the number itself is below the same power, but for half a step
  have habs : |q| < t * c ^ r + s / 2 := by
    have htri : |q| ≤ |d| + |d - q| := by
      rw [abs_sub_comm d q]
      linarith [abs_sub_abs_le_abs_sub q d]
    linarith
  have hsum : s * (2 * b * c ^ r + b) < 2 * b * (t * c ^ r) + s * b := by
    calc s * (2 * b * c ^ r + b) ≤ s * (2 * b ^ p) := mul_le_mul_of_nonneg_left hwide hspos.le
      _ = 2 * (s * b ^ p) := by ring
      _ ≤ 2 * (|q| * b) := by linarith
      _ < 2 * ((t * c ^ r + s / 2) * b) := by
        have := mul_lt_mul_of_pos_right habs hbpos
        linarith
      _ = 2 * b * (t * c ^ r) + s * b := by ring
  have hst : s < t := by
    have hscaled : (2 * b * c ^ r) * s < (2 * b * c ^ r) * t := by linarith
    exact lt_of_mul_lt_mul_left hscaled (by positivity)
  linarith

/-- Digits survive a base with enough of them. -/
theorem significant_of_near (hb : 1 < b) (hc : 1 < c) (hwide : 2 * b * c ^ r + b ≤ 2 * b ^ p)
    (hq : q ≠ 0) (hnear : |d - q| ≤ (b : ℚ) ^ lastPlace b p q / 2) {n : ℤ}
    (hn : q = n * (c : ℚ) ^ lastPlace c r d) : significant c r d = q := by
  have hclose := abs_sub_lt_of_near hb hc hwide hq hnear
  rw [hn] at hclose ⊢
  exact roundTo_eq (zpow_lastPlace_pos hc r d) hclose

end Bases

end Significant
