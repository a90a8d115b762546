import Simurga.Common
import Simurga.Lib.Significant

/-!
# Numbers of Perl

What `+ 0` makes of a text (`PerlNumber.ofText`): the number at its front as
a double, 0 if there is none. A number in a statement is printed to 15
digits, and the column takes what is printed (`decimalColumn`) or is compared
with it (`modelId`).

Neither the double nor the 15 digits are seen in a price: a text that is a
number of hundredths comes out as these hundredths (`decimalColumn_ofText`).
-/

namespace Simurga

/-- A number of Perl; an integer that no double holds has more digits than
a column. -/
inductive PerlNumber where
  | finite (q : ℚ)
  | infinite (negative : Bool)
  | nan
deriving DecidableEq

namespace PerlNumber

/-! ## The number of a text -/

/-- A sign, and the text behind it. -/
def takeSign : Bytes → Bool × Bytes
  | [] => (false, [])
  | c :: text =>
      if c = '-'.toUInt8 then (true, text)
      else if c = '+'.toUInt8 then (false, text)
      else (false, c :: text)

/-- The exponent behind the digits. -/
def takeExponent : Bytes → ℤ
  | [] => 0
  | c :: text =>
      if c = 'e'.toUInt8 ∨ c = 'E'.toUInt8 then
        let (negative, text) := takeSign text
        let exponent := Decimal.value (text.takeWhile Decimal.isDigit)
        if negative then -exponent else exponent
      else 0

/-- Digits, a fraction and an exponent, as far as they go. -/
def takeDecimal (text : Bytes) : ℚ :=
  let whole := text.takeWhile Decimal.isDigit
  let rest := text.dropWhile Decimal.isDigit
  let behindPoint := if rest.head? = some Decimal.point then rest.tail else []
  let fraction := behindPoint.takeWhile Decimal.isDigit
  let rest := if rest.head? = some Decimal.point then behindPoint.dropWhile Decimal.isDigit else rest
  Decimal.value (whole ++ fraction) * 10 ^ (takeExponent rest - fraction.length)

/-- The text begins with the word, in small letters or large ones. -/
def beginsWith (word : String) (text : Bytes) : Bool :=
  (text.take (bytes word).length).map (fun c => if 65 ≤ c && c ≤ 90 then c + 32 else c) = bytes word

/-- The nearest double, and 53 bits of a number that is too large for one. -/
def nearestDouble (q : ℚ) : ℚ := Significant.roundTo (2 ^ max (Significant.lastPlace 2 53 q) (-1074)) q

def ofRat (q : ℚ) : PerlNumber :=
  let double := nearestDouble q
  if 2 ^ 1024 ≤ |double| then infinite (double < 0) else finite double

/-- `text + 0`. -/
def ofText (text : Bytes) : PerlNumber :=
  let (negative, text) := takeSign (text.dropWhile isSpace)
  if beginsWith "inf" text then infinite negative
  else if beginsWith "nan" text then nan
  else ofRat (if negative then -takeDecimal text else takeDecimal text)

/-! ## Columns -/

/-- The hundredths that a `decimal(10, 2)` takes for a number. What it has
no digits for, or no number, is an error or the nearest one, by the mode of
the server. -/
def decimalColumn (strict : Bool) : PerlNumber → Option ℤ
  | finite q =>
      let cents := Significant.roundAway (Significant.significant 10 15 q * 100)
      if |cents| < 10 ^ 10 then some cents
      else if strict then none
      else some (if cents < 0 then -(10 ^ 10 - 1) else 10 ^ 10 - 1)
  | _ => if strict then none else some 0

/-- The number of an `unsigned int` that is equal to a number. -/
def modelId : PerlNumber → Option UInt32
  | finite q =>
      let printed := Significant.significant 10 15 q
      if printed.den = 1 ∧ 0 ≤ printed ∧ printed < 2 ^ 32 then some (UInt32.ofNat printed.num.toNat)
      else none
  | _ => some 0

/-! ## Hundredths -/

theorem lastPlace_of_le {q : ℚ} (h : 1 / 100 ≤ |q|) : -1074 ≤ Significant.lastPlace 2 53 q := by
  have hlog := Int.lt_zpow_succ_log_self (b := 2) (by decide) |q|
  unfold Significant.lastPlace
  by_contra hsmall
  have hle : (2 : ℚ) ^ (Int.log 2 |q| + 1) ≤ 2 ^ (-7 : ℤ) :=
    zpow_le_zpow_right₀ (by norm_num) (by omega)
  norm_num at hle hlog
  linarith

section Near

variable {q : ℚ} (h : 1 / 100 ≤ |q|)

include h

theorem abs_nearestDouble_sub_le :
    |nearestDouble q - q| ≤ ((2 : ℕ) : ℚ) ^ Significant.lastPlace 2 53 q / 2 := by
  rw [nearestDouble, max_eq_left (lastPlace_of_le h)]
  exact Significant.abs_roundTo_sub_le (Significant.zpow_lastPlace_pos (by decide) 53 _)

theorem abs_nearestDouble_sub_lt : |nearestDouble q - q| < |q| := by
  have hpos : 0 < |q| := by linarith
  have hnear := abs_nearestDouble_sub_le h
  have hstep := Significant.zpow_lastPlace_le (b := 2) (by decide) 53 (abs_pos.mp hpos)
  norm_num at hstep hnear
  linarith

end Near

section Hundredths

variable {k : ℤ}

theorem le_abs_hundredths (hk : k ≠ 0) : 1 / 100 ≤ |(k / 100 : ℚ)| := by
  have hone : (1 : ℚ) ≤ |(k : ℚ)| := by exact_mod_cast Int.one_le_abs hk
  rw [abs_div]
  norm_num
  linarith

theorem abs_nearestDouble_lt (hk : |k| < 10 ^ 12) :
    |nearestDouble (k / 100)| < ((10 : ℕ) : ℚ) ^ (13 : ℤ) := by
  by_cases hzero : k = 0
  · rw [hzero]
    decide +kernel
  · have hlarge : |(k : ℚ)| < 10 ^ 12 := by exact_mod_cast hk
    have hnear := abs_nearestDouble_sub_lt (le_abs_hundredths hzero)
    have htri := abs_sub_abs_le_abs_sub (nearestDouble (k / 100)) (k / 100)
    have habs : |(k / 100 : ℚ)| = |(k : ℚ)| / 100 := by rw [abs_div]; norm_num
    norm_num
    linarith

/-- A double of a number of hundredths is printed as that number. -/
theorem significant_nearestDouble (hk : |k| < 10 ^ 12) :
    Significant.significant 10 15 (nearestDouble (k / 100)) = k / 100 := by
  by_cases hzero : k = 0
  · rw [hzero]
    decide +kernel
  · have hlow := le_abs_hundredths hzero
    have hq : (k / 100 : ℚ) ≠ 0 := by
      rw [← abs_pos]
      linarith
    have hdouble : nearestDouble (k / 100) ≠ 0 := by
      intro hd
      have hnear := abs_nearestDouble_sub_lt hlow
      rw [hd, zero_sub, abs_neg] at hnear
      exact lt_irrefl _ hnear
    -- the double has no more digits before the point than there are
    have hplace := Significant.lastPlace_le (by decide) 15 hdouble (abs_nearestDouble_lt hk)
    obtain ⟨n, hn⟩ := Significant.exists_eq_mul_zpow (b := 10) (by decide) hplace k
    refine Significant.significant_of_near (by decide) (by decide) (by decide) hq
      (abs_nearestDouble_sub_le hlow) (n := n) ?_
    rw [← hn, div_eq_mul_inv]
    norm_num

theorem ofRat_hundredths (hk : |k| < 10 ^ 12) :
    ofRat (k / 100) = finite (nearestDouble (k / 100)) := by
  have hbound := abs_nearestDouble_lt hk
  rw [ofRat, if_neg]
  intro hlarge
  have hpow : ((10 : ℕ) : ℚ) ^ (13 : ℤ) ≤ 2 ^ 1024 := by
    calc ((10 : ℕ) : ℚ) ^ (13 : ℤ) ≤ 2 ^ 44 := by norm_num
      _ ≤ 2 ^ 1024 := pow_le_pow_right₀ (by norm_num) (by norm_num)
  exact absurd (hlarge.trans_lt hbound) (not_lt.mpr hpow)

end Hundredths

theorem decimalColumn_ofRat (strict : Bool) {k : ℤ} (hk : |k| < 10 ^ 10) :
    decimalColumn strict (ofRat (k / 100)) = some k := by
  have hwide : |k| < 10 ^ 12 := hk.trans (by norm_num)
  rw [ofRat_hundredths hwide, decimalColumn, significant_nearestDouble hwide,
    div_mul_cancel₀ _ (by norm_num)]
  simp only [Significant.roundAway_intCast, if_pos hk]

/-- A whole number finds itself. -/
theorem modelId_ofRat (m : UInt32) : modelId (ofRat m.toNat) = some m := by
  have hm := m.toNat_lt
  have hwide : |(m.toNat * 100 : ℤ)| < 10 ^ 12 := by
    rw [abs_of_nonneg (by positivity)]
    omega
  have hcast : ((m.toNat * 100 : ℤ) / 100 : ℚ) = m.toNat := by
    push_cast
    rw [mul_div_cancel_right₀ _ (by norm_num)]
  have hfinite := ofRat_hundredths hwide
  have hprinted := significant_nearestDouble hwide
  push_cast at hfinite hprinted
  rw [mul_div_cancel_right₀ _ (by norm_num)] at hfinite hprinted
  have hlt : (m.toNat : ℚ) < 2 ^ 32 := by exact_mod_cast hm
  rw [hfinite, modelId, hprinted]
  simp [hlt]

/-! ## Texts that are numbers -/

theorem takeDecimal_of_number {text : Bytes} {q : ℚ} (h : Decimal.number text = some q) :
    takeDecimal text = q := by
  obtain ⟨⟨hwhole, hfraction⟩, hq⟩ := Decimal.number_eq_some_iff.mp h
  by_cases hpoint : Decimal.point ∈ text
  · have hfraction := hfraction hpoint
    have htext := Decimal.whole_append_fraction hpoint
    have htake : text.takeWhile Decimal.isDigit = Decimal.whole text := by
      rw [← htext, List.takeWhile_append_of_pos hwhole.digit, List.takeWhile_cons_of_neg (by decide),
        List.append_nil, htext]
    have hdrop : text.dropWhile Decimal.isDigit = Decimal.point :: Decimal.fraction text := by
      rw [← htext, List.dropWhile_append_of_pos hwhole.digit, List.dropWhile_cons_of_neg (by decide),
        htext]
    have hpow : (10 : ℚ) ^ (Decimal.fraction text).length ≠ 0 := by positivity
    unfold takeDecimal
    simp only [htake, hdrop, List.head?_cons, if_true, List.tail_cons,
      List.takeWhile_eq_self_iff.mpr hfraction.digit, List.dropWhile_eq_nil_iff.mpr hfraction.digit,
      takeExponent, Decimal.value_append, hq]
    rw [zero_sub, zpow_neg, zpow_natCast]
    push_cast
    field_simp
  · have hall := Decimal.whole_eq_self hpoint ▸ hwhole.digit
    have hnone : Decimal.fraction text = [] := Decimal.IsDigits.fraction_eq
      (Decimal.whole_eq_self hpoint ▸ hwhole)
    unfold takeDecimal
    simp only [List.takeWhile_eq_self_iff.mpr hall, List.dropWhile_eq_nil_iff.mpr hall, takeExponent]
    rw [hq, hnone, Decimal.whole_eq_self hpoint]
    simp [Decimal.value]

theorem beginsWith_of_head {word : String} {c d : UInt8} {rest : Bytes} (hword : bytes word = d :: rest)
    (hd : Decimal.isDigit d = false) (hc : Decimal.isDigit c = true) (text : Bytes) :
    beginsWith word (c :: text) = false := by
  have hsmall : ¬ (65 ≤ c && c ≤ 90) = true := by
    have hrange := Decimal.isDigit_iff.mp hc
    simp [UInt8.le_iff_toNat_le]
    omega
  rw [beginsWith, hword, List.length_cons, List.take_succ_cons, List.map_cons, if_neg hsmall,
    decide_eq_false_iff_not]
  intro h
  rw [(List.cons.inj h).1, hd] at hc
  cases hc

/-- A text that begins with a digit has no blanks, no sign and is no word. -/
theorem ofText_of_digit {c : UInt8} (hc : Decimal.isDigit c = true) (text : Bytes) :
    ofText (c :: text) = ofRat (takeDecimal (c :: text)) := by
  obtain ⟨hspace, hminus, hplus⟩ := front_of_isDigit hc
  have hsign : takeSign (c :: text) = (false, c :: text) := by
    rw [takeSign, if_neg hminus, if_neg hplus]
  have hinf : beginsWith "inf" (c :: text) = false := beginsWith_of_head rfl (by decide) hc text
  have hnan : beginsWith "nan" (c :: text) = false := beginsWith_of_head rfl (by decide) hc text
  unfold ofText
  rw [List.dropWhile_cons_of_neg (by simp [hspace]), hsign]
  simp [hinf, hnan]

theorem ofText_of_number {text : Bytes} {q : ℚ} (h : Decimal.number text = some q) :
    ofText text = ofRat q := by
  have hwhole := (Decimal.number_eq_some_iff.mp h).1.1
  obtain ⟨c, whole, hcons⟩ := List.exists_cons_of_ne_nil hwhole.ne_nil
  have hdigit : Decimal.isDigit c = true := hwhole.digit c (by simp [hcons])
  obtain ⟨rest, hrest⟩ := List.takeWhile_prefix (l := text) (· ≠ Decimal.point)
  change Decimal.whole text ++ rest = text at hrest
  rw [hcons, List.cons_append] at hrest
  rw [← takeDecimal_of_number h, ← hrest, ofText_of_digit hdigit]

/-- A number of hundredths that the column has digits for is what it takes. -/
theorem decimalColumn_ofText (strict : Bool) {text : Bytes} {cents : ℕ} (hcents : cents < 10 ^ 10)
    (h : Decimal.number text = some (cents / 100 : ℚ)) :
    decimalColumn strict (ofText text) = some (cents : ℤ) := by
  have hk : |(cents : ℤ)| < 10 ^ 10 := by
    rw [abs_of_nonneg (by positivity)]
    exact_mod_cast hcents
  rw [ofText_of_number h, ← decimalColumn_ofRat strict hk, Int.cast_natCast]

theorem modelId_ofText (m : UInt32) : modelId (ofText (toString m)) = some m := by
  have hnumber : Decimal.number (toString m) = some (m.toNat : ℚ) := by
    rw [toString, (Decimal.isDigits_digits _).number_eq, Decimal.value_digits]
  rw [ofText_of_number hnumber, modelId_ofRat]

end PerlNumber

end Simurga
