import Mathlib.Data.List.Basic
import Mathlib.Data.List.Induction
import Mathlib.Data.List.TakeWhile
import Mathlib.Algebra.Field.Rat
import Mathlib.Tactic.Ring

/-!
# Decimal numerals over bytes

The numeral a number is written as (`digits`), the value a string of
digits is read as (`value`), and the strings on which the two are inverse:
`IsNumeral`, digits without a leading zero. Both directions go from the
last digit to the first, as the numeral of `n` ends with `n % 10`. A
decimal number has a fraction behind a point (`number`).
-/

namespace Decimal

def isDigit (c : UInt8) : Bool := 48 ≤ c && c ≤ 57

/-- The numeral of `n`. -/
def digits (n : Nat) : List UInt8 := (Nat.toDigits 10 n).map Char.toUInt8

/-- The value of a string of digits. -/
def value (s : List UInt8) : Nat := s.foldl (fun v c => 10 * v + (c.toNat - 48)) 0

/-- Digits only, and no leading zero but in `0` itself. -/
structure IsNumeral (s : List UInt8) : Prop where
  ne_nil : s ≠ []
  digit : ∀ c ∈ s, isDigit c = true
  head : 1 < s.length → s.head? ≠ some 48

instance (s : List UInt8) : Decidable (IsNumeral s) :=
  have : Decidable (∀ c ∈ s, isDigit c = true) := List.decidableBAll _ s
  decidable_of_iff (s ≠ [] ∧ (∀ c ∈ s, isDigit c = true) ∧ (1 < s.length → s.head? ≠ some 48))
    ⟨fun ⟨h₁, h₂, h₃⟩ => ⟨h₁, h₂, h₃⟩, fun h => ⟨h.ne_nil, h.digit, h.head⟩⟩

theorem isDigit_iff {c : UInt8} : isDigit c = true ↔ 48 ≤ c.toNat ∧ c.toNat ≤ 57 := by
  simp [isDigit, UInt8.le_iff_toNat_le]

@[simp] theorem value_append_singleton (s : List UInt8) (c : UInt8) :
    value (s ++ [c]) = 10 * value s + (c.toNat - 48) := by
  simp [value, List.foldl_append]

theorem value_append (s t : List UInt8) : value (s ++ t) = value s * 10 ^ t.length + value t := by
  induction t using List.reverseRecOn with
  | nil => simp [value]
  | append_singleton t c ih =>
      rw [← List.append_assoc, value_append_singleton, ih, value_append_singleton, List.length_append,
        List.length_singleton, pow_succ]
      ring

/-! ## The numeral of a number -/

theorem toUInt8_digitChar {d : Nat} (h : d < 10) : (Nat.digitChar d).toUInt8 = UInt8.ofNat (48 + d) := by
  have hall : ∀ d : Fin 10, (Nat.digitChar d).toUInt8 = UInt8.ofNat (48 + d) := by decide
  exact hall ⟨d, h⟩

theorem toNat_digit {d : Nat} (h : d < 10) : (UInt8.ofNat (48 + d)).toNat = 48 + d := by
  rw [UInt8.toNat_ofNat']
  omega

theorem digits_of_lt {n : Nat} (h : n < 10) : digits n = [UInt8.ofNat (48 + n)] := by
  rw [digits, Nat.toDigits_of_lt_base h, List.map_singleton, toUInt8_digitChar h]

theorem digits_of_le {n : Nat} (h : 10 ≤ n) :
    digits n = digits (n / 10) ++ [UInt8.ofNat (48 + n % 10)] := by
  rw [digits, Nat.toDigits_of_base_le (by decide) h, List.map_append, List.map_singleton,
    toUInt8_digitChar (Nat.mod_lt n (by decide)), digits]

theorem digits_ne_nil (n : Nat) : digits n ≠ [] := by
  simp [digits, Nat.toDigits_ne_nil]

theorem value_digits (n : Nat) : value (digits n) = n := by
  induction n using Nat.strongRecOn with
  | ind n ih =>
    by_cases h : n < 10
    · rw [digits_of_lt h]
      show 10 * 0 + ((UInt8.ofNat (48 + n)).toNat - 48) = n
      rw [toNat_digit h]
      omega
    · rw [digits_of_le (by omega), value_append_singleton, ih (n / 10) (by omega),
        toNat_digit (Nat.mod_lt n (by decide))]
      omega

theorem digits_digit (n : Nat) : ∀ c ∈ digits n, isDigit c = true := by
  intro c hc
  induction n using Nat.strongRecOn with
  | ind n ih =>
    by_cases h : n < 10
    · rw [digits_of_lt h, List.mem_singleton] at hc
      rw [hc, isDigit_iff, toNat_digit h]
      omega
    · rw [digits_of_le (by omega), List.mem_append, List.mem_singleton] at hc
      rcases hc with hc | rfl
      · exact ih (n / 10) (by omega) hc
      · rw [isDigit_iff, toNat_digit (Nat.mod_lt n (by decide))]
        omega

theorem digits_head {n : Nat} (hn : 0 < n) : (digits n).head? ≠ some 48 := by
  induction n using Nat.strongRecOn with
  | ind n ih =>
    by_cases h : n < 10
    · rw [digits_of_lt h, List.head?_cons]
      intro he
      have := congrArg UInt8.toNat (Option.some.inj he)
      rw [toNat_digit h] at this
      simp at this
      omega
    · rw [digits_of_le (by omega), List.head?_append_of_ne_nil _ (digits_ne_nil _)]
      exact ih (n / 10) (by omega) (by omega)

theorem isNumeral_digits (n : Nat) : IsNumeral (digits n) where
  ne_nil := digits_ne_nil n
  digit := digits_digit n
  head := by
    intro hlen
    refine digits_head ?_
    by_contra h0
    obtain rfl : n = 0 := by omega
    exact absurd hlen (by decide)

/-! ## The number of a numeral -/

/-- A digit string without a leading zero is the numeral of its value. -/
theorem digits_value : ∀ {s : List UInt8}, IsNumeral s → digits (value s) = s := by
  intro s
  induction s using List.reverseRecOn with
  | nil => exact fun h => absurd rfl h.ne_nil
  | append_singleton s c ih =>
    intro h
    have hc : 48 ≤ c.toNat ∧ c.toNat ≤ 57 := isDigit_iff.mp (h.digit c (by simp))
    have hlast : UInt8.ofNat (48 + (c.toNat - 48)) = c := by
      rw [show 48 + (c.toNat - 48) = c.toNat by omega, UInt8.ofNat_toNat]
    rw [value_append_singleton]
    by_cases hs : s = []
    · subst hs
      rw [digits_of_lt (by simp [value]; omega)]
      simpa [value] using hlast
    · have hhead : s.head? ≠ some 48 := by
        have := h.head (by simpa using List.length_pos_of_ne_nil hs)
        rwa [List.head?_append_of_ne_nil _ hs] at this
      have hprefix : digits (value s) = s :=
        ih ⟨hs, fun d hd => h.digit d (by simp [hd]), fun _ => hhead⟩
      have hpos : 0 < value s := by
        by_contra h0
        have hzero : s = [48] := by rw [← hprefix, show value s = 0 by omega]; rfl
        exact hhead (by rw [hzero]; rfl)
      rw [digits_of_le (by omega), show (10 * value s + (c.toNat - 48)) / 10 = value s by omega,
        show (10 * value s + (c.toNat - 48)) % 10 = c.toNat - 48 by omega, hprefix, hlast]

/-! ## Numbers with a fraction -/

def point : UInt8 := 46

/-- The part before the point. -/
def whole (s : List UInt8) : List UInt8 := s.takeWhile (· ≠ point)

/-- The part behind the point. -/
def fraction (s : List UInt8) : List UInt8 := (s.dropWhile (· ≠ point)).tail

structure IsDigits (s : List UInt8) : Prop where
  ne_nil : s ≠ []
  digit : ∀ c ∈ s, isDigit c = true

instance (s : List UInt8) : Decidable (IsDigits s) :=
  have : Decidable (∀ c ∈ s, isDigit c = true) := List.decidableBAll _ s
  decidable_of_iff (s ≠ [] ∧ ∀ c ∈ s, isDigit c = true)
    ⟨fun ⟨h₁, h₂⟩ => ⟨h₁, h₂⟩, fun h => ⟨h.ne_nil, h.digit⟩⟩

/-- The value of a decimal number: digits, or digits on both sides of a
point. -/
def number (s : List UInt8) : Option ℚ :=
  if IsDigits (whole s) ∧ (point ∈ s → IsDigits (fraction s)) then
    some (value (whole s) + value (fraction s) / 10 ^ (fraction s).length)
  else none

theorem number_eq_some_iff {s : List UInt8} {q : ℚ} :
    number s = some q ↔ (IsDigits (whole s) ∧ (point ∈ s → IsDigits (fraction s)))
      ∧ q = value (whole s) + value (fraction s) / 10 ^ (fraction s).length := by
  unfold number
  split
  · case isTrue hdigits =>
      rw [Option.some.injEq, eq_comm]
      exact (and_iff_right hdigits).symm
  · case isFalse hnot => simp [hnot]

/-- Without a point there is no fraction. -/
theorem whole_eq_self {s : List UInt8} (h : point ∉ s) : whole s = s := by
  refine List.takeWhile_eq_self_iff.mpr fun c hc => ?_
  simpa using fun heq : c = point => h (heq ▸ hc)

theorem whole_append_fraction {s : List UInt8} (h : point ∈ s) :
    whole s ++ point :: fraction s = s := by
  have hsplit := List.takeWhile_append_dropWhile (p := (· ≠ point)) (l := s)
  cases hdrop : s.dropWhile (· ≠ point) with
  | nil =>
      have hnone := List.dropWhile_eq_nil_iff.mp hdrop point h
      simp at hnone
  | cons c rest =>
      have hpoint : c = point := by
        have hhead := List.head?_dropWhile_not (· ≠ point) s
        rw [hdrop] at hhead
        simpa using hhead
      rw [hdrop, hpoint] at hsplit
      rwa [whole, fraction, hdrop, List.tail_cons]

theorem isDigits_digits (n : Nat) : IsDigits (digits n) := ⟨digits_ne_nil n, digits_digit n⟩

theorem IsDigits.point_not_mem {s : List UInt8} (h : IsDigits s) : point ∉ s := fun hmem =>
  absurd (h.digit point hmem) (by decide)

theorem IsDigits.takeWhile {s : List UInt8} (h : IsDigits s) (rest : List UInt8) :
    (s ++ rest).takeWhile (· ≠ point) = s ++ rest.takeWhile (· ≠ point) :=
  List.takeWhile_append_of_pos fun c hc => by
    simpa using fun heq : c = point => h.point_not_mem (heq ▸ hc)

theorem IsDigits.dropWhile {s : List UInt8} (h : IsDigits s) (rest : List UInt8) :
    (s ++ rest).dropWhile (· ≠ point) = rest.dropWhile (· ≠ point) :=
  List.dropWhile_append_of_pos fun c hc => by
    simpa using fun heq : c = point => h.point_not_mem (heq ▸ hc)

theorem IsDigits.fraction_eq {s : List UInt8} (h : IsDigits s) : fraction s = [] := by
  have hdrop := h.dropWhile []
  rw [List.append_nil] at hdrop
  rw [fraction, hdrop]
  rfl

theorem IsDigits.fraction_append {s : List UInt8} (h : IsDigits s) (f : List UInt8) :
    fraction (s ++ point :: f) = f := by
  rw [fraction, h.dropWhile, List.dropWhile_cons_of_neg (by simp)]
  rfl

theorem IsDigits.number_eq {s : List UInt8} (h : IsDigits s) : number s = some (value s : ℚ) := by
  have hwhole : whole s = s := by
    have htake := h.takeWhile []
    rwa [List.append_nil, List.takeWhile_nil, List.append_nil] at htake
  rw [number, hwhole, h.fraction_eq, if_pos ⟨h, fun hmem => absurd hmem h.point_not_mem⟩]
  simp [value]

theorem IsDigits.number_append {s f : List UInt8} (h : IsDigits s) (hf : IsDigits f) :
    number (s ++ point :: f) = some (value s + value f / 10 ^ f.length : ℚ) := by
  have hwhole : whole (s ++ point :: f) = s := by
    rw [whole, h.takeWhile, List.takeWhile_cons_of_neg (by simp), List.append_nil]
  rw [number, hwhole, h.fraction_append, if_pos ⟨h, fun _ => hf⟩]

/-- The two digits of a number below a hundred. -/
def twoDigits (n : Nat) : List UInt8 := (if n < 10 then [48] else []) ++ digits n

theorem length_twoDigits {n : Nat} (h : n < 100) : (twoDigits n).length = 2 := by
  rw [twoDigits]
  split
  · case isTrue hlt => rw [digits_of_lt hlt]; rfl
  · case isFalse hge =>
      rw [digits_of_le (by omega), digits_of_lt (by omega)]
      rfl

theorem isDigits_twoDigits (n : Nat) : IsDigits (twoDigits n) where
  ne_nil := List.append_ne_nil_of_right_ne_nil _ (digits_ne_nil n)
  digit := by
    intro c hc
    rw [twoDigits] at hc
    split at hc
    · rcases List.mem_append.mp hc with hc | hc
      · rw [List.mem_singleton.mp hc]
        rfl
      · exact digits_digit n c hc
    · exact digits_digit n c hc

theorem value_twoDigits (n : Nat) : value (twoDigits n) = n := by
  rw [twoDigits]
  split
  · -- a leading zero adds nothing
    exact value_digits n
  · exact value_digits n

end Decimal
