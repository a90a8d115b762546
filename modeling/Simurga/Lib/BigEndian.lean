import Mathlib.Data.List.Induction
import Mathlib.Algebra.Order.Group.Nat
import Mathlib.Tactic.Ring

/-!
# Big endian numbers

A number in a fixed count of bytes, the highest first.
-/

namespace BigEndian

/-- The number that the bytes stand for. -/
def value (bytes : List UInt8) : Nat := bytes.foldl (fun n b => 256 * n + b.toNat) 0

/-- The lowest `width` bytes of a number. -/
def digits : Nat → Nat → List UInt8
  | 0, _ => []
  | width + 1, n => digits width (n / 256) ++ [UInt8.ofNat n]

@[simp] theorem length_digits (width n : Nat) : (digits width n).length = width := by
  induction width generalizing n with
  | zero => rfl
  | succ width ih => rw [digits, List.length_append, ih, List.length_singleton]

theorem value_concat (bytes : List UInt8) (b : UInt8) :
    value (bytes ++ [b]) = 256 * value bytes + b.toNat := by
  rw [value, List.foldl_append]
  rfl

theorem value_lt (bytes : List UInt8) : value bytes < 256 ^ bytes.length := by
  induction bytes using List.reverseRecOn with
  | nil => exact Nat.one_pos
  | append_singleton bytes b ih =>
      have hb := b.toNat_lt
      rw [value_concat, List.length_append, List.length_singleton, Nat.pow_succ]
      omega

theorem value_digits {width n : Nat} (h : n < 256 ^ width) : value (digits width n) = n := by
  induction width generalizing n with
  | zero => rw [Nat.pow_zero] at h; exact (Nat.lt_one_iff.mp h).symm
  | succ width ih =>
      have hdiv : n / 256 < 256 ^ width := by
        rw [Nat.div_lt_iff_lt_mul (by decide), ← Nat.pow_succ]
        exact h
      rw [digits, value_concat, ih hdiv, UInt8.toNat_ofNat']
      omega

theorem digits_value (bytes : List UInt8) : digits bytes.length (value bytes) = bytes := by
  induction bytes using List.reverseRecOn with
  | nil => rfl
  | append_singleton bytes b ih =>
      have hb := b.toNat_lt
      have hdiv : (256 * value bytes + b.toNat) / 256 = value bytes := by omega
      have hlast : UInt8.ofNat (256 * value bytes + b.toNat) = b := by
        rw [← UInt8.toNat_inj, UInt8.toNat_ofNat']
        omega
      rw [List.length_append, List.length_singleton, digits, value_concat, hdiv, ih, hlast]

/-! ## The first byte -/

theorem value_cons (b : UInt8) (bytes : List UInt8) :
    value (b :: bytes) = b.toNat * 256 ^ bytes.length + value bytes := by
  induction bytes using List.reverseRecOn with
  | nil => simp [value]
  | append_singleton bytes c ih =>
      rw [← List.cons_append, value_concat, ih, value_concat, List.length_append,
        List.length_singleton, Nat.pow_succ]
      ring

theorem digits_succ (width n : Nat) :
    digits (width + 1) n = UInt8.ofNat (n / 256 ^ width) :: digits width n := by
  induction width generalizing n with
  | zero => simp [digits]
  | succ width ih =>
      rw [digits, ih, digits, List.cons_append, Nat.div_div_eq_div_mul, Nat.pow_succ,
        Nat.mul_comm 256]

end BigEndian
