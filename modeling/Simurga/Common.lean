import Simurga.Lib.Search
import Simurga.Lib.Decimal
import Mathlib.Algebra.Group.Nat.Defs

/-!
# Byte strings and exceptions

What `common.hpp` gives every other file: `std::string` as a list of
bytes, `trim`, the number conversions, and the exceptions a modelled
function may leave with. A C++ function that may throw returns an
`Except Thrown`; `what` is the text handed to the exception.
-/

namespace Simurga

/-- `std::string`. -/
abbrev Bytes := List UInt8

/-- Texts in a list are told apart byte by byte. -/
instance : LawfulBEq Bytes := inferInstance

/-- The bytes of a literal of the source (ASCII only). -/
def bytes (s : String) : Bytes := s.toList.map Char.toUInt8

/-- What holds of each of the 256 bytes holds of a byte. -/
theorem forall_byte {p : UInt8 → Prop} (h : ∀ n : Fin 256, p (UInt8.ofNat n)) (c : UInt8) : p c := by
  have hc := h ⟨c.toNat, c.toNat_lt⟩
  rwa [UInt8.ofNat_toNat] at hc

/-- The ways a modelled function leaves by exception. -/
inductive Thrown where
  | runtimeError (what : Bytes)
  /-- `std::out_of_range`, from `substr` with a start past the end. -/
  | outOfRange
  /-- `HttpException` and its children: the status line and the text. -/
  | httpException (status what : Bytes)
  /-- Not an exception of the source: the fuel of a modelled recursion
  ran out. -/
  | outOfFuel
deriving DecidableEq

theorem bind_eq_ok {α β : Type} {x : Except Thrown α} {f : α → Except Thrown β} {b : β}
    (h : x >>= f = .ok b) : ∃ a, x = .ok a ∧ f a = .ok b := by
  cases x with
  | error e => cases h
  | ok a => exact ⟨a, rfl, h⟩

/-! ## `trim` -/

/-- The blanks of `trim`: `" \t\n\r"`. -/
def isBlank (c : UInt8) : Bool :=
  c == ' '.toUInt8 || c == '\t'.toUInt8 || c == '\n'.toUInt8 || c == '\r'.toUInt8

def trim (s : Bytes) : Bytes := Search.trim isBlank s

/-- `s.substr(pos, n)` for a `pos` inside the string. -/
def substr (s : Bytes) (pos n : Nat) : Bytes := (s.drop pos).take n

@[simp] theorem substr_append (pre s rest : Bytes) :
    substr (pre ++ (s ++ rest)) pre.length s.length = s := by
  rw [substr, List.drop_left, List.take_left]

theorem exists_append_of_substr {word body : Bytes} (hword : substr body 0 word.length = word)
    (hlen : word.length < body.length) : ∃ c rest, body = word ++ c :: rest := by
  obtain ⟨rest, hrest⟩ : word <+: body := hword ▸ List.take_prefix ..
  cases rest with
  | nil =>
      rw [← hrest, List.append_nil] at hlen
      omega
  | cons c rest => exact ⟨c, rest, hrest.symm⟩

/-- `s.substr(pos)`, which throws when `pos` is past the end. -/
def substrFrom (s : Bytes) (pos : Nat) : Except Thrown Bytes :=
  if pos ≤ s.length then .ok (s.drop pos) else .error .outOfRange

/-- `s.find(pat, pos)`; `npos` is `none`. -/
def find (pat : String) (s : Bytes) (pos : Nat) : Option Nat := Search.find (bytes pat) s pos

/-! ## Numbers -/

/-- The white space of `operator>>` in the classic locale. -/
def isSpace (c : UInt8) : Bool := c == 32 || 9 ≤ c && c ≤ 13

/-- `from_string<unsigned int>`: blanks, a sign and digits as far as they
go; no digits give 0, and too large a number the largest one. -/
def fromString (s : Bytes) : UInt32 :=
  let s := s.dropWhile isSpace
  let negative := s.head? = some '-'.toUInt8
  let s := if negative ∨ s.head? = some '+'.toUInt8 then s.tail else s
  let number := Decimal.value (s.takeWhile Decimal.isDigit)
  if 2 ^ 32 ≤ number then UInt32.ofNat (2 ^ 32 - 1)
  else if negative then -UInt32.ofNat number
  else UInt32.ofNat number

/-- `to_string<unsigned int>`. -/
def toString (value : UInt32) : Bytes := Decimal.digits value.toNat

/-- A digit is no blank and no sign. -/
theorem front_of_isDigit {c : UInt8} (hc : Decimal.isDigit c = true) :
    isSpace c = false ∧ c ≠ '-'.toUInt8 ∧ c ≠ '+'.toUInt8 := by
  have hrange := Decimal.isDigit_iff.mp hc
  refine ⟨?_, ?_, ?_⟩
  · simp [isSpace, UInt8.le_iff_toNat_le, ← UInt8.toNat_inj]
    omega
  · rintro rfl
    exact absurd hrange.1 (by decide)
  · rintro rfl
    exact absurd hrange.1 (by decide)

/-- Digits that fit are read as the number they stand for. -/
theorem fromString_digits {s : Bytes} (hdigit : ∀ c ∈ s, Decimal.isDigit c = true)
    (hlt : Decimal.value s < 2 ^ 32) : fromString s = UInt32.ofNat (Decimal.value s) := by
  have hspace : s.dropWhile isSpace = s := by
    cases s with
    | nil => rfl
    | cons c s => exact List.dropWhile_cons_of_neg (by simp [(front_of_isDigit (hdigit c (by simp))).1])
  have hsign : s.head? ≠ some '-'.toUInt8 ∧ s.head? ≠ some '+'.toUInt8 := by
    cases s with
    | nil => simp
    | cons c s => simpa using (front_of_isDigit (hdigit c (by simp))).2
  unfold fromString
  simp only [hspace, hsign, or_self, if_false, List.takeWhile_eq_self_iff.mpr hdigit]
  rw [if_neg (by omega)]

theorem fromString_toString (value : UInt32) : fromString (toString value) = value := by
  have hvalue : Decimal.value (toString value) = value.toNat := Decimal.value_digits _
  have hdigit : ∀ c ∈ toString value, Decimal.isDigit c = true := Decimal.digits_digit _
  rw [fromString_digits hdigit (by rw [hvalue]; exact value.toNat_lt), hvalue, UInt32.ofNat_toNat]

end Simurga
