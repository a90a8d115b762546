import Mathlib.Data.List.Induction
import Mathlib.Data.Nat.Bitwise

/-!
# Sets as words of flags

A set of names kept in one number: the names of a list, each looked up in
a table, set their bits (`encode`), and a reader asks for a bit
(`encode_and_ne_zero`). A list that is written in a loop with a separator
in front of all but the first is the list joined (`joinLoop_eq`).
-/

namespace Flags

variable {α β γ : Type*}

/-- The bits of the names in a list; a name that is not in the table has none. -/
def encode (bitOf : α → Option Nat) (names : List α) : Nat :=
  names.foldl (fun result name =>
    match bitOf name with
    | some bit => result ||| bit
    | none => result) 0

/-- A bit is set exactly if a name of the list has it. -/
theorem encode_and_ne_zero (bitOf : α → Option Nat) (names : List α) (mask : Nat) :
    encode bitOf names &&& mask ≠ 0 ↔ ∃ name ∈ names, ∃ bit, bitOf name = some bit ∧ bit &&& mask ≠ 0 := by
  induction names using List.reverseRecOn with
  | nil => simp [encode]
  | append_singleton names name ih =>
      unfold encode at ih ⊢
      rw [List.foldl_append, List.foldl_cons, List.foldl_nil]
      cases hbit : bitOf name with
      | none => simp [ih, or_and_right, exists_or, hbit]
      | some bit =>
          have hor : ∀ {n m : Nat}, n ||| m ≠ 0 ↔ n ≠ 0 ∨ m ≠ 0 := by
            intro n m
            rw [Ne, Nat.or_eq_zero_iff, not_and_or]
          simp only [Nat.and_or_distrib_right, hor, ih, List.mem_append, List.mem_singleton,
            or_and_right, exists_or, exists_eq_left, hbit, Option.some.injEq, exists_eq_left']

theorem and_two_pow_ne_zero (n i : Nat) : n &&& 2 ^ i ≠ 0 ↔ n.testBit i = true := by
  rw [Nat.and_two_pow]
  cases n.testBit i <;> simp

theorem testBit_encode (bitOf : α → Option Nat) (names : List α) (i : Nat) :
    (encode bitOf names).testBit i = true
      ↔ ∃ name ∈ names, ∃ bit, bitOf name = some bit ∧ bit.testBit i = true := by
  simp only [← and_two_pow_ne_zero, encode_and_ne_zero]

/-- Text by text, with the separator in front of a text that has one before it. -/
def joinLoop (sep : List γ) (f : β → List γ) (l : List β) : List γ :=
  l.foldl (fun result x => (if result ≠ [] then result ++ sep else result) ++ f x) []

theorem intercalate_append_singleton (sep : List γ) {l : List (List γ)} (hne : l ≠ []) (x : List γ) :
    sep.intercalate (l ++ [x]) = sep.intercalate l ++ sep ++ x := by
  induction l with
  | nil => exact absurd rfl hne
  | cons y l ih =>
      cases l with
      | nil => simp [List.intercalate_cons_cons]
      | cons z l =>
          have h := ih (by simp)
          rw [List.cons_append, List.cons_append, List.intercalate_cons_cons, ← List.cons_append, h,
            List.intercalate_cons_cons]
          simp

theorem intercalate_ne_nil {sep : List γ} {l : List (List γ)} (hne : l ≠ [])
    (h : ∀ x ∈ l, x ≠ []) : sep.intercalate l ≠ [] := by
  obtain ⟨x, l, rfl⟩ := List.exists_cons_of_ne_nil hne
  have hx := h x List.mem_cons_self
  cases l with
  | nil => simpa using hx
  | cons y l => rw [List.intercalate_cons_cons]; simp [hx]

/-- A list of texts of which none is empty is joined. -/
theorem joinLoop_eq {sep : List γ} {f : β → List γ} {l : List β} (h : ∀ x ∈ l, f x ≠ []) :
    joinLoop sep f l = sep.intercalate (l.map f) := by
  induction l using List.reverseRecOn with
  | nil => rfl
  | append_singleton l x ih =>
      have hl : ∀ y ∈ l, f y ≠ [] := fun y hy => h y (List.mem_append_left _ hy)
      have hstep : joinLoop sep f (l ++ [x])
          = (if joinLoop sep f l ≠ [] then joinLoop sep f l ++ sep else joinLoop sep f l) ++ f x := by
        rw [joinLoop, List.foldl_append, ← joinLoop]
        rfl
      rw [hstep, ih hl, List.map_append]
      by_cases hne : l = []
      · subst hne
        simp
      · have hall : ∀ y ∈ l.map f, y ≠ [] := by
          intro y hy
          obtain ⟨z, hz, rfl⟩ := List.mem_map.mp hy
          exact hl z hz
        rw [if_pos (intercalate_ne_nil (by simpa using hne) hall), List.map_singleton,
          intercalate_append_singleton sep (by simpa using hne)]

end Flags
