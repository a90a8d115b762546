import Mathlib

/-!
# Tiles that do not cross blocks

A text lies in blocks, one behind the other, and is made of tiles, one
behind the other, of which none crosses the end of a block. `Tiled` relates
the lengths of the blocks to those of the tiles. Tiles are added behind the
last one, in the last block, and used up from the front of the first one.
-/

namespace Tiling

/-- Tiles of these sizes fill blocks of these lengths. -/
inductive Tiled : List Nat → List Nat → Prop where
  | nil : Tiled [] []
  | block {spans sizes : List Nat} (h : Tiled spans sizes) : Tiled (0 :: spans) sizes
  | tile {n size : Nat} {spans sizes : List Nat} (hpos : 0 < size) (h : Tiled (n :: spans) sizes) :
      Tiled ((size + n) :: spans) (size :: sizes)

namespace Tiled

variable {spans sizes : List Nat} {n k size : Nat}

theorem sum_eq (h : Tiled spans sizes) : spans.sum = sizes.sum := by
  induction h with
  | nil => rfl
  | block _ ih => rw [List.sum_cons, Nat.zero_add, ih]
  | tile _ _ ih =>
      rw [List.sum_cons] at ih ⊢
      rw [List.sum_cons, ← ih, Nat.add_assoc]

theorem pos (h : Tiled spans sizes) : ∀ size ∈ sizes, 0 < size := by
  induction h with
  | nil => simp
  | block _ ih => exact ih
  | tile hpos _ ih => simpa using ⟨hpos, ih⟩

/-- Blocks without tiles are empty. -/
theorem of_nil (h : Tiled spans []) : ∀ n ∈ spans, n = 0 := by
  generalize hl : ([] : List Nat) = l at h
  induction h with
  | nil => simp
  | block _ ih => simpa using ih hl
  | tile _ _ _ => cases hl

/-- Another empty block at the end. -/
theorem concat_block (h : Tiled spans sizes) : Tiled (spans ++ [0]) sizes := by
  induction h with
  | nil => exact .block .nil
  | block _ ih => exact .block ih
  | tile hpos _ ih => exact .tile hpos ih

/-- Another tile in the last block. -/
theorem concat_tile (h : Tiled (spans ++ [n]) sizes) (hpos : 0 < size) :
    Tiled (spans ++ [n + size]) (sizes ++ [size]) := by
  generalize hl : spans ++ [n] = l at h
  induction h generalizing spans n with
  | nil => simp at hl
  | block h ih =>
      cases spans with
      | nil =>
          obtain ⟨rfl, rfl⟩ : n = 0 ∧ _ = [] := by simpa [eq_comm] using hl
          cases h
          simpa using Tiled.tile hpos (.block .nil)
      | cons m spans =>
          rw [List.cons_append, List.cons.injEq] at hl
          obtain ⟨rfl, rfl⟩ := hl
          exact .block (ih rfl)
  | @tile m first rest sizes hfirst h ih =>
      cases spans with
      | nil =>
          obtain ⟨rfl, rfl⟩ : n = first + m ∧ rest = [] := by simpa [eq_comm] using hl
          have := Tiled.tile hfirst (@ih [] m rfl)
          rwa [List.nil_append, Nat.add_assoc]
      | cons m' spans =>
          rw [List.cons_append, List.cons.injEq] at hl
          obtain ⟨rfl, rfl⟩ := hl
          exact .tile hfirst (@ih (m :: spans) _ rfl)

/-- The first block, when something is left of it, begins with the first
tile. -/
theorem first_le (h : Tiled (n :: spans) (size :: sizes)) (hn : 0 < n) : size ≤ n := by
  cases h with
  | block _ => omega
  | tile _ _ => omega

/-- A part of the first tile is used up. -/
theorem shrink (h : Tiled (n :: spans) (size :: sizes)) (hn : 0 < n) (hk : k < size) :
    Tiled ((n - k) :: spans) ((size - k) :: sizes) := by
  cases h with
  | block _ => omega
  | @tile m _ _ _ _ h =>
      rw [show size + m - k = size - k + m from by omega]
      exact .tile (by omega) h

/-- The first tile is used up. -/
theorem pop (h : Tiled (n :: spans) (size :: sizes)) (hn : 0 < n) :
    Tiled ((n - size) :: spans) sizes := by
  cases h with
  | block _ => omega
  | tile _ h => rwa [Nat.add_sub_cancel_left]

/-- A first block that is used up. -/
theorem tail (h : Tiled (0 :: spans) sizes) : Tiled spans sizes := by
  generalize hl : 0 :: spans = l at h
  cases h with
  | nil => cases hl
  | block h => cases hl; exact h
  | tile hpos _ =>
      rw [List.cons.injEq] at hl
      omega

end Tiled

end Tiling
