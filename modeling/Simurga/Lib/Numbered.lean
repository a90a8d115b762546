import Mathlib.Data.List.Basic
import Mathlib.Logic.Function.Basic

/-!
# Numbered files

A directory is a map from names to contents. A family of names `key`, one
for each number, makes a part of it a sequence: `Holds` says that the
sequence is a given one. Removing the file of one number and moving the
later ones down, one after the other, takes that number out of the
sequence; on the way there is a hole, which `Gap` describes, and which a
move takes one step further (`Gap.move`).
-/

namespace Numbered

variable {K V : Type*} {key : ℕ → K} {m m' : K → Option V} {f : ℕ → Option V} {i j : ℕ}

/-- The files of the family are the sequence `f`. -/
def Holds (key : ℕ → K) (m : K → Option V) (f : ℕ → Option V) : Prop := ∀ k, m (key k) = f k

/-- The sequence `f` without its place `i`, up to the hole at `j`. -/
def shifted (f : ℕ → Option V) (i j k : ℕ) : Option V :=
  if k < i then f k else if k < j then f (k + 1) else if k = j then none else f k

/-- The files of the family are `f` on the way from `i` to `j`. -/
def Gap (key : ℕ → K) (m : K → Option V) (f : ℕ → Option V) (i j : ℕ) : Prop :=
  Holds key m (shifted f i j)

theorem shifted_self (f : ℕ → Option V) (i : ℕ) : shifted f i i = Function.update f i none := by
  funext k
  rw [shifted]
  by_cases hk : k = i
  · simp [hk]
  · rw [Function.update_of_ne hk]
    by_cases hlt : k < i <;> simp [hlt, hk]

/-- A family that a change does not reach. -/
theorem Holds.congr (h : Holds key m f) (heq : ∀ k, m' (key k) = m (key k)) : Holds key m' f :=
  fun k => (heq k).trans (h k)

section Move

variable [DecidableEq K]

/-- The file `src` gets the name `dst`, whose file is gone; without a file
`src` nothing happens. -/
def move (m : K → Option V) (src dst : K) : K → Option V :=
  match m src with
  | none => m
  | some v => Function.update (Function.update m src none) dst (some v)

theorem move_none {src : K} (h : m src = none) (dst : K) : move m src dst = m := by
  rw [move, h]

theorem move_some {src : K} {v : V} (h : m src = some v) (dst : K) :
    move m src dst = Function.update (Function.update m src none) dst (some v) := by
  rw [move, h]

theorem move_of_ne {src dst k : K} (hsrc : k ≠ src) (hdst : k ≠ dst) : move m src dst k = m k := by
  cases h : m src with
  | none => rw [move_none h]
  | some v => rw [move_some h, Function.update_of_ne hdst, Function.update_of_ne hsrc]

/-- Moving to another name leaves the old name free. -/
theorem move_src {src dst : K} (hne : src ≠ dst) : move m src dst src = none := by
  cases h : m src with
  | none => rw [move_none h, h]
  | some v => rw [move_some h, Function.update_of_ne hne, Function.update_self]

theorem move_dst {src dst : K} (hfree : m dst = none) : move m src dst dst = m src := by
  cases h : m src with
  | none => rw [move_none h, hfree]
  | some v => rw [move_some h, Function.update_self]

theorem Holds.update (hkey : Function.Injective key) (h : Holds key m f) (n : ℕ) (v : Option V) :
    Holds key (Function.update m (key n) v) (Function.update f n v) := by
  intro k
  by_cases hk : k = n
  · rw [hk, Function.update_self, Function.update_self]
  · rw [Function.update_of_ne (hkey.ne hk), Function.update_of_ne hk, h k]

/-- A move fills the hole from the next number. -/
theorem Gap.move (hkey : Function.Injective key) (hij : i ≤ j) (h : Gap key m f i j) :
    Gap key (Numbered.move m (key (j + 1)) (key j)) f i (j + 1) := by
  have hfree : m (key j) = none := by
    rw [h j, shifted, if_neg (by omega), if_neg (by omega), if_pos rfl]
  have hnext : m (key (j + 1)) = f (j + 1) := by
    rw [h (j + 1), shifted, if_neg (by omega), if_neg (by omega), if_neg (by omega)]
  intro k
  by_cases hk : k = j
  · rw [hk, move_dst hfree, hnext, shifted, if_neg (by omega), if_pos (by omega)]
  · by_cases hk' : k = j + 1
    · rw [hk', move_src (hkey.ne (by omega)), shifted, if_neg (by omega), if_neg (by omega), if_pos rfl]
    · rw [move_of_ne (hkey.ne hk') (hkey.ne hk), h k, shifted, shifted]
      by_cases hi : k < i
      · rw [if_pos hi, if_pos hi]
      · rw [if_neg hi, if_neg hi]
        by_cases hj : k < j
        · rw [if_pos hj, if_pos (by omega)]
        · rw [if_neg hj, if_neg (by omega : ¬ k < j + 1), if_neg hk, if_neg hk']

end Move

/-! ## Lists -/

theorem update_getElem?_length (l : List V) (v : V) :
    Function.update (fun k => l[k]?) l.length (some v) = fun k => (l ++ [v])[k]? := by
  funext k
  by_cases hk : k = l.length
  · simp [hk]
  · rw [Function.update_of_ne hk]
    rcases Nat.lt_or_gt_of_ne hk with h | h
    · rw [List.getElem?_append_left h]
    · rw [List.getElem?_eq_none (by omega), List.getElem?_eq_none (by simp; omega)]

/-- When the hole is at the end, the place `i` is gone. -/
theorem shifted_getElem? (l : List V) (i : ℕ) :
    shifted (fun k => l[k]?) i (l.length - 1) = fun k => (l.eraseIdx i)[k]? := by
  funext k
  rw [List.getElem?_eraseIdx, shifted]
  by_cases hk : k < i
  · rw [if_pos hk, if_pos hk]
  · rw [if_neg hk, if_neg hk]
    by_cases hlt : k < l.length - 1
    · rw [if_pos hlt]
    · rw [if_neg hlt, List.getElem?_eq_none (l := l) (i := k + 1) (by omega)]
      split
      · rfl
      · exact List.getElem?_eq_none (by omega)

/-- What is there up to `n` is there up to `n - 1` once a place is gone. -/
theorem shifted_isSome {n k : ℕ} (hf : ∀ k < n, (f k).isSome) (hk : k < n - 1) :
    (shifted f i (n - 1) k).isSome := by
  rw [shifted]
  by_cases hi : k < i
  · rw [if_pos hi]
    exact hf k (by omega)
  · rw [if_neg hi, if_pos hk]
    exact hf (k + 1) (by omega)

end Numbered
