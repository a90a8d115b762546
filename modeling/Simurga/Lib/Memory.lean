import Mathlib.Data.List.Basic
import Mathlib.Logic.Function.Basic

/-!
# Blocks of memory

A memory is a function from offsets to cells. `load` reads a stretch of it
and `store` overwrites one; the lemmas say what a load sees of a store that
lies at, before or behind it.
-/

namespace Memory

variable {α : Type*} {m : Nat → α} {pos n : Nat} {xs : List α}

/-- The `n` cells from `pos` on. -/
def load (m : Nat → α) (pos n : Nat) : List α := (List.range n).map fun i => m (pos + i)

/-- `xs` put into the cells from `pos` on. -/
def store (m : Nat → α) (pos : Nat) (xs : List α) : Nat → α :=
  fun i => if pos ≤ i then (xs[i - pos]?).getD (m i) else m i

@[simp] theorem length_load : (load m pos n).length = n := by simp [load]

@[simp] theorem load_zero : load m pos 0 = [] := rfl

theorem load_add (m : Nat → α) (pos n k : Nat) :
    load m pos (n + k) = load m pos n ++ load m (pos + n) k := by
  simp only [load, List.range_add, List.map_append, List.map_map]
  congr 1
  refine List.map_congr_left fun i _ => ?_
  rw [Function.comp_apply, Nat.add_assoc]

theorem take_load {k : Nat} (h : k ≤ n) : (load m pos n).take k = load m pos k := by
  obtain ⟨j, rfl⟩ := Nat.exists_eq_add_of_le h
  rw [load_add, List.take_left' length_load]

theorem drop_load {k : Nat} (h : k ≤ n) : (load m pos n).drop k = load m (pos + k) (n - k) := by
  obtain ⟨j, rfl⟩ := Nat.exists_eq_add_of_le h
  rw [load_add, List.drop_left' length_load, Nat.add_sub_cancel_left]

/-- A load reads its own cells and no others. -/
theorem load_congr {m m' : Nat → α} (h : ∀ i, pos ≤ i → i < pos + n → m i = m' i) :
    load m pos n = load m' pos n := by
  refine List.map_congr_left fun i hi => ?_
  have := List.mem_range.mp hi
  exact h (pos + i) (by omega) (by omega)

theorem load_succ (m : Nat → α) (pos n : Nat) : load m pos (n + 1) = m pos :: load m (pos + 1) n := by
  rw [Nat.add_comm n 1, load_add]
  rfl

/-- Where the parts of what is read lie. -/
theorem load_eq_append {ys : List α} (h : load m pos n = xs ++ ys) :
    n = xs.length + ys.length ∧ load m pos xs.length = xs
      ∧ load m (pos + xs.length) ys.length = ys := by
  have hlen : n = xs.length + ys.length := by
    rw [← List.length_append, ← h, length_load]
  subst hlen
  rw [load_add] at h
  exact ⟨rfl, List.append_inj h length_load⟩

theorem load_eq_cons {x : α} {ys : List α} (h : load m pos n = x :: ys) :
    n = ys.length + 1 ∧ m pos = x ∧ load m (pos + 1) ys.length = ys := by
  have happend : load m pos n = [x] ++ ys := h
  obtain ⟨hlen, hx, hys⟩ := load_eq_append happend
  refine ⟨by rw [hlen, List.length_singleton, Nat.add_comm], ?_, hys⟩
  rw [List.length_singleton, load_succ] at hx
  exact List.head_eq_of_cons_eq hx

theorem load_update {i : Nat} {x : α} (h : i < pos) :
    load (Function.update m i x) pos n = load m pos n :=
  load_congr fun _ hj _ => Function.update_of_ne (by omega) ..

/-! ## A load after a store -/

theorem store_of_lt {i : Nat} (h : i < pos) : store m pos xs i = m i := if_neg (by omega)

theorem store_of_ge {i : Nat} (h : pos + xs.length ≤ i) : store m pos xs i = m i := by
  rw [store, if_pos (by omega), List.getElem?_eq_none (by omega), Option.getD_none]

@[simp] theorem load_store (m : Nat → α) (pos : Nat) (xs : List α) :
    load (store m pos xs) pos xs.length = xs := by
  refine List.ext_getElem length_load fun i hi hi' => ?_
  simp only [load, List.getElem_map, List.getElem_range, store]
  rw [if_pos (by omega), Nat.add_sub_cancel_left, List.getElem?_eq_getElem hi', Option.getD_some]

/-- A store behind what is read. -/
theorem load_store_before {p : Nat} (h : pos + n ≤ p) :
    load (store m p xs) pos n = load m pos n :=
  load_congr fun _ _ hi => store_of_lt (by omega)

/-- A store before what is read. -/
theorem load_store_after {p : Nat} (h : p + xs.length ≤ pos) :
    load (store m p xs) pos n = load m pos n :=
  load_congr fun _ hi _ => store_of_ge (by omega)

end Memory
