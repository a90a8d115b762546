import Mathlib.Data.Nat.Notation

/-!
# Functions with fuel

A loop that may not end is a function of the number of turns it is given,
with one value for not having ended in them (`stuck`). It ends if it has a
result from some number of turns on, the same for all of them.
-/

namespace Fuel

variable {α : Type*} {stuck r : α} {f g : ℕ → α}

/-- With fuel enough the result is `r`. -/
def Settles (f : ℕ → α) (r : α) : Prop := ∃ n, ∀ fuel, n ≤ fuel → f fuel = r

def Halts (stuck : α) (f : ℕ → α) : Prop := ∃ r, r ≠ stuck ∧ Settles f r

/-- Fuel that is enough, and more of it that does not matter. -/
theorem halts_of_stable {n : ℕ} (h : ∀ fuel, n ≤ fuel → f n = f fuel ∧ f n ≠ stuck) : Halts stuck f :=
  ⟨f n, (h n (Nat.le_refl n)).2, n, fun fuel hle => (h fuel hle).1.symm⟩

/-- One turn more in front. -/
theorem settles_succ (h : ∀ fuel, f (fuel + 1) = g fuel) : Settles f r ↔ Settles g r := by
  constructor
  · rintro ⟨n, hn⟩
    exact ⟨n, fun fuel hfuel => (h fuel).symm.trans (hn (fuel + 1) (by omega))⟩
  · rintro ⟨n, hn⟩
    refine ⟨n + 1, fun fuel hfuel => ?_⟩
    obtain ⟨fuel, rfl⟩ : ∃ k, fuel = k + 1 := ⟨fuel - 1, by omega⟩
    exact (h fuel).trans (hn fuel (by omega))

theorem not_halts (h : ∀ fuel, f fuel = stuck) : ¬ Halts stuck f := by
  rintro ⟨r, hne, n, hn⟩
  exact hne ((hn n (Nat.le_refl n)).symm.trans (h n))

end Fuel
