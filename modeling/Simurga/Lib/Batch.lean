import Mathlib.Data.List.Basic

/-!
# Batches of steps

Steps that change a state or die, run as a batch: all of them or nothing
(`run`), or each on its own, where one that dies is undone (`runEach`). If
no step changes which others die, a batch dies exactly if one of its steps
would at the start (`isSome_run_iff`).
-/

namespace Batch

variable {S A : Type*} {step : S → A → Option S}

/-- All steps in their order; none if one of them dies. -/
def run (step : S → A → Option S) (l : List A) (s : S) : Option S := l.foldlM step s

/-- Each step on its own. -/
def runEach (step : S → A → Option S) (l : List A) (s : S) : S :=
  l.foldl (fun s a => (step s a).getD s) s

theorem run_cons (a : A) (l : List A) (s : S) :
    run step (a :: l) s = (step s a).bind (run step l) := List.foldlM_cons

theorem runEach_concat (l : List A) (a : A) (s : S) :
    runEach step (l ++ [a]) s = (step (runEach step l s) a).getD (runEach step l s) := by
  rw [runEach, List.foldl_append]
  rfl

/-- Which steps die is settled at the start. -/
theorem isSome_run_iff {ok : S → A → Prop} (hstep : ∀ s a, (step s a).isSome ↔ ok s a)
    (hkeep : ∀ {s a s'}, step s a = some s' → ∀ b, ok s' b ↔ ok s b) (l : List A) (s : S) :
    (run step l s).isSome ↔ ∀ a ∈ l, ok s a := by
  induction l generalizing s with
  | nil => simp [run]
  | cons a l ih =>
      rw [run_cons, List.forall_mem_cons, ← hstep]
      cases ha : step s a with
      | none => simp
      | some s' =>
          rw [Option.bind_some, ih, Option.isSome_some]
          simp only [true_and, hkeep ha]

/-- Steps that do not die make no difference. -/
theorem runEach_of_run {l : List A} {s s' : S} (h : run step l s = some s') :
    runEach step l s = s' := by
  induction l generalizing s with
  | nil => exact Option.some.inj h
  | cons a l ih =>
      rw [run_cons] at h
      obtain ⟨s₁, hs₁, h⟩ := Option.bind_eq_some_iff.mp h
      rw [runEach, List.foldl_cons, hs₁]
      exact ih h

/-- On their own, steps that always die can be left out. -/
theorem runEach_filter {p : A → Bool} (hdies : ∀ a, p a = false → ∀ s, step s a = none) (l : List A)
    (s : S) : runEach step (l.filter p) s = runEach step l s := by
  rw [runEach, runEach, List.foldl_filter]
  congr 1
  funext s a
  cases hp : p a with
  | true => rfl
  | false => rw [hdies a hp]; rfl

end Batch
