import Mathlib.Data.List.Basic

/-!
# Machines with a trace

A machine is a partial step function that also says what happened: from a
state and an action to the next state and the events of the step. `Reach`
collects the states a machine gets to together with the events on the way.

An environment that does not do everything is a guard: a condition on the
events so far, the state and the next action, which every step of the run
meets. The invariant rules see the events and the guard, so that a
property of whole runs is proved one step at a time; `run` executes a list
of actions, to exhibit one run.
-/

namespace Machine

variable {S A E : Type*} {step : S → A → Option (S × List E)} {ok ok' : List E → S → A → Prop}
  {s₀ s s' : S} {log log' : List E}

/-- The events and the states of the runs from `s₀` whose steps meet `ok`. -/
inductive Reach (step : S → A → Option (S × List E)) (ok : List E → S → A → Prop) (s₀ : S) :
    List E → S → Prop where
  | init : Reach step ok s₀ [] s₀
  | step {log es : List E} {s s' : S} {a : A} (h : Reach step ok s₀ log s) (hok : ok log s a)
      (hstep : step s a = some (s', es)) : Reach step ok s₀ (log ++ es) s'

/-- The guard of a machine that is left alone. -/
def anyOrder : List E → S → A → Prop := fun _ _ _ => True

/-- What holds at the start and is kept by every step holds in every run. -/
theorem Reach.invariant (Inv : List E → S → Prop) (hinit : Inv [] s₀)
    (hkeep : ∀ {log es s s' a}, Inv log s → ok log s a → step s a = some (s', es) →
      Inv (log ++ es) s')
    (h : Reach step ok s₀ log s) : Inv log s := by
  induction h with
  | init => exact hinit
  | step _ hok hstep ih => exact hkeep ih hok hstep

/-- A step may use what is known of all runs already. -/
theorem Reach.invariant_of (Known Inv : List E → S → Prop)
    (hknown : ∀ {log s}, Reach step ok s₀ log s → Known log s) (hinit : Inv [] s₀)
    (hkeep : ∀ {log es s s' a}, Known log s → Inv log s → ok log s a →
      step s a = some (s', es) → Inv (log ++ es) s')
    (h : Reach step ok s₀ log s) : Inv log s := by
  induction h with
  | init => exact hinit
  | step h hok hstep ih => exact hkeep (hknown h) ih hok hstep

/-- A machine each step of which is one step of another machine or no step
of it runs as the other one does, with the same events. -/
theorem Reach.refines {T B : Type*} {step' : T → B → Option (T × List E)} {ok' : List E → T → B → Prop}
    (abs : S → T) (Inv : List E → S → Prop)
    (hinv : ∀ {log s}, Reach step ok s₀ log s → Inv log s)
    (hsim : ∀ {log es s s' a}, Inv log s → ok log s a → step s a = some (s', es) →
      (abs s' = abs s ∧ es = [])
        ∨ ∃ b, ok' log (abs s) b ∧ step' (abs s) b = some (abs s', es))
    (h : Reach step ok s₀ log s) : Reach step' ok' (abs s₀) log (abs s) := by
  induction h with
  | init => exact .init
  | step h hok hstep ih =>
      rcases hsim (hinv h) hok hstep with ⟨habs, rfl⟩ | ⟨b, hok', hstep'⟩
      · rw [habs, List.append_nil]
        exact ih
      · exact ih.step hok' hstep'

theorem Reach.trans {log' : List E} {s' : S} (h : Reach step anyOrder s₀ log s)
    (h' : Reach step anyOrder s log' s') : Reach step anyOrder s₀ (log ++ log') s' := by
  induction h' with
  | init => rwa [List.append_nil]
  | step _ _ hstep ih =>
      rw [← List.append_assoc]
      exact ih.step trivial hstep

/-! ## Events and what came before them -/

/-- Every event is good after the events before it. -/
def Justified (good : List E → E → Prop) (log : List E) : Prop :=
  ∀ pre e post, log = pre ++ e :: post → good pre e

theorem justified_nil (good : List E → E → Prop) : Justified good [] := by
  intro pre e post h
  simp at h

theorem Justified.append {good : List E → E → Prop} (h : Justified good log)
    (h' : ∀ pre e post, log' = pre ++ e :: post → good (log ++ pre) e) :
    Justified good (log ++ log') := by
  intro pre e post hsplit
  rcases List.append_eq_append_iff.mp hsplit with ⟨mid, rfl, hlog'⟩ | ⟨mid, rfl, hlog⟩
  · exact h' mid e post hlog'
  · cases mid with
    | nil =>
        rw [List.nil_append] at hlog
        simpa using h' [] e post hlog.symm
    | cons d mid =>
        rw [List.cons_append, List.cons.injEq] at hlog
        obtain ⟨rfl, -⟩ := hlog
        exact h pre e mid rfl

/-- Events that are good already after what was there before all of them. -/
theorem Justified.extend {good : List E → E → Prop} (h : Justified good log)
    (hmono : ∀ {pre e}, good log e → good (log ++ pre) e) (hes : ∀ e ∈ log', good log e) :
    Justified good (log ++ log') := by
  refine h.append fun pre e post hsplit => hmono (hes e ?_)
  rw [hsplit]
  exact List.mem_append_right pre (List.mem_cons_self ..)

/-! ## Executing actions -/

section Run

variable (step ok) [∀ log s a, Decidable (ok log s a)]

/-- The actions one after the other, as far as the guard and the machine
let them. -/
def run : List E → S → List A → Option (List E × S)
  | log, s, [] => some (log, s)
  | log, s, a :: as =>
      if ok log s a then
        match step s a with
        | some (s', es) => run (log ++ es) s' as
        | none => none
      else none

end Run

theorem Reach.run [∀ log s a, Decidable (ok log s a)] (h : Reach step ok s₀ log s) (as : List A)
    (hrun : run step ok log s as = some (log', s')) : Reach step ok s₀ log' s' := by
  induction as generalizing log s with
  | nil =>
      cases hrun
      exact h
  | cons a as ih =>
      rw [Machine.run] at hrun
      split at hrun
      · rename_i hok
        cases hstep : step s a with
        | none => rw [hstep] at hrun; cases hrun
        | some r =>
            rw [hstep] at hrun
            exact ih (h.step hok hstep) hrun
      · cases hrun

/-- A run is found by executing it. -/
theorem exists_reach_of_run (step : S → A → Option (S × List E)) (ok : List E → S → A → Prop)
    [∀ log s a, Decidable (ok log s a)] (s₀ : S) (as : List A) (p : List E → S → Bool)
    (h : (Machine.run step ok [] s₀ as).any fun r => p r.1 r.2) :
    ∃ log s, Reach step ok s₀ log s ∧ p log s := by
  obtain ⟨⟨log, s⟩, hrun, hp⟩ := (Option.any_eq_true ..).mp h
  exact ⟨log, s, Reach.init.run as hrun, hp⟩

instance (log : List E) (s : S) (a : A) : Decidable (anyOrder log s a) :=
  inferInstanceAs (Decidable True)

end Machine
