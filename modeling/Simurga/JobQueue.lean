import Simurga.Lib.Machine

/-!
# The job queue

`jobqueue.cpp` as a machine: `add` and `stop` from any thread, each under
`guard_`, and the steps of the one thread in `run`. Where that thread
stands is part of the state. The batch it took is its own, so nobody else
touches it, and `add` and `stop` may come between any two of its steps,
also while a job of the batch is running.

A pair of a job and its completion is a value of any type; what running it
does is left to the machine that uses the queue.
-/

namespace Simurga

/-- Where the thread in `run` stands. -/
inductive RunThread (Pair : Type) where
  /-- Before the lock and the condition of the inner loop. -/
  | check
  /-- In `signal_.wait`; a notification may have come. -/
  | waiting (notified : Bool)
  /-- In the loop over the batch, before the first of `jobs`. -/
  | batch (jobs : List Pair)
  /-- In `item.first()`. -/
  | first (item : Pair) (jobs : List Pair)
  /-- In `item.second()`. -/
  | second (item : Pair) (jobs : List Pair)
  | ended
deriving DecidableEq

structure JobQueue (Pair : Type) where
  queue_ : List Pair := []
  stop_ : Bool := false
  thread : RunThread Pair := .check
deriving DecidableEq

namespace JobQueue

variable {Pair : Type}

inductive Act (Pair : Type) where
  | add (item : Pair)
  | stop
  | check
  | wake
  | next
  | endFirst (threw : Bool)
  | endSecond (threw : Bool)

inductive Event (Pair : Type) where
  | added (item : Pair)
  | stopped
  | took (jobs : List Pair)
  | started (item : Pair)
  | finished (item : Pair) (threw : Bool)
  | completing (item : Pair)
  | completed (item : Pair) (threw : Bool)
deriving DecidableEq

/-- `signal_.notify_all()`. -/
def notifyAll : RunThread Pair → RunThread Pair
  | .waiting _ => .waiting true
  | thread => thread

/-- `JobQueue::add`. -/
def add (q : JobQueue Pair) (item : Pair) : JobQueue Pair :=
  { q with queue_ := q.queue_ ++ [item], thread := notifyAll q.thread }

/-- `JobQueue::stop`. -/
def stop (q : JobQueue Pair) : JobQueue Pair :=
  { q with stop_ := true, thread := notifyAll q.thread }

/-- One step. An exception of a job or a completion ends it like a return:
`run` catches it and goes on. -/
def step (q : JobQueue Pair) : Act Pair → Option (JobQueue Pair × List (Event Pair))
  | .add item => some (q.add item, [.added item])
  | .stop => some (q.stop, [.stopped])
  | .check =>
      match q.thread with
      | .check =>
          if q.stop_ = false ∧ q.queue_ = [] then some ({ q with thread := .waiting false }, [])
          else if q.stop_ then some ({ q with thread := .ended }, [])
          else some ({ q with queue_ := [], thread := .batch q.queue_ }, [.took q.queue_])
      | _ => none
  | .wake =>
      match q.thread with
      | .waiting _ => some ({ q with thread := .check }, [])
      | _ => none
  | .next =>
      match q.thread with
      | .batch [] => some ({ q with thread := .check }, [])
      | .batch (item :: jobs) => some ({ q with thread := .first item jobs }, [.started item])
      | _ => none
  | .endFirst threw =>
      match q.thread with
      | .first item jobs =>
          some ({ q with thread := .second item jobs }, [.finished item threw, .completing item])
      | _ => none
  | .endSecond threw =>
      match q.thread with
      | .second item jobs => some ({ q with thread := .batch jobs }, [.completed item threw])
      | _ => none

/-! ## What a step can do -/

/-- The steps, one constructor for each way a state moves on. -/
inductive Step (q : JobQueue Pair) : Act Pair → JobQueue Pair → List (Event Pair) → Prop where
  | add (item : Pair) : Step q (.add item) (q.add item) [.added item]
  | stop : Step q .stop q.stop [.stopped]
  | wait (hthread : q.thread = .check) (hstop : q.stop_ = false) (hqueue : q.queue_ = []) :
      Step q .check { q with thread := .waiting false } []
  | leave (hthread : q.thread = .check) (hstop : q.stop_ = true) :
      Step q .check { q with thread := .ended } []
  | take (hthread : q.thread = .check) (hstop : q.stop_ = false) (hqueue : q.queue_ ≠ []) :
      Step q .check { q with queue_ := [], thread := .batch q.queue_ } [.took q.queue_]
  | wake {notified : Bool} (hthread : q.thread = .waiting notified) :
      Step q .wake { q with thread := .check } []
  | clear (hthread : q.thread = .batch []) : Step q .next { q with thread := .check } []
  | next {item : Pair} {jobs : List Pair} (hthread : q.thread = .batch (item :: jobs)) :
      Step q .next { q with thread := .first item jobs } [.started item]
  | endFirst {item : Pair} {jobs : List Pair} (threw : Bool) (hthread : q.thread = .first item jobs) :
      Step q (.endFirst threw) { q with thread := .second item jobs }
        [.finished item threw, .completing item]
  | endSecond {item : Pair} {jobs : List Pair} (threw : Bool)
      (hthread : q.thread = .second item jobs) :
      Step q (.endSecond threw) { q with thread := .batch jobs } [.completed item threw]

theorem step_cases {q q' : JobQueue Pair} {a : Act Pair} {es : List (Event Pair)}
    (h : q.step a = some (q', es)) : Step q a q' es := by
  cases a with
  | add item => cases h; exact .add item
  | stop => cases h; exact .stop
  | check =>
      simp only [step] at h
      split at h
      · rename_i hthread
        by_cases hwait : q.stop_ = false ∧ q.queue_ = []
        · rw [if_pos hwait] at h
          cases h
          exact .wait hthread hwait.1 hwait.2
        · rw [if_neg hwait] at h
          cases hstop : q.stop_ with
          | true =>
              rw [if_pos hstop] at h
              cases h
              exact .leave hthread hstop
          | false =>
              rw [if_neg (by simp [hstop])] at h
              cases h
              exact .take hthread hstop fun hqueue => hwait ⟨hstop, hqueue⟩
      · cases h
  | wake =>
      simp only [step] at h
      split at h
      · rename_i hthread
        cases h
        exact .wake hthread
      · cases h
  | next =>
      simp only [step] at h
      split at h
      · rename_i hthread
        cases h
        exact .clear hthread
      · rename_i hthread
        cases h
        exact .next hthread
      · cases h
  | endFirst threw =>
      simp only [step] at h
      split at h
      · rename_i hthread
        cases h
        exact .endFirst threw hthread
      · cases h
  | endSecond threw =>
      simp only [step] at h
      split at h
      · rename_i hthread
        cases h
        exact .endSecond threw hthread
      · cases h

/-- `Step` says no more than `step` does. -/
theorem Step.eq_some {q q' : JobQueue Pair} {a : Act Pair} {es : List (Event Pair)}
    (h : Step q a q' es) : q.step a = some (q', es) := by
  cases h with
  | add | stop => rfl
  | wait hthread hstop hqueue => simp [step, hthread, hstop, hqueue]
  | leave hthread hstop => simp [step, hthread, hstop]
  | take hthread hstop hqueue => simp [step, hthread, hstop, hqueue]
  | wake hthread | clear hthread | next hthread | endFirst _ hthread | endSecond _ hthread =>
      simp [step, hthread]

/-! ## Order -/

/-- The pairs in the order of the calls of `add`. -/
def added (log : List (Event Pair)) : List Pair :=
  log.filterMap fun
    | .added item => some item
    | _ => none

/-- The pairs whose job was started, in order. -/
def started (log : List (Event Pair)) : List Pair :=
  log.filterMap fun
    | .started item => some item
    | _ => none

/-- The calls of jobs and completions and their ends. -/
def executions (log : List (Event Pair)) : List (Event Pair) :=
  log.filter fun
    | .started _ | .finished _ _ | .completing _ | .completed _ _ => true
    | _ => false

@[simp] theorem added_append (log es : List (Event Pair)) :
    added (log ++ es) = added log ++ added es :=
  List.filterMap_append ..

@[simp] theorem started_append (log es : List (Event Pair)) :
    started (log ++ es) = started log ++ started es :=
  List.filterMap_append ..

@[simp] theorem executions_append (log es : List (Event Pair)) :
    executions (log ++ es) = executions log ++ executions es :=
  List.filter_append ..

/-- What is left of the batch. -/
def rest : RunThread Pair → List Pair
  | .batch jobs | .first _ jobs | .second _ jobs => jobs
  | .check | .waiting _ | .ended => []

/-- The pair that is being run. -/
def current : RunThread Pair → List Pair
  | .first item _ | .second item _ => [item]
  | .check | .waiting _ | .batch _ | .ended => []

/-- A pair run to its end: the job, and then its completion. -/
def pairRun (r : Pair × Bool × Bool) : List (Event Pair) :=
  [.started r.1, .finished r.1 r.2.1, .completing r.1, .completed r.1 r.2.2]

/-- What has been done of the pair that is being run. -/
def Partial : RunThread Pair → List (Event Pair) → Prop
  | .first item _, es => es = [.started item]
  | .second item _, es => ∃ threw, es = [.started item, .finished item threw, .completing item]
  | .check, es | .waiting _, es | .batch _, es | .ended, es => es = []

@[simp] theorem rest_notifyAll (thread : RunThread Pair) : rest (notifyAll thread) = rest thread := by
  cases thread <;> rfl

@[simp] theorem current_notifyAll (thread : RunThread Pair) :
    current (notifyAll thread) = current thread := by
  cases thread <;> rfl

@[simp] theorem partial_notifyAll (thread : RunThread Pair) :
    Partial (notifyAll thread) = Partial thread := by
  cases thread <;> rfl

/-- What holds between the events so far and the queue. -/
structure Ordered (log : List (Event Pair)) (q : JobQueue Pair) : Prop where
  order : started log ++ rest q.thread ++ q.queue_ = added log
  runs : ∃ (done : List (Pair × Bool × Bool)) (tail : List (Event Pair)),
    executions log = done.flatMap pairRun ++ tail ∧ Partial q.thread tail
    ∧ started log = done.map Prod.fst ++ current q.thread
  stop : .stopped ∈ log ↔ q.stop_ = true
  closed : log.Pairwise fun e e' => e = .stopped → ∀ jobs, e' ≠ .took jobs

/-- One event more: only a batch taken can come too late. -/
theorem pairwise_concat {log : List (Event Pair)} {e : Event Pair}
    (h : log.Pairwise fun e e' => e = .stopped → ∀ jobs, e' ≠ .took jobs)
    (he : .stopped ∈ log → ∀ jobs, e ≠ .took jobs) :
    (log ++ [e]).Pairwise fun e e' => e = .stopped → ∀ jobs, e' ≠ .took jobs := by
  refine List.pairwise_append.mpr ⟨h, List.pairwise_singleton .., ?_⟩
  rintro d hd e' he' rfl
  obtain rfl := List.mem_singleton.mp he'
  exact he hd

theorem ordered_step {log es : List (Event Pair)} {q q' : JobQueue Pair} {a : Act Pair}
    (h : Ordered log q) (hstep : Step q a q' es) : Ordered (log ++ es) q' := by
  obtain ⟨horder, ⟨done, tail, hruns, htail, hdone⟩, hstop, hclosed⟩ := h
  cases hstep with
  | add item =>
      refine ⟨?_, ⟨done, tail, ?_, ?_, ?_⟩, ?_, pairwise_concat hclosed (by simp)⟩
      · rw [added_append, ← horder]
        simp [started, added, add]
      · simpa [executions] using hruns
      · simpa [add] using htail
      · simpa [started, add] using hdone
      · simpa [add] using hstop
  | stop =>
      refine ⟨?_, ⟨done, tail, ?_, ?_, ?_⟩, ?_, pairwise_concat hclosed (by simp)⟩
      · rw [added_append, ← horder]
        simp [started, added, stop]
      · simpa [executions] using hruns
      · simpa [stop] using htail
      · simpa [started, stop] using hdone
      · simp [stop]
  | wait hthread =>
      rw [hthread] at horder htail hdone
      rw [List.append_nil]
      exact ⟨horder, ⟨done, tail, hruns, htail, hdone⟩, hstop, hclosed⟩
  | leave hthread =>
      rw [hthread] at horder htail hdone
      rw [List.append_nil]
      exact ⟨horder, ⟨done, tail, hruns, htail, hdone⟩, hstop, hclosed⟩
  | take hthread hrunning =>
      rw [hthread] at horder htail hdone
      have hlate : Event.stopped ∉ log := fun h => by
        rw [hstop, hrunning] at h
        cases h
      refine ⟨?_, ⟨done, tail, ?_, htail, ?_⟩, ?_, pairwise_concat hclosed (absurd · hlate)⟩
      · rw [added_append, ← horder]
        simp [started, added, rest]
      · simpa [executions] using hruns
      · simpa [started, current] using hdone
      · simpa using hstop
  | wake hthread =>
      rw [hthread] at horder htail hdone
      rw [List.append_nil]
      exact ⟨horder, ⟨done, tail, hruns, htail, hdone⟩, hstop, hclosed⟩
  | clear hthread =>
      rw [hthread] at horder htail hdone
      rw [List.append_nil]
      exact ⟨horder, ⟨done, tail, hruns, htail, hdone⟩, hstop, hclosed⟩
  | @next item jobs hthread =>
      rw [hthread] at horder htail hdone
      obtain rfl : tail = [] := htail
      refine ⟨?_, ⟨done, [.started item], ?_, rfl, ?_⟩, ?_, pairwise_concat hclosed (by simp)⟩
      · rw [added_append, ← horder]
        simp [started, added, rest]
      · rw [executions_append, hruns, List.append_nil]
        rfl
      · rw [started_append, hdone]
        simp [started, current]
      · simpa using hstop
  | @endFirst item jobs threw hthread =>
      rw [hthread] at horder htail hdone
      obtain rfl : tail = [.started item] := htail
      refine ⟨?_, ⟨done, _, ?_, ⟨threw, rfl⟩, ?_⟩, ?_, ?_⟩
      · rw [added_append, ← horder]
        simp [started, added, rest]
      · rw [executions_append, hruns, List.append_assoc]
        rfl
      · rw [started_append, hdone]
        simp [started, current]
      · simpa using hstop
      · rw [List.append_cons]
        exact pairwise_concat (pairwise_concat hclosed (by simp)) (by simp)
  | @endSecond item jobs threw hthread =>
      rw [hthread] at horder htail hdone
      obtain ⟨threw', rfl⟩ := htail
      refine ⟨?_, ⟨done ++ [(item, threw', threw)], [], ?_, rfl, ?_⟩, ?_,
        pairwise_concat hclosed (by simp)⟩
      · rw [added_append, ← horder]
        simp [started, added, rest]
      · rw [executions_append, hruns, List.flatMap_append, List.append_assoc, List.append_nil]
        rfl
      · rw [started_append, hdone]
        simp [started, current]
      · simpa using hstop

theorem ordered {log : List (Event Pair)} {q : JobQueue Pair}
    (h : Machine.Reach step Machine.anyOrder {} log q) : Ordered log q := by
  have hinit : Ordered ([] : List (Event Pair)) {} :=
    ⟨rfl, ⟨[], [], rfl, rfl, rfl⟩, by simp, List.Pairwise.nil⟩
  exact h.invariant Ordered hinit fun hinv _ hstep => ordered_step hinv (step_cases hstep)

/-- In every run of the queue: what was started, what is left of the batch
and what is in the queue are, in this order, what was added. The pairs are
run one after the other, each job directly followed by its completion
whether it threw or not; and no batch is taken after a stop. -/
theorem jobs_in_order {log : List (Event Pair)} {q : JobQueue Pair}
    (h : Machine.Reach step Machine.anyOrder {} log q) :
    started log ++ rest q.thread ++ q.queue_ = added log
    ∧ (∃ (done : List (Pair × Bool × Bool)) (tail : List (Event Pair)),
    executions log = done.flatMap pairRun ++ tail ∧ Partial q.thread tail
        ∧ started log = done.map Prod.fst ++ current q.thread)
    ∧ log.Pairwise fun e e' => e = .stopped → ∀ jobs, e' ≠ .took jobs := by
  have hordered := ordered h
  exact ⟨hordered.order, hordered.runs, hordered.closed⟩

/-- A job that throws and adds another one, and a stop behind it. -/
theorem jobs_in_order_sample :
    started ([.added 1, .took [1], .started 1, .added 2, .finished 1 true, .completing 1, .stopped] :
        List (Event Nat)) ++ [] ++ [2] = [1, 2] :=
  (jobs_in_order (q := ⟨[2], true, .second 1 []⟩)
    (Machine.Reach.init.run [.add 1, .check, .next, .add 2, .endFirst true, .stop] rfl)).1

end JobQueue

end Simurga
