import Simurga.JobQueue

/-!
# The job queue and its mutex

`JobQueue` takes the check of `run` and what follows from it, the wait or
the swap, for one step. Here they are steps of their own, as they stand in
the source, and `guard_` alone keeps `add` and `stop` out of them. What the
thread has seen under the lock thus still holds when it acts on it
(`Seen`): it never waits for a notification that has been given already
(`no_lost_wakeup`), and its steps are those of `JobQueue` (`refines`).
-/

namespace Simurga

/-- Where the thread in `run` stands, between two steps of the source. -/
inductive RunPoint (Pair : Type) where
  /-- Before the lock is taken. -/
  | lock
  /-- Before the condition of the inner loop. -/
  | test
  /-- The condition was true: before `signal_.wait`. -/
  | wait
  /-- In `signal_.wait`; a notification may have come. -/
  | waiting (notified : Bool)
  /-- Behind the inner loop, before `if (stop_)`. -/
  | branch
  /-- Before `jobs.swap(queue_)`. -/
  | swap
  /-- Before the lock is released, with the batch or out of the loop. -/
  | unlock (jobs : Option (List Pair))
  /-- In the loop over the batch, before the first of `jobs`. -/
  | batch (jobs : List Pair)
  /-- In `item.first()`. -/
  | first (item : Pair) (jobs : List Pair)
  /-- In `item.second()`. -/
  | second (item : Pair) (jobs : List Pair)
  | ended
deriving DecidableEq

structure GuardedQueue (Pair : Type) where
  queue_ : List Pair := []
  stop_ : Bool := false
  /-- Whether the thread in `run` has it. -/
  guard_ : Bool := false
  thread : RunPoint Pair := .lock
deriving DecidableEq

namespace GuardedQueue

variable {Pair : Type}

inductive Act (Pair : Type) where
  | add (item : Pair)
  | stop
  /-- The next step of the thread in `run`; whether a job or a completion
  throws counts only where one is being run. -/
  | run (threw : Bool)
  /-- `wait` returns, after a notification or without one. -/
  | wake

/-- `signal_.notify_all()`. -/
def notifyAll : RunPoint Pair → RunPoint Pair
  | .waiting _ => .waiting true
  | thread => thread

/-- The next step of `run`. -/
def runStep (q : GuardedQueue Pair) (threw : Bool) :
    Option (GuardedQueue Pair × List (JobQueue.Event Pair)) :=
  match q.thread with
  | .lock => if q.guard_ then none else some ({ q with guard_ := true, thread := .test }, [])
  | .test =>
      if q.stop_ = false ∧ q.queue_ = [] then some ({ q with thread := .wait }, [])
      else some ({ q with thread := .branch }, [])
  | .wait => some ({ q with guard_ := false, thread := .waiting false }, [])
  | .waiting _ => none
  | .branch =>
      if q.stop_ then some ({ q with thread := .unlock none }, [])
      else some ({ q with thread := .swap }, [])
  | .swap => some ({ q with queue_ := [], thread := .unlock (some q.queue_) }, [.took q.queue_])
  | .unlock none => some ({ q with guard_ := false, thread := .ended }, [])
  | .unlock (some jobs) => some ({ q with guard_ := false, thread := .batch jobs }, [])
  | .batch [] => some ({ q with thread := .lock }, [])
  | .batch (item :: jobs) => some ({ q with thread := .first item jobs }, [.started item])
  | .first item jobs =>
      some ({ q with thread := .second item jobs }, [.finished item threw, .completing item])
  | .second item jobs => some ({ q with thread := .batch jobs }, [.completed item threw])
  | .ended => none

/-- One step. A call of `add` or `stop` comes only while the mutex is free,
and so does the return of `wait`, which takes it. -/
def step (q : GuardedQueue Pair) : Act Pair → Option (GuardedQueue Pair × List (JobQueue.Event Pair))
  | .add item =>
      if q.guard_ then none
      else some ({ q with queue_ := q.queue_ ++ [item], thread := notifyAll q.thread }, [.added item])
  | .stop =>
      if q.guard_ then none
      else some ({ q with stop_ := true, thread := notifyAll q.thread }, [.stopped])
  | .run threw => q.runStep threw
  | .wake =>
      match q.thread with
      | .waiting _ => if q.guard_ then none else some ({ q with guard_ := true, thread := .test }, [])
      | _ => none

/-! ## What a step of the thread can do -/

/-- The steps of `run`, one constructor for each way on. -/
inductive RunStep (q : GuardedQueue Pair) (threw : Bool) :
    GuardedQueue Pair → List (JobQueue.Event Pair) → Prop where
  | lock (hthread : q.thread = .lock) : RunStep q threw { q with guard_ := true, thread := .test } []
  | empty (hthread : q.thread = .test) (hstop : q.stop_ = false) (hqueue : q.queue_ = []) :
      RunStep q threw { q with thread := .wait } []
  | ready (hthread : q.thread = .test) (h : q.stop_ = true ∨ q.queue_ ≠ []) :
      RunStep q threw { q with thread := .branch } []
  | wait (hthread : q.thread = .wait) :
      RunStep q threw { q with guard_ := false, thread := .waiting false } []
  | stopped (hthread : q.thread = .branch) (hstop : q.stop_ = true) :
      RunStep q threw { q with thread := .unlock none } []
  | running (hthread : q.thread = .branch) (hstop : q.stop_ = false) :
      RunStep q threw { q with thread := .swap } []
  | swap (hthread : q.thread = .swap) :
      RunStep q threw { q with queue_ := [], thread := .unlock (some q.queue_) } [.took q.queue_]
  | leave (hthread : q.thread = .unlock none) :
      RunStep q threw { q with guard_ := false, thread := .ended } []
  | unlock {jobs : List Pair} (hthread : q.thread = .unlock (some jobs)) :
      RunStep q threw { q with guard_ := false, thread := .batch jobs } []
  | clear (hthread : q.thread = .batch []) : RunStep q threw { q with thread := .lock } []
  | next {item : Pair} {jobs : List Pair} (hthread : q.thread = .batch (item :: jobs)) :
      RunStep q threw { q with thread := .first item jobs } [.started item]
  | endFirst {item : Pair} {jobs : List Pair} (hthread : q.thread = .first item jobs) :
      RunStep q threw { q with thread := .second item jobs }
        [.finished item threw, .completing item]
  | endSecond {item : Pair} {jobs : List Pair} (hthread : q.thread = .second item jobs) :
      RunStep q threw { q with thread := .batch jobs } [.completed item threw]

theorem runStep_cases {q q' : GuardedQueue Pair} {threw : Bool} {es : List (JobQueue.Event Pair)}
    (h : q.runStep threw = some (q', es)) : RunStep q threw q' es := by
  unfold runStep at h
  split at h
  · rename_i hthread
    split at h <;> cases h
    exact .lock hthread
  · rename_i hthread
    split at h
    · rename_i hempty
      cases h
      exact .empty hthread hempty.1 hempty.2
    · rename_i hnot
      cases h
      rw [not_and_or, Bool.not_eq_false] at hnot
      exact .ready hthread hnot
  · rename_i hthread
    cases h
    exact .wait hthread
  · cases h
  · rename_i hthread
    split at h
    · rename_i hstop
      cases h
      exact .stopped hthread hstop
    · rename_i hstop
      cases h
      exact .running hthread (by simpa using hstop)
  · rename_i hthread
    cases h
    exact .swap hthread
  · rename_i hthread
    cases h
    exact .leave hthread
  · rename_i hthread
    cases h
    exact .unlock hthread
  · rename_i hthread
    cases h
    exact .clear hthread
  · rename_i hthread
    cases h
    exact .next hthread
  · rename_i hthread
    cases h
    exact .endFirst hthread
  · rename_i hthread
    cases h
    exact .endSecond hthread
  · cases h

/-! ## What the thread has seen -/

/-- Whether the thread is inside the block of its lock. -/
def holds : RunPoint Pair → Bool
  | .test | .wait | .branch | .swap | .unlock _ => true
  | .lock | .waiting _ | .batch _ | .first _ _ | .second _ _ | .ended => false

/-- What the thread knows of the queue where it stands. -/
def Seen (q : GuardedQueue Pair) : RunPoint Pair → Prop
  | .wait | .waiting false => q.queue_ = [] ∧ q.stop_ = false
  | .branch => q.stop_ = true ∨ q.queue_ ≠ []
  | .swap => q.stop_ = false ∧ q.queue_ ≠ []
  | .unlock none => q.stop_ = true
  | .lock | .test | .waiting true | .unlock (some _) | .batch _ | .first _ _ | .second _ _ | .ended => True

structure Guarded (q : GuardedQueue Pair) : Prop where
  guard : q.guard_ = holds q.thread
  seen : Seen q q.thread

/-- Outside the lock the thread knows nothing that a call can change, once
it is notified. -/
theorem seen_notifyAll {thread : RunPoint Pair} (h : holds thread = false) (q : GuardedQueue Pair) :
    Seen q (notifyAll thread) := by
  cases thread with
  | test | wait | branch | swap | unlock => cases h
  | lock | waiting | batch | first | second | ended => trivial

@[simp] theorem holds_notifyAll (thread : RunPoint Pair) : holds (notifyAll thread) = holds thread := by
  cases thread <;> rfl

/-- What the thread does keeps what it has seen: while it has the mutex
nobody else changes the queue. -/
theorem guarded_runStep {q q' : GuardedQueue Pair} {threw : Bool} {es : List (JobQueue.Event Pair)}
    (h : Guarded q) (hstep : RunStep q threw q' es) : Guarded q' := by
  obtain ⟨hguard, hseen⟩ := h
  cases hstep with
  | lock => exact ⟨rfl, trivial⟩
  | empty hthread hstop hqueue =>
      rw [hthread] at hguard
      exact ⟨hguard, hqueue, hstop⟩
  | ready hthread hready =>
      rw [hthread] at hguard
      exact ⟨hguard, hready⟩
  | wait hthread =>
      rw [hthread] at hseen
      exact ⟨rfl, hseen⟩
  | stopped hthread hstop =>
      rw [hthread] at hguard
      exact ⟨hguard, hstop⟩
  | running hthread hstop =>
      rw [hthread] at hguard hseen
      exact ⟨hguard, hstop, hseen.resolve_left (by simp [hstop])⟩
  | leave | unlock => exact ⟨rfl, trivial⟩
  | swap hthread | clear hthread | next hthread | endFirst hthread | endSecond hthread =>
      rw [hthread] at hguard
      exact ⟨hguard, trivial⟩

/-- A call that comes while the mutex is free and notifies. -/
theorem Guarded.call {q q' : GuardedQueue Pair} (h : Guarded q) (hfree : ¬ q.guard_ = true)
    (hguard : q'.guard_ = q.guard_) (hthread : q'.thread = notifyAll q.thread) : Guarded q' := by
  have hout : holds q.thread = false := by rw [← h.guard]; simpa using hfree
  refine ⟨?_, ?_⟩
  · rw [hguard, hthread, holds_notifyAll]
    exact h.guard
  · rw [hthread]
    exact seen_notifyAll hout q'

theorem guarded_step {q q' : GuardedQueue Pair} {a : Act Pair} {es : List (JobQueue.Event Pair)}
    (h : Guarded q) (hstep : q.step a = some (q', es)) : Guarded q' := by
  cases a with
  | add item =>
      rw [step] at hstep
      split at hstep
      · cases hstep
      · rename_i hfree
        cases hstep
        exact h.call hfree rfl rfl
  | stop =>
      rw [step] at hstep
      split at hstep
      · cases hstep
      · rename_i hfree
        cases hstep
        exact h.call hfree rfl rfl
  | run threw => exact guarded_runStep h (runStep_cases hstep)
  | wake =>
      rw [step] at hstep
      split at hstep
      · split at hstep <;> cases hstep
        exact ⟨rfl, trivial⟩
      · cases hstep

theorem guarded {log : List (JobQueue.Event Pair)} {q : GuardedQueue Pair}
    (h : Machine.Reach step Machine.anyOrder {} log q) : Guarded q := by
  have hinit : Guarded ({} : GuardedQueue Pair) := ⟨rfl, trivial⟩
  exact h.invariant (fun _ q => Guarded q) hinit fun hinv _ hstep => guarded_step hinv hstep

/-- In every state that the calls and the thread get to, if the thread waits
and no notification is on its way, there is nothing to do and no stop to be
seen. -/
theorem no_lost_wakeup {log : List (JobQueue.Event Pair)} {q : GuardedQueue Pair}
    (h : Machine.Reach step Machine.anyOrder {} log q) (hwaiting : q.thread = .waiting false) :
    q.queue_ = [] ∧ q.stop_ = false := by
  have hseen := (guarded h).seen
  rwa [hwaiting] at hseen

/-- A job comes while the batch is run, and the thread waits only after it
has run that one too. -/
theorem no_lost_wakeup_sample :
    (⟨[], false, false, .waiting false⟩ : GuardedQueue Nat).queue_ = []
      ∧ (⟨[], false, false, .waiting false⟩ : GuardedQueue Nat).stop_ = false := by
  have hrun : Machine.Reach step Machine.anyOrder {}
      ([.added 1, .took [1], .started 1, .added 2, .finished 1 true, .completing 1,
        .completed 1 false, .took [2], .started 2, .finished 2 false, .completing 2,
        .completed 2 false] : List (JobQueue.Event Nat)) ⟨[], false, false, .waiting false⟩ :=
    Machine.Reach.init.run ([.add 1] ++ List.replicate 6 (.run false) ++ [.add 2, .run true]
      ++ List.replicate 14 (.run false)) rfl
  exact no_lost_wakeup hrun rfl

/-! ## The queue without the mutex -/

/-- The thread of `JobQueue` is at its check until it has the batch, waits
or is out of the loop. -/
def runThread : RunPoint Pair → RunThread Pair
  | .lock | .test | .wait | .branch | .swap | .unlock none => .check
  | .waiting notified => .waiting notified
  | .unlock (some jobs) | .batch jobs => .batch jobs
  | .first item jobs => .first item jobs
  | .second item jobs => .second item jobs
  | .ended => .ended

def jobQueue (q : GuardedQueue Pair) : JobQueue Pair := ⟨q.queue_, q.stop_, runThread q.thread⟩

theorem jobQueue_thread {q : GuardedQueue Pair} {thread : RunPoint Pair} (h : q.thread = thread) :
    (jobQueue q).thread = runThread thread :=
  congrArg runThread h

theorem runThread_notifyAll {thread : RunPoint Pair} :
    runThread (notifyAll thread) = JobQueue.notifyAll (runThread thread) := by
  cases thread with
  | unlock jobs => cases jobs <;> rfl
  | lock | test | wait | waiting | branch | swap | batch | first | second | ended => rfl

/-- A step of the thread is one of `JobQueue` or, while it holds the mutex
or is on its way to it, none. -/
theorem runStep_refines {q q' : GuardedQueue Pair} {threw : Bool} {es : List (JobQueue.Event Pair)}
    (h : Guarded q) (hstep : RunStep q threw q' es) :
    (jobQueue q' = jobQueue q ∧ es = [])
      ∨ ∃ b, Machine.anyOrder ([] : List (JobQueue.Event Pair)) (jobQueue q) b
        ∧ (jobQueue q).step b = some (jobQueue q', es) := by
  have hseen := h.seen
  cases hstep with
  | lock hthread | empty hthread | ready hthread | stopped hthread | running hthread
  | unlock hthread => exact .inl ⟨by simp only [jobQueue, runThread, hthread], rfl⟩
  | wait hthread =>
      rw [hthread] at hseen
      exact .inr ⟨.check, trivial,
        (JobQueue.Step.wait (jobQueue_thread hthread) hseen.2 hseen.1).eq_some⟩
  | swap hthread =>
      rw [hthread] at hseen
      exact .inr ⟨.check, trivial,
        (JobQueue.Step.take (jobQueue_thread hthread) hseen.1 hseen.2).eq_some⟩
  | leave hthread =>
      rw [hthread] at hseen
      have hstop : (jobQueue q).stop_ = true := hseen
      exact .inr ⟨.check, trivial, (JobQueue.Step.leave (jobQueue_thread hthread) hstop).eq_some⟩
  | clear hthread =>
      exact .inr ⟨.next, trivial, (JobQueue.Step.clear (jobQueue_thread hthread)).eq_some⟩
  | next hthread =>
      exact .inr ⟨.next, trivial, (JobQueue.Step.next (jobQueue_thread hthread)).eq_some⟩
  | endFirst hthread =>
      exact .inr ⟨.endFirst threw, trivial,
        (JobQueue.Step.endFirst threw (jobQueue_thread hthread)).eq_some⟩
  | endSecond hthread =>
      exact .inr ⟨.endSecond threw, trivial,
        (JobQueue.Step.endSecond threw (jobQueue_thread hthread)).eq_some⟩

theorem step_refines {q q' : GuardedQueue Pair} {a : Act Pair} {es : List (JobQueue.Event Pair)}
    (h : Guarded q) (hstep : q.step a = some (q', es)) :
    (jobQueue q' = jobQueue q ∧ es = [])
      ∨ ∃ b, Machine.anyOrder ([] : List (JobQueue.Event Pair)) (jobQueue q) b
        ∧ (jobQueue q).step b = some (jobQueue q', es) := by
  cases a with
  | add item =>
      rw [step] at hstep
      split at hstep <;> cases hstep
      refine .inr ⟨.add item, trivial, ?_⟩
      simp [jobQueue, JobQueue.step, JobQueue.add, runThread_notifyAll]
  | stop =>
      rw [step] at hstep
      split at hstep <;> cases hstep
      refine .inr ⟨.stop, trivial, ?_⟩
      simp [jobQueue, JobQueue.step, JobQueue.stop, runThread_notifyAll]
  | run threw => exact runStep_refines h (runStep_cases hstep)
  | wake =>
      rw [step] at hstep
      split at hstep
      · rename_i hthread
        split at hstep <;> cases hstep
        exact .inr ⟨.wake, trivial, (JobQueue.Step.wake (jobQueue_thread hthread)).eq_some⟩
      · cases hstep

/-- The queue with its mutex runs as `JobQueue` does, with the same events. -/
theorem refines {log : List (JobQueue.Event Pair)} {q : GuardedQueue Pair}
    (h : Machine.Reach step Machine.anyOrder {} log q) :
    Machine.Reach JobQueue.step Machine.anyOrder {} log (jobQueue q) :=
  h.refines jobQueue (fun _ q => Guarded q) guarded fun hinv _ hstep => step_refines hinv hstep

end GuardedQueue

end Simurga
