import Simurga.Lib.Machine

/-!
# The sleep of the manager

`Manager::handler` between two steps of the source, with the mutexes of the
task queue and of `asleep`, and the socket pair that ends a `poll` without a
timeout. Messages are pushed from any number of threads, and `stop` and
`terminate` are called from outside, as `manager.hpp` has it. What a task
does is left open.

No task is slept over: while the thread sleeps and nothing wakes it, each
task in the queue has a `push` that has still to look at `asleep`
(`no_lost_task`). A stop is slept over when it comes between the look at
`stopBool` and the sleep, and only then (`stop_missed_iff`); a termination
in the same way behind the look at `terminateBool` (`terminate_missed_iff`).

The first two mutexes of the source are the thread's own where it stands in
their blocks (`hasTasks`, `hasSleep`); what other threads do under them is
one step.
-/

namespace Simurga

/-- Where the thread in `Manager::handler` stands. `sleep` is what
`transceiver.handler()` has returned. -/
inductive HandlerPoint (Task : Type) where
  /-- Before the look at `stopBool`. -/
  | checkStop
  /-- Before `transceiver.handler()`. -/
  | transceive
  /-- In the `push` of a message that has come in, before `sleepMutex`. -/
  | pushed
  | checkTerminate (sleep : Bool)
  /-- Before the lock of `tasks`. -/
  | lockTasks (sleep : Bool)
  /-- Before the lock of `sleepMutex`. -/
  | lockSleep (sleep : Bool)
  /-- Before `if(tasks.empty())`. -/
  | test (sleep : Bool)
  /-- Before `asleep=true`. -/
  | fallAsleep (sleep : Bool)
  /-- Before or in `transceiver.sleep()`. -/
  | sleeping (sleep : Bool)
  /-- Before `asleep=false`. -/
  | awake
  /-- Before `tasks.front()`. -/
  | take
  | handle (id : Task)
  | ended
deriving DecidableEq

structure Sleeper (Task : Type) where
  tasks : List Task := []
  /-- The size of `requests`. -/
  requests : Nat := 0
  asleep : Bool := false
  stopBool : Bool := false
  terminateBool : Bool := false
  /-- The bytes in the socket of `wake`. -/
  wakeUp : Nat := 0
  /-- The threads in `push` between `tasks.push` and `sleepMutex`. -/
  pushing : Nat := 0
  /-- Whether a thread in `stop` has `stopMutex`. -/
  stopping : Bool := false
  /-- Whether a thread in `terminate` has `terminateMutex`. -/
  terminating : Bool := false
  thread : HandlerPoint Task := .checkStop
deriving DecidableEq

namespace Sleeper

variable {Task : Type}

/-- What `transceiver.handler()` finds. -/
inductive Polled (Task : Type) where
  /-- No descriptor is ready. -/
  | nothing (sleep : Bool)
  /-- A descriptor that brings no message, or one that `push` drops. -/
  | other (sleep : Bool)
  /-- The wake up socket. -/
  | woken
  /-- A message for the manager or for a request there is. -/
  | message (id : Task)
  /-- A message that makes a request. -/
  | begins

inductive Act (Task : Type) where
  /-- The next step of the thread in `handler`, up to the calls it makes. -/
  | next
  | transceive (p : Polled Task)
  /-- The return of `poll`; `ready` is a descriptor or a signal. -/
  | slept (ready : Bool)
  /-- The end of a task; a request may be complete. -/
  | handled (complete : Bool)
  /-- `tasks.push` in another thread. -/
  | push (id : Task)
  /-- The rest of that `push`. -/
  | look
  /-- A `push` in another thread for a request that is gone. -/
  | pushGone
  | stopBegin
  | stopEnd
  | terminateBegin
  | terminateEnd

inductive Event (Task : Type) where
  | pushed (id : Task)
  | took (id : Task)
deriving DecidableEq

/-- Whether the thread has the mutex of `tasks`. -/
def hasTasks : HandlerPoint Task → Bool
  | .lockSleep _ | .test _ | .take => true
  | _ => false

/-- Whether the thread has `sleepMutex`. -/
def hasSleep : HandlerPoint Task → Bool
  | .test _ | .fallAsleep _ => true
  | _ => false

/-- `if(asleep) transceiver.wake()`. -/
def wake (s : Sleeper Task) : Sleeper Task :=
  { s with wakeUp := if s.asleep then s.wakeUp + 1 else s.wakeUp }

/-- The next step of the thread where it calls nothing. -/
def next (s : Sleeper Task) : Option (Sleeper Task × List (Event Task)) :=
  match s.thread with
  | .checkStop =>
      if s.stopping then none
      else if s.stopBool then some ({ s with stopBool := false, thread := .ended }, [])
      else some ({ s with thread := .transceive }, [])
  | .pushed => some ({ s.wake with thread := .checkTerminate false }, [])
  | .checkTerminate sleep =>
      if s.terminating then none
      else if s.terminateBool ∧ s.requests = 0 ∧ sleep then
        some ({ s with terminateBool := false, thread := .ended }, [])
      else some ({ s with thread := .lockTasks sleep }, [])
  | .lockTasks sleep => some ({ s with thread := .lockSleep sleep }, [])
  | .lockSleep sleep => some ({ s with thread := .test sleep }, [])
  | .test sleep =>
      if s.tasks = [] then some ({ s with thread := .fallAsleep sleep }, [])
      else some ({ s with thread := .take }, [])
  | .fallAsleep sleep => some ({ s with asleep := true, thread := .sleeping sleep }, [])
  | .awake => some ({ s with asleep := false, thread := .checkStop }, [])
  | .take =>
      match s.tasks with
      | [] => none
      | id :: tasks => some ({ s with tasks, thread := .handle id }, [.took id])
  | .transceive | .sleeping _ | .handle _ | .ended => none

/-- `transceiver.handler()`; `poll` says that nothing is ready only if there
is no byte to wake up for. -/
def transceive (s : Sleeper Task) : Polled Task → Option (Sleeper Task × List (Event Task))
  | .nothing sleep =>
      if s.wakeUp = 0 then some ({ s with thread := .checkTerminate sleep }, []) else none
  | .other sleep => some ({ s with thread := .checkTerminate sleep }, [])
  | .woken =>
      if s.wakeUp = 0 then none
      else some ({ s with wakeUp := s.wakeUp - 1, thread := .checkTerminate false }, [])
  | .message id => some ({ s with tasks := s.tasks ++ [id], thread := .pushed }, [.pushed id])
  | .begins => some ({ s with requests := s.requests + 1, thread := .pushed }, [])

def step (s : Sleeper Task) : Act Task → Option (Sleeper Task × List (Event Task))
  | .next => s.next
  | .transceive p =>
      match s.thread with
      | .transceive => s.transceive p
      | _ => none
  | .slept ready =>
      match s.thread with
      | .sleeping sleep =>
          if sleep = false ∨ s.wakeUp ≠ 0 ∨ ready then some ({ s with thread := .awake }, [])
          else none
      | _ => none
  | .handled complete =>
      match s.thread with
      | .handle _ =>
          if complete = false then some ({ s with thread := .checkStop }, [])
          else if s.requests = 0 then none
          else some ({ s with requests := s.requests - 1, thread := .checkStop }, [])
      | _ => none
  | .push id =>
      if hasTasks s.thread then none
      else some ({ s with tasks := s.tasks ++ [id], pushing := s.pushing + 1 }, [.pushed id])
  | .look =>
      if hasSleep s.thread ∨ s.pushing = 0 then none
      else some ({ s.wake with pushing := s.pushing - 1 }, [])
  | .pushGone => if hasSleep s.thread then none else some (s.wake, [])
  | .stopBegin => if s.stopping then none else some ({ s with stopping := true }, [])
  | .stopEnd =>
      if s.stopping = false ∨ hasSleep s.thread then none
      else some ({ s.wake with stopBool := true, asleep := false, stopping := false }, [])
  | .terminateBegin => if s.terminating then none else some ({ s with terminating := true }, [])
  | .terminateEnd =>
      if s.terminating = false ∨ hasSleep s.thread then none
      else some ({ s.wake with terminateBool := true, asleep := false, terminating := false }, [])

/-! ## What a step can do -/

/-- The steps, one constructor for each way on. -/
inductive Step (s : Sleeper Task) : Act Task → Sleeper Task → List (Event Task) → Prop where
  | stop (hthread : s.thread = .checkStop) (hstop : s.stopBool = true) :
      Step s .next { s with stopBool := false, thread := .ended } []
  | goOn (hthread : s.thread = .checkStop) (hstop : s.stopBool = false) :
      Step s .next { s with thread := .transceive } []
  | pushed (hthread : s.thread = .pushed) :
      Step s .next { s.wake with thread := .checkTerminate false } []
  | terminate (hthread : s.thread = .checkTerminate true) :
      Step s .next { s with terminateBool := false, thread := .ended } []
  | lockTasks {sleep : Bool} (hthread : s.thread = .checkTerminate sleep)
      (hfree : s.terminating = false) (hnot : ¬ (s.terminateBool ∧ s.requests = 0 ∧ sleep)) :
      Step s .next { s with thread := .lockTasks sleep } []
  | lockSleep {sleep : Bool} (hthread : s.thread = .lockTasks sleep) :
      Step s .next { s with thread := .lockSleep sleep } []
  | test {sleep : Bool} (hthread : s.thread = .lockSleep sleep) :
      Step s .next { s with thread := .test sleep } []
  | empty {sleep : Bool} (hthread : s.thread = .test sleep) (htasks : s.tasks = []) :
      Step s .next { s with thread := .fallAsleep sleep } []
  | ready {sleep : Bool} (hthread : s.thread = .test sleep) (htasks : s.tasks ≠ []) :
      Step s .next { s with thread := .take } []
  | fallAsleep {sleep : Bool} (hthread : s.thread = .fallAsleep sleep) :
      Step s .next { s with asleep := true, thread := .sleeping sleep } []
  | awake (hthread : s.thread = .awake) :
      Step s .next { s with asleep := false, thread := .checkStop } []
  | take {id : Task} {tasks : List Task} (hthread : s.thread = .take) (htasks : s.tasks = id :: tasks) :
      Step s .next { s with tasks, thread := .handle id } [.took id]
  | nothing (sleep : Bool) (hthread : s.thread = .transceive) (hwakeUp : s.wakeUp = 0) :
      Step s (.transceive (.nothing sleep)) { s with thread := .checkTerminate sleep } []
  | other (sleep : Bool) (hthread : s.thread = .transceive) :
      Step s (.transceive (.other sleep)) { s with thread := .checkTerminate sleep } []
  | woken (hthread : s.thread = .transceive) (hwakeUp : s.wakeUp ≠ 0) :
      Step s (.transceive .woken)
        { s with wakeUp := s.wakeUp - 1, thread := .checkTerminate false } []
  | message (id : Task) (hthread : s.thread = .transceive) :
      Step s (.transceive (.message id)) { s with tasks := s.tasks ++ [id], thread := .pushed }
        [.pushed id]
  | begins (hthread : s.thread = .transceive) :
      Step s (.transceive .begins) { s with requests := s.requests + 1, thread := .pushed } []
  | slept {sleep : Bool} (ready : Bool) (hthread : s.thread = .sleeping sleep) :
      Step s (.slept ready) { s with thread := .awake } []
  | handled {id : Task} (hthread : s.thread = .handle id) :
      Step s (.handled false) { s with thread := .checkStop } []
  | complete {id : Task} (hthread : s.thread = .handle id) :
      Step s (.handled true) { s with requests := s.requests - 1, thread := .checkStop } []
  | push (id : Task) (hfree : hasTasks s.thread = false) :
      Step s (.push id) { s with tasks := s.tasks ++ [id], pushing := s.pushing + 1 } [.pushed id]
  | look (hfree : hasSleep s.thread = false) :
      Step s .look { s.wake with pushing := s.pushing - 1 } []
  | pushGone (hfree : hasSleep s.thread = false) : Step s .pushGone s.wake []
  | stopBegin : Step s .stopBegin { s with stopping := true } []
  | stopEnd (hfree : hasSleep s.thread = false) :
      Step s .stopEnd { s.wake with stopBool := true, asleep := false, stopping := false } []
  | terminateBegin : Step s .terminateBegin { s with terminating := true } []
  | terminateEnd (hfree : hasSleep s.thread = false) :
      Step s .terminateEnd
        { s.wake with terminateBool := true, asleep := false, terminating := false } []

theorem next_cases {s s' : Sleeper Task} {es : List (Event Task)} (h : s.next = some (s', es)) :
    Step s .next s' es := by
  unfold next at h
  split at h
  · rename_i hthread
    split at h
    · cases h
    · split at h
      · rename_i hstop
        cases h
        exact .stop hthread hstop
      · rename_i hstop
        cases h
        exact .goOn hthread (Bool.eq_false_iff.mpr hstop)
  · rename_i hthread
    cases h
    exact .pushed hthread
  · rename_i sleep hthread
    split at h
    · cases h
    · rename_i hfree
      split at h
      · rename_i hends
        obtain ⟨-, -, rfl⟩ := hends
        cases h
        exact .terminate hthread
      · rename_i hnot
        cases h
        exact .lockTasks hthread (Bool.eq_false_iff.mpr hfree) hnot
  · rename_i hthread
    cases h
    exact .lockSleep hthread
  · rename_i hthread
    cases h
    exact .test hthread
  · rename_i hthread
    split at h
    · rename_i htasks
      cases h
      exact .empty hthread htasks
    · rename_i htasks
      cases h
      exact .ready hthread htasks
  · rename_i hthread
    cases h
    exact .fallAsleep hthread
  · rename_i hthread
    cases h
    exact .awake hthread
  · rename_i hthread
    split at h
    · cases h
    · rename_i htasks
      cases h
      exact .take hthread htasks
  all_goals cases h

theorem transceive_cases {s s' : Sleeper Task} {p : Polled Task} {es : List (Event Task)}
    (hthread : s.thread = .transceive) (h : s.transceive p = some (s', es)) :
    Step s (.transceive p) s' es := by
  cases p with
  | nothing sleep =>
      simp only [transceive] at h
      split at h
      · rename_i hwakeUp
        cases h
        exact .nothing sleep hthread hwakeUp
      · cases h
  | other sleep =>
      cases h
      exact .other sleep hthread
  | woken =>
      simp only [transceive] at h
      split at h
      · cases h
      · rename_i hwakeUp
        cases h
        exact .woken hthread hwakeUp
  | message id =>
      cases h
      exact .message id hthread
  | begins =>
      cases h
      exact .begins hthread

theorem step_cases {s s' : Sleeper Task} {a : Act Task} {es : List (Event Task)}
    (h : s.step a = some (s', es)) : Step s a s' es := by
  cases a with
  | next => exact next_cases h
  | transceive p =>
      simp only [step] at h
      split at h
      · rename_i hthread
        exact transceive_cases hthread h
      · cases h
  | slept ready =>
      simp only [step] at h
      split at h
      · rename_i hthread
        split at h <;> cases h
        exact .slept ready hthread
      · cases h
  | handled complete =>
      simp only [step] at h
      split at h
      · rename_i hthread
        split at h
        · rename_i hcomplete
          cases h
          cases hcomplete
          exact .handled hthread
        · rename_i hcomplete
          split at h <;> cases h
          cases eq_true_of_ne_false hcomplete
          exact .complete hthread
      · cases h
  | push id =>
      simp only [step] at h
      split at h
      · cases h
      · rename_i hfree
        cases h
        exact .push id (Bool.eq_false_iff.mpr hfree)
  | look =>
      simp only [step] at h
      split at h
      · cases h
      · rename_i hfree
        cases h
        exact .look (Bool.eq_false_iff.mpr fun h => hfree (.inl h))
  | pushGone =>
      simp only [step] at h
      split at h
      · cases h
      · rename_i hfree
        cases h
        exact .pushGone (Bool.eq_false_iff.mpr hfree)
  | stopBegin =>
      simp only [step] at h
      split at h <;> cases h
      exact .stopBegin
  | stopEnd =>
      simp only [step] at h
      split at h
      · cases h
      · rename_i hfree
        cases h
        exact .stopEnd (Bool.eq_false_iff.mpr fun h => hfree (.inr h))
  | terminateBegin =>
      simp only [step] at h
      split at h <;> cases h
      exact .terminateBegin
  | terminateEnd =>
      simp only [step] at h
      split at h
      · cases h
      · rename_i hfree
        cases h
        exact .terminateEnd (Bool.eq_false_iff.mpr fun h => hfree (.inr h))

/-! ## Tasks -/

variable {s s' s₀ : Sleeper Task} {a : Act Task} {log es : List (Event Task)}

@[simp] theorem wake_thread (s : Sleeper Task) : s.wake.thread = s.thread := rfl

@[simp] theorem wake_tasks (s : Sleeper Task) : s.wake.tasks = s.tasks := rfl

@[simp] theorem wake_requests (s : Sleeper Task) : s.wake.requests = s.requests := rfl

@[simp] theorem wake_pushing (s : Sleeper Task) : s.wake.pushing = s.pushing := rfl

@[simp] theorem wake_asleep (s : Sleeper Task) : s.wake.asleep = s.asleep := rfl

@[simp] theorem wake_stopBool (s : Sleeper Task) : s.wake.stopBool = s.stopBool := rfl

@[simp] theorem wake_terminateBool (s : Sleeper Task) : s.wake.terminateBool = s.terminateBool := rfl

@[simp] theorem wake_stopping (s : Sleeper Task) : s.wake.stopping = s.stopping := rfl

@[simp] theorem wake_terminating (s : Sleeper Task) : s.wake.terminating = s.terminating := rfl

/-- No byte was there, and none has come. -/
theorem wake_wakeUp_eq_zero : s.wake.wakeUp = 0 ↔ s.wakeUp = 0 ∧ s.asleep = false := by
  unfold wake
  cases s.asleep <;> simp

/-- What holds where the thread stands. On its way to sleep it has seen the
queue empty, and each task that has come since is one of a thread that has
still to look. -/
def Knows (s : Sleeper Task) : HandlerPoint Task → Prop
  | .fallAsleep _ => s.asleep = false ∧ s.tasks.length ≤ s.pushing
  | .sleeping _ => s.wakeUp = 0 → s.asleep = true ∧ s.tasks.length ≤ s.pushing
  | .awake => True
  | _ => s.asleep = false

/-- Whoever looks at `asleep` wakes a thread that sleeps. -/
theorem Knows.call (h : s.Knows s.thread) (hfree : hasSleep s.thread = false)
    (hthread : s'.thread = s.thread) (hwakeUp : s'.wakeUp = s.wake.wakeUp)
    (hasleep : s'.asleep = true → s.asleep = true) : s'.Knows s'.thread := by
  have hnot : s.asleep = false → s'.asleep = false := fun h =>
    Bool.eq_false_iff.mpr fun h' => by simp [hasleep h'] at h
  rw [hthread]
  cases hat : s.thread with
  | fallAsleep sleep =>
      rw [hat] at hfree
      cases hfree
  | sleeping sleep =>
      rw [hat] at h
      intro hnone
      obtain ⟨hnone, hawake⟩ := wake_wakeUp_eq_zero.mp (hwakeUp ▸ hnone)
      rw [(h hnone).1] at hawake
      cases hawake
  | awake => trivial
  | checkStop | transceive | pushed | checkTerminate | lockTasks | lockSleep | test | take | handle
  | ended =>
      rw [hat] at h
      exact hnot h

theorem knows_step (h : s.Knows s.thread) (hstep : Step s a s' es) : s'.Knows s'.thread := by
  cases hstep with
  | stop hthread | goOn hthread | terminate hthread | lockTasks hthread | lockSleep hthread
  | test hthread | ready hthread | take hthread | nothing _ hthread | other _ hthread
  | woken hthread | message _ hthread | begins hthread | handled hthread | complete hthread =>
      rw [hthread] at h
      exact h
  | pushed hthread =>
      rw [hthread] at h
      exact h
  | empty hthread htasks =>
      rw [hthread] at h
      exact ⟨h, by simp [htasks]⟩
  | fallAsleep hthread =>
      rw [hthread] at h
      exact fun _ => ⟨rfl, h.2⟩
  | awake hthread => rfl
  | slept ready hthread => trivial
  | push id hfree =>
      cases hthread : s.thread with
      | fallAsleep sleep =>
          rw [hthread] at h
          exact ⟨h.1, by simpa using h.2⟩
      | sleeping sleep =>
          rw [hthread] at h
          exact fun hnone => ⟨(h hnone).1, by simpa using (h hnone).2⟩
      | awake => trivial
      | checkStop | transceive | pushed | checkTerminate | lockTasks | lockSleep | test | take
      | handle | ended =>
          rw [hthread] at h
          exact h
  | look hfree => exact h.call hfree rfl rfl id
  | pushGone hfree => exact h.call hfree rfl rfl id
  | stopBegin => exact h
  | stopEnd hfree => exact h.call hfree rfl rfl nofun
  | terminateBegin => exact h
  | terminateEnd hfree => exact h.call hfree rfl rfl nofun

theorem knows (h : Machine.Reach step Machine.anyOrder {} log s) : s.Knows s.thread := by
  have hinit : ({} : Sleeper Task).Knows .checkStop := rfl
  exact h.invariant (fun _ s => s.Knows s.thread) hinit fun hknows _ hstep =>
    knows_step hknows (step_cases hstep)

/-- The tasks pushed. -/
def pushes (log : List (Event Task)) : List Task :=
  log.filterMap fun
    | .pushed id => some id
    | .took _ => none

/-- The tasks taken. -/
def takes (log : List (Event Task)) : List Task :=
  log.filterMap fun
    | .took id => some id
    | .pushed _ => none

theorem pushes_append (log es : List (Event Task)) : pushes (log ++ es) = pushes log ++ pushes es :=
  List.filterMap_append

theorem takes_append (log es : List (Event Task)) : takes (log ++ es) = takes log ++ takes es :=
  List.filterMap_append

/-- A step takes tasks from the front of the queue and pushes to its end. -/
theorem tasks_step (hstep : Step s a s' es) : s.tasks ++ pushes es = takes es ++ s'.tasks := by
  cases hstep with
  | take hthread htasks => exact (List.append_nil _).trans htasks
  | message id hthread => rfl
  | push id hfree => rfl
  | _ => exact List.append_nil _

/-- Tasks are taken in the order in which they are pushed, and each one
once. While the thread sleeps and no byte wakes it, the tasks in the queue
have each a thread that has still to look at `asleep`. -/
theorem no_lost_task (h : Machine.Reach step Machine.anyOrder {} log s) :
    pushes log = takes log ++ s.tasks
      ∧ (s.thread = .sleeping true → s.wakeUp = 0 →
        s.asleep = true ∧ s.tasks.length ≤ s.pushing) := by
  refine ⟨?_, fun hthread hwakeUp => ?_⟩
  · refine h.invariant (fun log s => pushes log = takes log ++ s.tasks) rfl
      fun htasks _ hstep => ?_
    rw [pushes_append, htasks, List.append_assoc, tasks_step (step_cases hstep), takes_append,
      List.append_assoc]
  · have hknows := knows h
    rw [hthread] at hknows
    exact hknows hwakeUp

/-- A task that comes while the thread sleeps, and has woken nobody yet. -/
def dozing : Sleeper Nat :=
  { tasks := [1], asleep := true, pushing := 1, thread := .sleeping true }

theorem no_lost_task_dozing :
    pushes ([.pushed 1] : List (Event Nat)) = takes [.pushed 1] ++ dozing.tasks
      ∧ (dozing.thread = .sleeping true → dozing.wakeUp = 0 →
        dozing.asleep = true ∧ dozing.tasks.length ≤ dozing.pushing) :=
  no_lost_task (Machine.Reach.init.run
    [.next, .transceive (.nothing true), .next, .next, .next, .next, .next, .push 1] rfl)

/-! ## Stops and terminations -/

/-- The next look at `terminateBool` ends the thread, if it may sleep. -/
def Terminates (s : Sleeper Task) : Prop :=
  (s.terminateBool = true ∨ s.terminating = true) ∧ s.requests = 0

/-- The thread is on its way to sleep, behind its look at `terminateBool`,
and nothing is there to wake it. -/
def Drowsy (s : Sleeper Task) : HandlerPoint Task → Prop
  | .lockTasks true | .lockSleep true | .test true => s.wakeUp = 0 ∧ s.tasks = []
  | .fallAsleep true | .sleeping true => s.wakeUp = 0
  | _ => False

/-- The same, behind its look at `stopBool`. -/
def StopMissed (s : Sleeper Task) : Prop :=
  s.Drowsy s.thread
    ∨ (s.thread = .transceive ∨ s.thread = .checkTerminate true)
      ∧ s.wakeUp = 0 ∧ s.tasks = [] ∧ ¬ s.Terminates

/-- What others do keeps neither the bytes nor the tasks away. -/
theorem Drowsy.of_call {p : HandlerPoint Task} (h : s'.Drowsy p)
    (hwakeUp : s'.wakeUp = 0 → s.wakeUp = 0) (htasks : s'.tasks = [] → s.tasks = []) :
    s.Drowsy p := by
  cases p with
  | lockTasks sleep | lockSleep sleep | test sleep =>
      cases sleep with
      | false => exact h
      | true => exact ⟨hwakeUp h.1, htasks h.2⟩
  | fallAsleep sleep | sleeping sleep =>
      cases sleep with
      | false => exact h
      | true => exact hwakeUp h
  | checkStop | transceive | pushed | checkTerminate | awake | take | handle | ended => exact h

theorem wakeUp_of_wake (h : s.wake.wakeUp = 0) : s.wakeUp = 0 := (wake_wakeUp_eq_zero.mp h).1

/-- The way to sleep begins with a look at `terminateBool`. -/
theorem Drowsy.of_step (h : s'.Drowsy s'.thread) (hstep : Step s a s' es) :
    s'.requests = s.requests
      ∧ (s.Drowsy s.thread
        ∨ s.thread = .checkTerminate true ∧ s.wakeUp = 0 ∧ s.tasks = [] ∧ ¬ s.Terminates) := by
  cases hstep with
  | @lockTasks sleep hthread hfree hnot =>
      cases sleep with
      | false => cases h
      | true =>
          refine ⟨rfl, .inr ⟨hthread, h.1, h.2, fun ⟨hbool, hrequests⟩ => hnot ⟨?_, hrequests, rfl⟩⟩⟩
          exact hbool.resolve_right (by simp [hfree])
  | @lockSleep sleep hthread | @test sleep hthread | @fallAsleep sleep hthread =>
      rw [hthread]
      cases sleep with
      | false => cases h
      | true => exact ⟨rfl, .inl h⟩
  | @empty sleep hthread htasks =>
      rw [hthread]
      cases sleep with
      | false => cases h
      | true => exact ⟨rfl, .inl ⟨h, htasks⟩⟩
  | push id hfree => exact ⟨rfl, .inl (h.of_call (fun h => h) fun h => absurd h (by simp))⟩
  | look hfree | pushGone hfree | stopEnd hfree | terminateEnd hfree =>
      exact ⟨rfl, .inl (h.of_call wakeUp_of_wake fun h => h)⟩
  | stopBegin | terminateBegin => exact ⟨rfl, .inl (h.of_call (fun h => h) fun h => h)⟩
  | goOn hthread | nothing sleep hthread | other sleep hthread | stop hthread | terminate hthread
  | pushed hthread | ready hthread | awake hthread | take hthread | woken hthread
  | message id hthread | begins hthread | slept ready hthread | handled hthread
  | complete hthread => cases h

theorem StopMissed.of_call (h : s'.StopMissed) (hthread : s'.thread = s.thread)
    (hwakeUp : s'.wakeUp = 0 → s.wakeUp = 0) (htasks : s'.tasks = [] → s.tasks = [])
    (hterminates : s.Terminates → s'.Terminates) : s.StopMissed := by
  unfold StopMissed at h
  rw [hthread] at h
  rcases h with h | ⟨hat, hnone, hempty, hnot⟩
  · exact .inl (h.of_call hwakeUp htasks)
  · exact .inr ⟨hat, hwakeUp hnone, htasks hempty, fun ht => hnot (hterminates ht)⟩

/-- A stop that is set is missed only if it has been missed. -/
theorem StopMissed.of_step (h : s'.StopMissed) (hstep : Step s a s' es)
    (hstop : s.stopBool = true) : s.StopMissed := by
  have hbefore : ∀ h : s'.Drowsy s'.thread, s.StopMissed := fun h =>
    (h.of_step hstep).2.imp id fun h => ⟨.inr h.1, h.2⟩
  cases hstep with
  | goOn hthread hrunning =>
      rw [hstop] at hrunning
      cases hrunning
  | nothing sleep hthread hwakeUp | other sleep hthread =>
      rcases h with h | ⟨-, hnone, hempty, hnot⟩
      · exact hbefore h
      · exact .inr ⟨.inl hthread, hnone, hempty, hnot⟩
  | push id hfree => exact h.of_call rfl (fun h => h) (fun h => absurd h (by simp)) fun h => h
  | look hfree | pushGone hfree | stopEnd hfree =>
      exact h.of_call rfl wakeUp_of_wake (fun h => h) fun h => h
  | stopBegin => exact h.of_call rfl (fun h => h) (fun h => h) fun h => h
  | terminateBegin => exact h.of_call rfl (fun h => h) (fun h => h) fun ht => ⟨.inr rfl, ht.2⟩
  | terminateEnd hfree =>
      exact h.of_call rfl wakeUp_of_wake (fun h => h) fun ht => ⟨.inl rfl, ht.2⟩
  | lockTasks hthread | lockSleep hthread | test hthread | empty hthread | fallAsleep hthread
  | stop hthread | terminate hthread | pushed hthread | ready hthread | awake hthread
  | take hthread | woken hthread | message id hthread | begins hthread | slept ready hthread
  | handled hthread | complete hthread =>
      rcases h with h | ⟨hat | hat, -⟩
      · exact hbefore h
      · cases hat
      · cases hat

/-- Behind the end there is only what others do. -/
theorem ended_step (h : s.thread = .ended) (hstep : Step s a s' es) : s'.thread = .ended := by
  cases hstep with
  | push id hfree | look hfree | pushGone hfree | stopBegin | stopEnd hfree | terminateBegin
  | terminateEnd hfree => exact h
  | _ => simp_all

theorem Drowsy.not_ended (h : s.Drowsy s.thread) : s.thread ≠ .ended := by
  intro hthread
  rw [hthread] at h
  cases h

theorem Drowsy.wakeUp {p : HandlerPoint Task} (h : s.Drowsy p) : s.wakeUp = 0 := by
  cases p with
  | lockTasks sleep | lockSleep sleep | test sleep =>
      cases sleep with
      | false => cases h
      | true => exact h.1
  | fallAsleep sleep | sleeping sleep =>
      cases sleep with
      | false => cases h
      | true => exact h
  | checkStop | transceive | pushed | checkTerminate | awake | take | handle | ended => cases h

theorem StopMissed.not_ended (h : s.StopMissed) : s.thread ≠ .ended := by
  rcases h with h | ⟨hat | hat, -⟩
  · exact h.not_ended
  · simp [hat]
  · simp [hat]

theorem StopMissed.wakeUp (h : s.StopMissed) : s.wakeUp = 0 := by
  rcases h with h | ⟨-, hwakeUp, -⟩
  · exact h.wakeUp
  · exact hwakeUp

/-- A flag that is set stays so until the thread ends. -/
theorem stopBool_step (h : s.stopBool = true ∨ s.thread = .ended) (hstep : Step s a s' es) :
    s'.stopBool = true ∨ s'.thread = .ended := by
  rcases h with h | h
  · cases hstep with
    | stop hthread => exact .inr rfl
    | stopEnd hfree => exact .inl rfl
    | _ => exact .inl h
  · exact .inr (ended_step h hstep)

theorem terminateBool_step (h : s.terminateBool = true ∨ s.thread = .ended)
    (hstep : Step s a s' es) : s'.terminateBool = true ∨ s'.thread = .ended := by
  rcases h with h | h
  · cases hstep with
    | terminate hthread => exact .inr rfl
    | terminateEnd hfree => exact .inl rfl
    | _ => exact .inl h
  · exact .inr (ended_step h hstep)

/-- A stop that has been heard is heard until the end. -/
theorem not_stopMissed (h : Machine.Reach step Machine.anyOrder s₀ log s)
    (hstop : s₀.stopBool = true) (hheard : ¬ s₀.StopMissed) : ¬ s.StopMissed := by
  refine (h.invariant (fun _ s => ¬ s.StopMissed ∧ (s.stopBool = true ∨ s.thread = .ended))
    ⟨hheard, .inl hstop⟩ fun ⟨hheard, hset⟩ _ hstep => ⟨fun hmissed => ?_, ?_⟩).1
  · rcases hset with hstop | hended
    · exact hheard (hmissed.of_step (step_cases hstep) hstop)
    · exact hmissed.not_ended (ended_step hended (step_cases hstep))
  · exact stopBool_step hset (step_cases hstep)

/-- A termination is looked at on the way to each sleep. -/
theorem not_terminateMissed (h : Machine.Reach step Machine.anyOrder s₀ log s)
    (hterminate : s₀.terminateBool = true) (hheard : ¬ (s₀.Drowsy s₀.thread ∧ s₀.requests = 0)) :
    ¬ (s.Drowsy s.thread ∧ s.requests = 0) := by
  refine (h.invariant
    (fun _ s => ¬ (s.Drowsy s.thread ∧ s.requests = 0) ∧ (s.terminateBool = true ∨ s.thread = .ended))
    ⟨hheard, .inl hterminate⟩ fun ⟨hheard, hset⟩ _ hstep => ⟨fun ⟨hdrowsy, hrequests⟩ => ?_, ?_⟩).1
  · rcases hset with hterminate | hended
    · obtain ⟨hsame, hbefore | ⟨-, -, -, hnot⟩⟩ := hdrowsy.of_step (step_cases hstep)
      · exact hheard ⟨hbefore, hsame ▸ hrequests⟩
      · exact hnot ⟨.inl hterminate, hsame ▸ hrequests⟩
    · exact hdrowsy.not_ended (ended_step hended (step_cases hstep))
  · exact terminateBool_step hset (step_cases hstep)

/-- The thread gets to sleep, and nothing but a descriptor or another thread
wakes it. -/
def Oversleeps (s : Sleeper Task) : Prop :=
  ∃ log s', Machine.Reach step Machine.anyOrder s log s'
    ∧ s'.thread = .sleeping true ∧ s'.wakeUp = 0 ∧ s'.requests = s.requests

theorem oversleeps_of_step (hstep : s.step a = some (s', es)) (hrequests : s'.requests = s.requests)
    (h : s'.Oversleeps) : s.Oversleeps := by
  obtain ⟨log, s'', hreach, hthread, hwakeUp, hsame⟩ := h
  exact ⟨_, s'', (Machine.Reach.init.step trivial hstep).trans hreach, hthread, hwakeUp,
    hsame.trans hrequests⟩

theorem step_fallAsleep (hthread : s.thread = .fallAsleep true) :
    s.step .next = some ({ s with asleep := true, thread := .sleeping true }, []) := by
  simp [step, next, hthread]

theorem step_test (hthread : s.thread = .test true) (htasks : s.tasks = []) :
    s.step .next = some ({ s with thread := .fallAsleep true }, []) := by
  simp [step, next, hthread, htasks]

theorem step_lockSleep (hthread : s.thread = .lockSleep true) :
    s.step .next = some ({ s with thread := .test true }, []) := by
  simp [step, next, hthread]

theorem step_lockTasks (hthread : s.thread = .lockTasks true) :
    s.step .next = some ({ s with thread := .lockSleep true }, []) := by
  simp [step, next, hthread]

theorem step_checkTerminate (hthread : s.thread = .checkTerminate true)
    (hfree : s.terminating = false) (hnot : ¬ s.Terminates) :
    s.step .next = some ({ s with thread := .lockTasks true }, []) := by
  have hpass : s.terminateBool = true → ¬ s.requests = 0 := fun hbool hrequests =>
    hnot ⟨.inl hbool, hrequests⟩
  simpa [step, next, hthread, hfree] using hpass

theorem step_terminateEnd (hterminating : s.terminating = true) (hfree : hasSleep s.thread = false) :
    s.step .terminateEnd
      = some ({ s.wake with terminateBool := true, asleep := false, terminating := false }, []) := by
  simp [step, hterminating, hfree]

theorem step_nothing (hthread : s.thread = .transceive) (hwakeUp : s.wakeUp = 0) :
    s.step (.transceive (.nothing true)) = some ({ s with thread := .checkTerminate true }, []) := by
  simp [step, transceive, hthread, hwakeUp]

theorem oversleeps_of_fallAsleep (hthread : s.thread = .fallAsleep true) (hwakeUp : s.wakeUp = 0) :
    s.Oversleeps :=
  ⟨_, _, Machine.Reach.init.step trivial (step_fallAsleep hthread), rfl, hwakeUp, rfl⟩

theorem oversleeps_of_test (hthread : s.thread = .test true) (hwakeUp : s.wakeUp = 0)
    (htasks : s.tasks = []) : s.Oversleeps :=
  oversleeps_of_step (step_test hthread htasks) rfl (oversleeps_of_fallAsleep rfl hwakeUp)

theorem oversleeps_of_lockSleep (hthread : s.thread = .lockSleep true) (hwakeUp : s.wakeUp = 0)
    (htasks : s.tasks = []) : s.Oversleeps :=
  oversleeps_of_step (step_lockSleep hthread) rfl (oversleeps_of_test rfl hwakeUp htasks)

theorem oversleeps_of_lockTasks (hthread : s.thread = .lockTasks true) (hwakeUp : s.wakeUp = 0)
    (htasks : s.tasks = []) : s.Oversleeps :=
  oversleeps_of_step (step_lockTasks hthread) rfl (oversleeps_of_lockSleep rfl hwakeUp htasks)

/-- Left alone, a drowsy thread sleeps. -/
theorem Drowsy.oversleeps (h : s.Drowsy s.thread) : s.Oversleeps := by
  cases hthread : s.thread with
  | lockTasks sleep | lockSleep sleep | test sleep | fallAsleep sleep | sleeping sleep =>
      rw [hthread] at h
      cases sleep with
      | false => cases h
      | true =>
          first
          | exact oversleeps_of_lockTasks hthread h.1 h.2
          | exact oversleeps_of_lockSleep hthread h.1 h.2
          | exact oversleeps_of_test hthread h.1 h.2
          | exact oversleeps_of_fallAsleep hthread h
          | exact ⟨[], s, .init, hthread, h, rfl⟩
  | checkStop | transceive | pushed | checkTerminate | awake | take | handle | ended =>
      rw [hthread] at h
      cases h

theorem oversleeps_of_checkTerminate (hthread : s.thread = .checkTerminate true)
    (hwakeUp : s.wakeUp = 0) (htasks : s.tasks = []) (hnot : ¬ s.Terminates)
    (hasleep : s.asleep = false) : s.Oversleeps := by
  cases hterminating : s.terminating with
  | false =>
      exact oversleeps_of_step (step_checkTerminate hthread hterminating hnot) rfl
        (oversleeps_of_lockTasks rfl hwakeUp htasks)
  | true =>
      -- The thread in `terminate` has to leave first; its flag ends nothing
      -- while there are requests.
      have hrequests : s.requests ≠ 0 := fun h => hnot ⟨.inr hterminating, h⟩
      have hwoken : s.wake.wakeUp = 0 := wake_wakeUp_eq_zero.mpr ⟨hwakeUp, hasleep⟩
      refine oversleeps_of_step (step_terminateEnd hterminating (by rw [hthread]; rfl)) rfl ?_
      exact oversleeps_of_step (step_checkTerminate hthread rfl fun h => hrequests h.2) rfl
        (oversleeps_of_lockTasks rfl hwoken htasks)

theorem StopMissed.oversleeps (h : s.StopMissed) (hasleep : s.asleep = false) : s.Oversleeps := by
  rcases h with h | ⟨hthread | hthread, hwakeUp, htasks, hnot⟩
  · exact h.oversleeps
  · exact oversleeps_of_step (step_nothing hthread hwakeUp) rfl
      (oversleeps_of_checkTerminate rfl hwakeUp htasks hnot hasleep)
  · exact oversleeps_of_checkTerminate hthread hwakeUp htasks hnot hasleep

/-- Where the thread is drowsy and others may look at `asleep`. -/
theorem drowsy_iff (h : Machine.Reach step Machine.anyOrder {} log s)
    (hfree : hasSleep s.thread = false) :
    s.Drowsy s.thread ∧ s.asleep = false
      ↔ s.wakeUp = 0 ∧ s.tasks = [] ∧ (s.thread = .lockTasks true ∨ s.thread = .lockSleep true) := by
  have hknows := knows h
  constructor
  · rintro ⟨hdrowsy, hasleep⟩
    cases hthread : s.thread with
    | lockTasks sleep | lockSleep sleep =>
        rw [hthread] at hdrowsy
        cases sleep with
        | false => cases hdrowsy
        | true => exact ⟨hdrowsy.1, hdrowsy.2, by simp⟩
    | test sleep | fallAsleep sleep =>
        rw [hthread] at hfree
        cases hfree
    | sleeping sleep =>
        rw [hthread] at hdrowsy hknows
        cases sleep with
        | false => cases hdrowsy
        | true =>
            rw [(hknows hdrowsy).1] at hasleep
            cases hasleep
    | checkStop | transceive | pushed | checkTerminate | awake | take | handle | ended =>
        rw [hthread] at hdrowsy
        cases hdrowsy
  · rintro ⟨hwakeUp, htasks, hthread | hthread⟩
    · rw [hthread] at hknows ⊢
      exact ⟨⟨hwakeUp, htasks⟩, hknows⟩
    · rw [hthread] at hknows ⊢
      exact ⟨⟨hwakeUp, htasks⟩, hknows⟩

theorem stopMissed_iff (h : Machine.Reach step Machine.anyOrder {} log s)
    (hfree : hasSleep s.thread = false) :
    s.StopMissed ∧ s.asleep = false
      ↔ s.wakeUp = 0 ∧ s.tasks = [] ∧ ((s.thread = .lockTasks true ∨ s.thread = .lockSleep true)
        ∨ (s.thread = .transceive ∨ s.thread = .checkTerminate true) ∧ ¬ s.Terminates) := by
  constructor
  · rintro ⟨hdrowsy | ⟨hat, hwakeUp, htasks, hnot⟩, hasleep⟩
    · obtain ⟨hwakeUp, htasks, hat⟩ := (drowsy_iff h hfree).mp ⟨hdrowsy, hasleep⟩
      exact ⟨hwakeUp, htasks, .inl hat⟩
    · exact ⟨hwakeUp, htasks, .inr ⟨hat, hnot⟩⟩
  · rintro ⟨hwakeUp, htasks, hat | ⟨hat, hnot⟩⟩
    · obtain ⟨hdrowsy, hasleep⟩ := (drowsy_iff h hfree).mpr ⟨hwakeUp, htasks, hat⟩
      exact ⟨.inl hdrowsy, hasleep⟩
    · have hknows := knows h
      refine ⟨.inr ⟨hat, hwakeUp, htasks, hnot⟩, ?_⟩
      rcases hat with hat | hat <;> rw [hat] at hknows <;> exact hknows

/-- Whoever wakes a thread that is not asleep leaves the bytes as they are. -/
theorem wake_wakeUp_of_awake (hasleep : s.asleep = false) (hwakeUp : s.wakeUp = 0) :
    s.wake.wakeUp = 0 :=
  wake_wakeUp_eq_zero.mpr ⟨hwakeUp, hasleep⟩

/-- A call of `stop` is slept over exactly when its flag is set while the
thread is on its way from `stopBool` to its sleep, with no task and no byte
to keep it up and no termination to end it. -/
theorem stop_missed_iff (h : Machine.Reach step Machine.anyOrder {} log s)
    (hstep : s.step .stopEnd = some (s', es)) :
    (∃ log' s'', Machine.Reach step Machine.anyOrder s' log' s''
        ∧ s''.thread = .sleeping true ∧ s''.wakeUp = 0)
      ↔ s.wakeUp = 0 ∧ s.tasks = [] ∧ ((s.thread = .lockTasks true ∨ s.thread = .lockSleep true)
        ∨ (s.thread = .transceive ∨ s.thread = .checkTerminate true) ∧ ¬ s.Terminates) := by
  cases step_cases hstep with
  | stopEnd hfree =>
      rw [← stopMissed_iff h hfree]
      constructor
      · rintro ⟨log', s'', hreach, hthread, hwakeUp⟩
        have hmissed : StopMissed
            { s.wake with stopBool := true, asleep := false, stopping := false } := by
          by_contra hheard
          refine not_stopMissed hreach rfl hheard (.inl ?_)
          rw [hthread]
          exact hwakeUp
        exact ⟨hmissed.of_call rfl wakeUp_of_wake (fun h => h) fun h => h,
          (wake_wakeUp_eq_zero.mp hmissed.wakeUp).2⟩
      · rintro ⟨hmissed, hasleep⟩
        have hleft : StopMissed
            { s.wake with stopBool := true, asleep := false, stopping := false } :=
          hmissed.of_call rfl (wake_wakeUp_of_awake hasleep) (fun h => h) fun h => h
        obtain ⟨log', s'', hreach, hthread, hwakeUp, -⟩ := hleft.oversleeps rfl
        exact ⟨log', s'', hreach, hthread, hwakeUp⟩

/-- A stop in front of the lock of `tasks`. -/
def stopAtTasks : Sleeper Nat := { stopping := true, thread := .lockTasks true }

theorem stop_missed_iff_atTasks :
    (∃ log' s'', Machine.Reach step Machine.anyOrder
        ({ stopBool := true, thread := .lockTasks true } : Sleeper Nat) log' s''
        ∧ s''.thread = .sleeping true ∧ s''.wakeUp = 0)
      ↔ stopAtTasks.wakeUp = 0 ∧ stopAtTasks.tasks = []
        ∧ ((stopAtTasks.thread = .lockTasks true ∨ stopAtTasks.thread = .lockSleep true)
          ∨ (stopAtTasks.thread = .transceive ∨ stopAtTasks.thread = .checkTerminate true)
            ∧ ¬ stopAtTasks.Terminates) :=
  stop_missed_iff (Machine.Reach.init.run
    [.next, .transceive (.nothing true), .next, .stopBegin] rfl) rfl

/-- A call of `terminate`, when there are no requests, is slept over exactly
when its flag is set while the thread is between `terminateBool` and its
sleep, with no task and no byte to keep it up. -/
theorem terminate_missed_iff (h : Machine.Reach step Machine.anyOrder {} log s)
    (hstep : s.step .terminateEnd = some (s', es)) :
    (∃ log' s'', Machine.Reach step Machine.anyOrder s' log' s''
        ∧ s''.thread = .sleeping true ∧ s''.wakeUp = 0 ∧ s''.requests = 0)
      ↔ s.wakeUp = 0 ∧ s.tasks = [] ∧ s.requests = 0
        ∧ (s.thread = .lockTasks true ∨ s.thread = .lockSleep true) := by
  cases step_cases hstep with
  | terminateEnd hfree =>
      have hiff := drowsy_iff h hfree
      constructor
      · rintro ⟨log', s'', hreach, hthread, hwakeUp, hrequests⟩
        have hmissed : Drowsy
            { s.wake with terminateBool := true, asleep := false, terminating := false } s.thread
              ∧ s.requests = 0 := by
          by_contra hheard
          refine not_terminateMissed hreach rfl hheard ⟨?_, hrequests⟩
          rw [hthread]
          exact hwakeUp
        obtain ⟨hdrowsy, hnone⟩ := hmissed
        obtain ⟨hwakeUp, htasks, hat⟩ := hiff.mp
          ⟨hdrowsy.of_call wakeUp_of_wake fun h => h, (wake_wakeUp_eq_zero.mp hdrowsy.wakeUp).2⟩
        exact ⟨hwakeUp, htasks, hnone, hat⟩
      · rintro ⟨hwakeUp, htasks, hnone, hat⟩
        obtain ⟨hdrowsy, hasleep⟩ := hiff.mpr ⟨hwakeUp, htasks, hat⟩
        have hleft : Drowsy
            { s.wake with terminateBool := true, asleep := false, terminating := false } s.thread :=
          hdrowsy.of_call (wake_wakeUp_of_awake hasleep) fun h => h
        obtain ⟨log', s'', hreach, hthread, hwakeUp, hsame⟩ := Drowsy.oversleeps hleft
        exact ⟨log', s'', hreach, hthread, hwakeUp, hsame.trans hnone⟩

/-- A termination in front of the lock of `tasks`. -/
def terminateAtTasks : Sleeper Nat := { terminating := true, thread := .lockTasks true }

theorem terminate_missed_iff_atTasks :
    (∃ log' s'', Machine.Reach step Machine.anyOrder
        ({ terminateBool := true, thread := .lockTasks true } : Sleeper Nat) log' s''
        ∧ s''.thread = .sleeping true ∧ s''.wakeUp = 0 ∧ s''.requests = 0)
      ↔ terminateAtTasks.wakeUp = 0 ∧ terminateAtTasks.tasks = [] ∧ terminateAtTasks.requests = 0
        ∧ (terminateAtTasks.thread = .lockTasks true
          ∨ terminateAtTasks.thread = .lockSleep true) :=
  terminate_missed_iff (Machine.Reach.init.run
    [.next, .transceive (.nothing true), .next, .terminateBegin] rfl) rfl

end Sleeper

end Simurga
