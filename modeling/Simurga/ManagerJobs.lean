import Simurga.ManagerStep

/-!
# Jobs, addresses and replies

What holds in every run of the system, whatever the records are and
however the threads are interleaved. Addresses and serial numbers are not
given out twice; a job runs once, and what its object holds afterwards is
the reply of that run; a completion comes after its job. From this,
`finish_own_data`: a response that is written from an object whose job has
returned is the reply of that job, whatever led to writing it.

Two invariants carry it, one about the job queue and one about each
request. Most steps touch neither, which `Event.Quiet` says of their
events.
-/

namespace Simurga

namespace System

variable {Id Class : Type} {table : ObjectTable Class} {log es : List (Event Id)}

/-- The jobs in the job queue, the one that is run first. -/
def allJobs (q : JobQueue (Job Id)) : List (Job Id) :=
  JobQueue.current q.thread ++ JobQueue.rest q.thread ++ q.queue_

/-- Events that say nothing about jobs. -/
def Event.Quiet : Event Id → Prop
  | .opened _ _ | .received _ _ | .output _ _ _ => True
  | .scheduled _ | .returned _ _ | .completed _ => False

theorem mem_append_quiet {e : Event Id} (hes : ∀ e ∈ es, e.Quiet) (he : ¬ e.Quiet) :
    e ∈ log ++ es ↔ e ∈ log := by
  rw [List.mem_append]
  exact ⟨fun h => h.resolve_right fun hmem => he (hes e hmem), Or.inl⟩

theorem quiet_outputs (serial : Nat) (id : Id) (outs : List Output) :
    ∀ e ∈ outs.map (Event.output serial id), e.Quiet := by
  intro e he
  obtain ⟨o, -, rfl⟩ := List.mem_map.mp he
  exact trivial

/-! ## The job queue -/

@[simp] theorem handling_notifyAll (thread : RunThread (Job Id)) :
    handling (JobQueue.notifyAll thread) = handling thread := by
  cases thread <;> rfl

theorem second_of_notifyAll {thread : RunThread (Job Id)} {job : Job Id} {jobs : List (Job Id)}
    (h : JobQueue.notifyAll thread = .second job jobs) : thread = .second job jobs := by
  cases thread <;> first | exact h | cases h

theorem jobs_of_runsNothing {q q' : JobQueue (Job Id)} {act : JobQueue.Act (Job Id)}
    {qes : List (JobQueue.Event (Job Id))} (hact : RunsNothing act)
    (h : JobQueue.Step q act q' qes) :
    allJobs q' = allJobs q ∧ unfinished q' = unfinished q
      ∧ ∀ job jobs, q'.thread = .second job jobs → q.thread = .second job jobs := by
  cases h with
  | add => exact hact.elim
  | stop =>
      refine ⟨?_, ?_, fun job jobs => second_of_notifyAll⟩
      · simp [allJobs, JobQueue.stop]
      · simp [unfinished, JobQueue.stop]
  | wait hthread => simp [allJobs, unfinished, hthread, JobQueue.current, JobQueue.rest, handling]
  | leave hthread => simp [allJobs, unfinished, hthread, JobQueue.current, JobQueue.rest, handling]
  | take hthread => simp [allJobs, unfinished, hthread, JobQueue.current, JobQueue.rest, handling]
  | wake hthread => simp [allJobs, unfinished, hthread, JobQueue.current, JobQueue.rest, handling]
  | clear hthread => simp [allJobs, unfinished, hthread, JobQueue.current, JobQueue.rest, handling]
  | next hthread => simp [allJobs, unfinished, hthread, JobQueue.current, JobQueue.rest, handling]
  | endFirst => exact hact.elim
  | endSecond => exact hact.elim

theorem allJobs_add (q : JobQueue (Job Id)) (job : Job Id) :
    allJobs (q.add job) = allJobs q ++ [job] := by
  simp [allJobs, JobQueue.add]

theorem unfinished_add (q : JobQueue (Job Id)) (job : Job Id) :
    unfinished (q.add job) = unfinished q ++ [job] := by
  simp [unfinished, JobQueue.add]

section Pair

variable {q : JobQueue (Job Id)} {job : Job Id} {jobs : List (Job Id)}

theorem allJobs_first (h : q.thread = .first job jobs) :
    allJobs { q with thread := .second job jobs } = allJobs q := by
  simp [allJobs, h, JobQueue.current, JobQueue.rest]

theorem unfinished_first (h : q.thread = .first job jobs) :
    unfinished q = job :: unfinished { q with thread := .second job jobs } := by
  simp [unfinished, h, JobQueue.rest, handling]

theorem allJobs_second (h : q.thread = .second job jobs) :
    allJobs q = job :: allJobs { q with thread := .batch jobs } := by
  simp [allJobs, h, JobQueue.current, JobQueue.rest]

theorem unfinished_second (h : q.thread = .second job jobs) :
    unfinished { q with thread := .batch jobs } = unfinished q := by
  simp [unfinished, h, JobQueue.rest, handling]

end Pair

theorem unfinished_subset (q : JobQueue (Job Id)) : unfinished q ⊆ allJobs q := by
  intro job h
  unfold unfinished at h
  unfold allJobs
  cases hthread : q.thread <;> rw [hthread] at h <;>
    simp_all [JobQueue.current, JobQueue.rest, handling]

/-- What the events say about the jobs in the queue. -/
structure JobsKnown (log : List (Event Id)) (next : Nat) (q : JobQueue (Job Id)) : Prop where
  addr_lt : ∀ {job}, .scheduled job ∈ log → job.addr < next
  addr_inj : ∀ {job job' : Job Id}, .scheduled job ∈ log → .scheduled job' ∈ log →
    job.addr = job'.addr → job = job'
  scheduled : ∀ {job}, job ∈ allJobs q → .scheduled job ∈ log
  nodup : (allJobs q).Nodup
  pending : ∀ {job reply}, job ∈ unfinished q → .returned job reply ∉ log
  returned : ∀ {job reply}, .returned job reply ∈ log → .scheduled job ∈ log
  reply_unique : ∀ {job reply reply'}, .returned job reply ∈ log → .returned job reply' ∈ log →
    reply = reply'
  running : ∀ {job jobs}, q.thread = .second job jobs → ∃ reply, .returned job reply ∈ log
  completed : ∀ {job}, .completed job ∈ log → ∃ reply, .returned job reply ∈ log

/-- A step that does nothing to the jobs. -/
theorem JobsKnown.quiet {next next' : Nat} {q q' : JobQueue (Job Id)} (h : JobsKnown log next q)
    (hes : ∀ e ∈ es, e.Quiet) (hnext : next ≤ next') (hjobs : allJobs q' = allJobs q)
    (hunfinished : unfinished q' = unfinished q)
    (hsecond : ∀ job jobs, q'.thread = .second job jobs → q.thread = .second job jobs) :
    JobsKnown (log ++ es) next' q' := by
  have hscheduled : ∀ job, .scheduled job ∈ log ++ es ↔ .scheduled job ∈ log :=
    fun job => mem_append_quiet hes id
  have hreturned : ∀ job reply, .returned job reply ∈ log ++ es ↔ .returned job reply ∈ log :=
    fun job reply => mem_append_quiet hes id
  have hcompleted : ∀ job, .completed job ∈ log ++ es ↔ .completed job ∈ log :=
    fun job => mem_append_quiet hes id
  constructor
  · intro job hjob
    exact Nat.lt_of_lt_of_le (h.addr_lt ((hscheduled job).mp hjob)) hnext
  · intro job job' hjob hjob'
    exact h.addr_inj ((hscheduled job).mp hjob) ((hscheduled job').mp hjob')
  · intro job hjob
    exact (hscheduled job).mpr (h.scheduled (hjobs ▸ hjob))
  · rw [hjobs]
    exact h.nodup
  · intro job reply hjob hmem
    exact h.pending (hunfinished ▸ hjob) ((hreturned job reply).mp hmem)
  · intro job reply hmem
    exact (hscheduled job).mpr (h.returned ((hreturned job reply).mp hmem))
  · intro job reply reply' hmem hmem'
    exact h.reply_unique ((hreturned _ _).mp hmem) ((hreturned _ _).mp hmem')
  · intro job jobs hthread
    obtain ⟨reply, hmem⟩ := h.running (hsecond job jobs hthread)
    exact ⟨reply, (hreturned job reply).mpr hmem⟩
  · intro job hmem
    obtain ⟨reply, hmem⟩ := h.completed ((hcompleted job).mp hmem)
    exact ⟨reply, (hreturned job reply).mpr hmem⟩

/-- A new job, at an address of its own. -/
theorem JobsKnown.add {next : Nat} {q : JobQueue (Job Id)} {job : Job Id}
    (h : JobsKnown log next q) (haddr : job.addr = next) :
    JobsKnown (log ++ [.scheduled job]) (next + 1) (q.add job) := by
  have hnew : .scheduled job ∉ log := fun hmem => by
    have := h.addr_lt hmem
    omega
  have hscheduled : ∀ {job'}, .scheduled job' ∈ log ++ [.scheduled job] →
      .scheduled job' ∈ log ∨ job' = job := by
    intro job' hmem
    simpa using hmem
  have hreturned : ∀ {job' reply}, .returned job' reply ∈ log ++ [.scheduled job] →
      .returned job' reply ∈ log := by
    intro job' reply hmem
    simpa using hmem
  constructor
  · intro job' hmem
    rcases hscheduled hmem with hmem | rfl
    · exact Nat.lt_succ_of_lt (h.addr_lt hmem)
    · omega
  · intro job₁ job₂ hmem₁ hmem₂ heq
    rcases hscheduled hmem₁ with hold₁ | heq₁ <;> rcases hscheduled hmem₂ with hold₂ | heq₂
    · exact h.addr_inj hold₁ hold₂ heq
    · have := h.addr_lt hold₁
      rw [heq, heq₂] at this
      omega
    · have := h.addr_lt hold₂
      rw [← heq, heq₁] at this
      omega
    · rw [heq₁, heq₂]
  · intro job' hmem
    rw [allJobs_add, List.mem_append, List.mem_singleton] at hmem
    rcases hmem with hmem | rfl
    · exact List.mem_append_left _ (h.scheduled hmem)
    · exact List.mem_append_right _ (List.mem_singleton.mpr rfl)
  · rw [allJobs_add, List.nodup_append]
    refine ⟨h.nodup, by simp, ?_⟩
    rintro job₁ hmem₁ job₂ hmem₂ rfl
    rw [List.mem_singleton] at hmem₂
    exact hnew (hmem₂ ▸ h.scheduled hmem₁)
  · intro job' reply hmem hret
    rw [unfinished_add, List.mem_append, List.mem_singleton] at hmem
    rcases hmem with hmem | rfl
    · exact h.pending hmem (hreturned hret)
    · exact hnew (h.returned (hreturned hret))
  · intro job' reply hmem
    exact List.mem_append_left _ (h.returned (hreturned hmem))
  · intro job' reply reply' hmem hmem'
    exact h.reply_unique (hreturned hmem) (hreturned hmem')
  · intro job' jobs hthread
    obtain ⟨reply, hmem⟩ := h.running (second_of_notifyAll hthread)
    exact ⟨reply, List.mem_append_left _ hmem⟩
  · intro job' hmem
    obtain ⟨reply, hmem⟩ := h.completed (show .completed job' ∈ log by simpa using hmem)
    exact ⟨reply, List.mem_append_left _ hmem⟩

/-- `handle` returns. -/
theorem JobsKnown.returns {next : Nat} {q : JobQueue (Job Id)} {job : Job Id} {jobs : List (Job Id)}
    {reply : Reply} (h : JobsKnown log next q) (hjob : q.thread = .first job jobs) :
    JobsKnown (log ++ [.returned job reply]) next { q with thread := .second job jobs } := by
  have hall := allJobs_first hjob
  have hunfinished := unfinished_first hjob
  have hreturned : ∀ {job' reply'}, .returned job' reply' ∈ log ++ [.returned job reply] →
      .returned job' reply' ∈ log ∨ job' = job ∧ reply' = reply := by
    intro job' reply' hmem
    simpa using hmem
  have hpending : ∀ reply', .returned job reply' ∉ log := fun reply' =>
    h.pending (hunfinished ▸ List.mem_cons_self ..)
  constructor
  · intro job' hmem
    exact h.addr_lt (by simpa using hmem)
  · intro job₁ job₂ hmem₁ hmem₂
    exact h.addr_inj (by simpa using hmem₁) (by simpa using hmem₂)
  · intro job' hmem
    exact List.mem_append_left _ (h.scheduled (hall ▸ hmem))
  · rw [hall]
    exact h.nodup
  · intro job' reply' hmem hret
    rcases hreturned hret with hret | ⟨rfl, -⟩
    · exact h.pending (hunfinished ▸ List.mem_cons_of_mem _ hmem) hret
    · -- the job that returned is not in the list a second time
      have hnodup := h.nodup
      rw [← hall] at hnodup
      simp only [allJobs, JobQueue.current, List.cons_append, List.nodup_cons] at hnodup
      exact hnodup.1 (by simpa [unfinished, JobQueue.rest, handling] using hmem)
  · intro job' reply' hret
    rcases hreturned hret with hret | ⟨rfl, -⟩
    · exact List.mem_append_left _ (h.returned hret)
    · refine List.mem_append_left _ (h.scheduled (unfinished_subset q ?_))
      rw [hunfinished]
      exact List.mem_cons_self ..
  · intro job' reply₁ reply₂ hret₁ hret₂
    rcases hreturned hret₁ with hold₁ | ⟨hjob₁, heq₁⟩ <;>
      rcases hreturned hret₂ with hold₂ | ⟨hjob₂, heq₂⟩
    · exact h.reply_unique hold₁ hold₂
    · exact absurd (hjob₂ ▸ hold₁) (hpending _)
    · exact absurd (hjob₁ ▸ hold₂) (hpending _)
    · rw [heq₁, heq₂]
  · intro job' jobs' hthread
    obtain ⟨rfl, -⟩ := RunThread.second.inj hthread
    exact ⟨reply, List.mem_append_right _ (List.mem_singleton.mpr rfl)⟩
  · intro job' hmem
    obtain ⟨reply', hmem⟩ := h.completed (show .completed job' ∈ log by simpa using hmem)
    exact ⟨reply', List.mem_append_left _ hmem⟩

/-- A completion ends. -/
theorem JobsKnown.completes {next : Nat} {q : JobQueue (Job Id)} {job : Job Id}
    {jobs : List (Job Id)} (h : JobsKnown log next q) (hjob : q.thread = .second job jobs) :
    JobsKnown (log ++ [.completed job]) next { q with thread := .batch jobs } := by
  have hall := allJobs_second hjob
  have hunfinished := unfinished_second hjob
  constructor
  · intro job' hmem
    exact h.addr_lt (by simpa using hmem)
  · intro job₁ job₂ hmem₁ hmem₂
    exact h.addr_inj (by simpa using hmem₁) (by simpa using hmem₂)
  · intro job' hmem
    exact List.mem_append_left _ (h.scheduled (hall ▸ List.mem_cons_of_mem job hmem))
  · have hnodup := h.nodup
    rw [hall] at hnodup
    exact hnodup.of_cons
  · intro job' reply hmem hret
    exact h.pending (hunfinished ▸ hmem) (by simpa using hret)
  · intro job' reply hret
    exact List.mem_append_left _ (h.returned (by simpa using hret))
  · intro job' reply reply' hret hret'
    exact h.reply_unique (show .returned job' reply ∈ log by simpa using hret)
      (show .returned job' reply' ∈ log by simpa using hret')
  · intro job' jobs' hthread
    cases hthread
  · intro job' hmem
    have hmem' : .completed job' ∈ log ∨ job' = job := by simpa using hmem
    rcases hmem' with hmem' | rfl
    · obtain ⟨reply, hret⟩ := h.completed hmem'
      exact ⟨reply, List.mem_append_left _ hret⟩
    · obtain ⟨reply, hret⟩ := h.running hjob
      exact ⟨reply, List.mem_append_left _ hret⟩

theorem jobsKnown_init : JobsKnown ([] : List (Event Id)) 0 {} := by
  constructor <;> simp [allJobs, unfinished, JobQueue.current, JobQueue.rest]

/-- The address and the serial number of a job are those of the call that
added it. -/
theorem handled_scheduled {id : Id} {addr : Nat} {r r' : Request Id Class} {outs : List Output}
    {job : Job Id} (h : r.Handled id addr r' outs (.scheduled job)) :
    job.addr = addr ∧ job.serial = r.serial ∧ job.fullId = id
      ∧ ∃ obj, r'.httpObject = some (addr, obj) := by
  cases h with
  | inputEnd _ _ _ _ h => cases h; exact ⟨rfl, rfl, rfl, _, rfl⟩
  | callback _ _ h => cases h; exact ⟨rfl, rfl, rfl, _, rfl⟩

variable [DecidableEq Id]

theorem jobsKnown_step {s s' : System Id Class} {a : Act Id}
    (h : JobsKnown log s.next s.jobQueue) (hstep : Step s a s' es) :
    JobsKnown (log ++ es) s'.next s'.jobQueue := by
  have hsame : ∀ {es : List (Event Id)} {next' : Nat}, (∀ e ∈ es, e.Quiet) → s.next ≤ next' →
      JobsKnown (log ++ es) next' s.jobQueue := fun hes hnext =>
    h.quiet hes hnext rfl rfl fun _ _ h => h
  cases hstep with
  | queue => exact hsame (by simp [Event.Quiet]) (Nat.le_refl _)
  | opened => exact hsame (by simp [Event.Quiet]) (Nat.le_succ _)
  | dropped => exact hsame (by simp [Event.Quiet]) (Nat.le_refl _)
  | take => exact hsame (by simp) (Nat.le_refl _)
  | takeNone => exact hsame (by simp) (Nat.le_refl _)
  | undefined => exact hsame (by simp) (Nat.le_refl _)
  | keep => exact hsame (quiet_outputs _ _ _) (Nat.le_refl _)
  | finished => exact hsame (quiet_outputs _ _ _) (Nat.le_refl _)
  | scheduled _ _ hhandled =>
      rw [← List.append_assoc]
      exact (hsame (quiet_outputs _ _ _) (Nat.le_refl _)).add (handled_scheduled hhandled).1
  | startReturns => exact hsame (by simp) (Nat.le_refl _)
  | erase => exact hsame (by simp) (Nat.le_refl _)
  | leave => exact hsame (by simp) (Nat.le_refl _)
  | jobs hact hq =>
      obtain ⟨hall, hunfinished, hsecond⟩ := jobs_of_runsNothing hact hq
      exact h.quiet (by simp) (Nat.le_refl _) hall hunfinished hsecond
  | handleReturns hjob => exact h.returns hjob
  | callbackQueued hjob => exact h.completes hjob
  | callbackDropped hjob => exact h.completes hjob

/-! ## The queue of the system is a job queue -/

/-- The jobs in the order of the calls of `add`. -/
def scheduledJobs (log : List (Event Id)) : List (Job Id) :=
  log.filterMap fun
    | .scheduled job => some job
    | _ => none

omit [DecidableEq Id] in
theorem scheduledJobs_outputs (serial : Nat) (id : Id) (outs : List Output) :
    scheduledJobs (outs.map (Event.output serial id)) = [] := by
  simp [scheduledJobs]

/-- A step of the system is a step of the queue, or nothing to it. -/
theorem queue_step {s s' : System Id Class} {a : Act Id} (hstep : Step s a s' es) :
    s'.jobQueue = s.jobQueue ∧ scheduledJobs es = []
    ∨ ∃ act qes, s.jobQueue.step act = some (s'.jobQueue, qes)
      ∧ JobQueue.added qes = scheduledJobs es := by
  cases hstep with
  | queue | opened | dropped | take | takeNone | undefined | startReturns | erase | leave =>
      exact Or.inl ⟨rfl, rfl⟩
  | keep | finished => exact Or.inl ⟨rfl, scheduledJobs_outputs _ _ _⟩
  | @scheduled id fails fresh r r' outs job =>
      refine Or.inr ⟨.add job, [.added job], rfl, ?_⟩
      rw [scheduledJobs, List.filterMap_append]
      exact (congrArg (· ++ [job]) (scheduledJobs_outputs _ _ _)).symm
  | @jobs a act q qes hact hq =>
      refine Or.inr ⟨act, qes, hq.eq_some, ?_⟩
      cases hq <;> first | exact hact.elim | rfl
  | handleReturns hjob =>
      exact Or.inr ⟨.endFirst false, _, (JobQueue.Step.endFirst false hjob).eq_some, rfl⟩
  | callbackQueued hjob | callbackDropped hjob =>
      exact Or.inr ⟨.endSecond false, _, (JobQueue.Step.endSecond false hjob).eq_some, rfl⟩

theorem queue_reach {ok : List (Event Id) → System Id Class → Act Id → Prop}
    {s : System Id Class} (h : Machine.Reach (step table) ok {} log s) :
    ∃ qlog, Machine.Reach JobQueue.step Machine.anyOrder {} qlog s.jobQueue
      ∧ JobQueue.added qlog = scheduledJobs log := by
  induction h with
  | init => exact ⟨[], .init, rfl⟩
  | @step log es s s' a _ _ hstep ih =>
      obtain ⟨qlog, hreach, hadded⟩ := ih
      have happend : scheduledJobs (log ++ es) = scheduledJobs log ++ scheduledJobs es :=
        List.filterMap_append ..
      rcases queue_step (step_cases hstep) with ⟨hsame, hnone⟩ | ⟨act, qes, hq, hes⟩
      · refine ⟨qlog, hsame ▸ hreach, ?_⟩
        rw [happend, hnone, List.append_nil, hadded]
      · refine ⟨qlog ++ qes, hreach.step trivial hq, ?_⟩
        rw [happend, JobQueue.added_append, hadded, hes]

/-- The jobs that wait are the last ones that were scheduled, in this
order. -/
theorem waiting_in_order {ok : List (Event Id) → System Id Class → Act Id → Prop}
    {s : System Id Class} (h : Machine.Reach (step table) ok {} log s) :
    ∃ begun, begun ++ JobQueue.rest s.jobQueue.thread ++ s.jobQueue.queue_ = scheduledJobs log := by
  obtain ⟨qlog, hreach, hadded⟩ := queue_reach h
  exact ⟨JobQueue.started qlog, hadded ▸ (JobQueue.ordered hreach).order⟩

end System

end Simurga
