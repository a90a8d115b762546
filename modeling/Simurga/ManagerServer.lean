import Simurga.ManagerStale
import Simurga.ManagerStage

/-!
# Requests of a web server that follows the protocol

What follows from the stages for whole runs: the number of things that are
written for a request (`fair_step`), that no completion is lost
(`kept_step`), and that every completion is timely, so that what is
written is the reply of the request's own job. `served` puts them together.
-/

namespace Simurga

namespace System

open View

variable {Id Class : Type} {table : ObjectTable Class} {log es : List (Event Id)}

/-! ## Completions that are kept -/

/-- The request of a job that was completed has been answered with the
job's object, or has the completion in its message queue. -/
def Kept (log : List (Event Id)) (s : System Id Class) (job : Job Id) : Prop :=
  ((∃ method text, .output job.serial job.fullId (.wrote (.finish job.addr method) text) ∈ log)
    ∧ ∃ status killCon, .output job.serial job.fullId (.endRequest status killCon) ∈ log)
  ∨ ∃ r, s.requests job.fullId = some r ∧ r.serial = job.serial ∧ .callback job ∈ r.messages

/-- It is enough to look at a request that has the completion. -/
theorem Kept.step {s s' : System Id Class} {job : Job Id} (h : Kept log s job)
    (hpending : ∀ r, s.requests job.fullId = some r → r.serial = job.serial →
      .callback job ∈ r.messages → Kept (log ++ es) s' job) : Kept (log ++ es) s' job := by
  rcases h with ⟨⟨method, text, hfinish⟩, status, killCon, hend⟩ | ⟨r, hr, hserial, hm⟩
  · exact Or.inl ⟨⟨method, text, List.mem_append_left _ hfinish⟩, status, killCon,
      List.mem_append_left _ hend⟩
  · exact hpending r hr hserial hm

theorem Kept.same {s s' : System Id Class} {job : Job Id} (h : Kept log s job)
    (hrequest : s'.requests job.fullId = s.requests job.fullId) : Kept (log ++ es) s' job :=
  h.step fun r hr hserial hm => Or.inr ⟨r, hrequest.trans hr, hserial, hm⟩

variable [DecidableEq Id]

/-- A step that takes no message from the request. -/
theorem Kept.update {s s' : System Id Class} {job : Job Id} {id : Id} {r r' : Request Id Class}
    (h : Kept log s job) (hr : s.requests id = some r)
    (hrequests : s'.requests = Function.update s.requests id (some r'))
    (hserial : r'.serial = r.serial) (hmessages : r.messages ⊆ r'.messages) :
    Kept (log ++ es) s' job := by
  by_cases hid : job.fullId = id
  · refine h.step fun r₀ hr₀ hserial₀ hm => ?_
    rw [hid, hr] at hr₀
    cases hr₀
    refine Or.inr ⟨r', ?_, hserial.trans hserial₀, hmessages hm⟩
    rw [hrequests, hid, Function.update_self]
  · refine h.same ?_
    rw [hrequests, Function.update_of_ne hid]

/-- A call of `handler` that takes the completion answers the request. -/
theorem Kept.handled {s s' : System Id Class} {job : Job Id} {id : Id} {r r' : Request Id Class}
    {outs : List Output} {verdict : Verdict Id} (h : Kept log s job)
    (hr : s.requests id = some r) (hends : HandlerEnds (view id log s) r r' outs verdict)
    (hrequests : s'.requests = Function.update s.requests id (some r'))
    (hes : ∀ e ∈ outs.map (.output r.serial id), e ∈ es) : Kept (log ++ es) s' job := by
  by_cases hid : job.fullId = id
  · refine h.step fun r₀ hr₀ hserial₀ hm => ?_
    rw [hid, hr] at hr₀
    cases hr₀
    have hmem : ∀ {o}, o ∈ outs → .output job.serial job.fullId o ∈ log ++ es := by
      intro o ho
      rw [← hserial₀, hid]
      exact List.mem_append_right _ (hes _ (List.mem_map_of_mem ho))
    cases hends with
    | keep hrecords => exact absurd hm (hrecords job)
    | scheduled hrecords => exact absurd hm (hrecords job)
    | erase _ _ _ hend _ hanswer =>
        obtain ⟨method, text, hfinish⟩ := hanswer job hm
        obtain ⟨o, ho, hisEnd⟩ := List.any_eq_true.mp hend
        cases o with
        | endRequest status killCon =>
            exact Or.inl ⟨⟨method, text, hmem hfinish⟩, status, killCon, hmem ho⟩
        | response | wrote => cases hisEnd
  · refine h.same ?_
    rw [hrequests, Function.update_of_ne hid]

/-! ## One step -/

/-- A completion is always handled by the request of its job. -/
theorem timely_of_stage {s : System Id Class} (h : ∀ id, Stage (view id log s)) (a : Act Id) :
    s.timely a := by
  unfold timely
  split
  · split
    · rename_i id hthread
      cases hr : s.requests id with
      | none => rfl
      | some r =>
          have hplace : (view id log s).place = .handling := view_handling hthread
          rcases (h id).called hr hplace with ⟨record, ms, next, hm, -⟩ | ⟨job, obj, hm, -, hobj, -⟩
          · simp [Request.timely, hm]
          · simp [Request.timely, hm, hobj]
    · rfl
  · rfl

/-- A request that is about to be erased has no messages. -/
theorem stage_erasing {s : System Id Class} {id : Id} {r : Request Id Class}
    (h : Stage (view id log s)) (hthread : s.thread = .erasing id) (hr : s.requests id = some r) :
    r.messages = [] := by
  have hplace : (view id log s).place = .erasing := view_erasing hthread
  cases h with
  | closed _ hplace' => rw [hplace] at hplace'; cases hplace'
  | reading _ hplace' => rw [hplace] at hplace'; simp at hplace'
  | running _ hplace' => rw [hplace] at hplace'; simp at hplace'
  | completing _ hplace' => exact absurd hplace hplace'
  | answered hrequest _ hmessages =>
      obtain rfl := Option.some.inj (hr.symm.trans hrequest)
      exact hmessages

/-- A completion that is not delivered has its task. -/
theorem stage_task {s : System Id Class} {id : Id} {r : Request Id Class} {job : Job Id}
    (h : Stage (view id log s)) (hr : s.requests id = some r) (hm : .callback job ∈ r.messages) :
    id ∈ s.tasks ∨ s.thread = .handling id := by
  have hcalls : 0 < (view id log s).calls := by
    cases h with
    | closed hrequest => rw [show s.requests id = none from hrequest] at hr; cases hr
    | reading hrequest _ _ _ _ _ _ hsent =>
        obtain rfl := Option.some.inj (hr.symm.trans hrequest)
        exact absurd hm (Phase.callback_not_mem hsent)
    | running hrequest _ _ _ _ _ _ hmessages | answered hrequest _ hmessages =>
        obtain rfl := Option.some.inj (hr.symm.trans hrequest)
        rw [hmessages] at hm
        cases hm
    | completing _ _ _ _ _ _ _ _ hcalls => omega
  unfold calls at hcalls
  split at hcalls
  · rename_i hplace
    right
    exact placeOf_eq_handling hplace
  · left
    exact List.count_pos_iff.mp hcalls

theorem fair_step {s s' : System Id Class} {a : Act Id} (h : ∀ id, Stage (view id log s))
    (hreads : s.reads a) (hfair : ∀ serial, Fair (outputs serial log)) (hstep : Step s a s' es) (serial : Nat) :
    Fair (outputs serial (log ++ es)) := by
  have hsame : outputs serial es = [] → Fair (outputs serial (log ++ es)) := by
    intro hes
    rw [outputs_append, hes, List.append_nil]
    exact hfair serial
  have hcall : ∀ {id fails fresh r r' outs verdict}, a = .handle fails fresh →
      s.thread = .handling id → s.requests id = some r → r.Handled id s.next r' outs verdict →
      Fair (outputs serial (log ++ outs.map (.output r.serial id))) := by
    rintro id fails fresh r r' outs verdict rfl hthread hr hhandled
    rw [outputs_append]
    by_cases hserial : r.serial = serial
    · subst hserial
      have hview : (view id log s).outputs = outputs r.serial log := by simp [view, hr]
      rw [outputs_map, ← hview]
      exact (stage_handlerEnds (h id) hreads hthread hr hhandled).fair (hview ▸ hfair r.serial)
    · rw [outputs_map_ne hserial, List.append_nil]
      exact hfair serial
  cases hstep with
  | keep hthread hr hhandled | finished hthread hr hhandled => exact hcall rfl hthread hr hhandled
  | scheduled hthread hr hhandled =>
      rw [← List.append_assoc, outputs_append]
      simpa [outputs] using hcall rfl hthread hr hhandled
  | queue | opened | dropped | take | takeNone | undefined | startReturns | erase | leave | jobs
  | handleReturns | callbackQueued | callbackDropped => exact hsame rfl

theorem kept_step {s s' : System Id Class} {a : Act Id} (h : ∀ id, Stage (view id log s))
    (hreads : s.reads a) (hkept : ∀ job, .completed job ∈ log → Kept log s job) (hstep : Step s a s' es) :
    ∀ job, .completed job ∈ log ++ es → Kept (log ++ es) s' job := by
  intro job hcompleted
  have hcall : ∀ {id fails fresh r r' outs verdict}, a = .handle fails fresh →
      s.thread = .handling id → s.requests id = some r → r.Handled id s.next r' outs verdict →
      .completed job ∈ log → s'.requests = Function.update s.requests id (some r') →
      (∀ e ∈ outs.map (.output r.serial id), e ∈ es) → Kept (log ++ es) s' job := by
    rintro id fails fresh r r' outs verdict rfl hthread hr hhandled hold hrequests hes
    exact (hkept job hold).handled hr (stage_handlerEnds (h id) hreads hthread hr hhandled) hrequests hes
  cases hstep with
  | queue hthread hr =>
      have hold : .completed job ∈ log := by simpa using hcompleted
      exact (hkept job hold).update hr rfl rfl (List.subset_append_left ..)
  | @opened id role keepConn hthread hr =>
      have hold : .completed job ∈ log := by simpa using hcompleted
      refine (hkept job hold).step fun r hr' hserial hm => Or.inr ⟨r, ?_, hserial, hm⟩
      have hid : job.fullId ≠ id := by
        rintro rfl
        rw [hr] at hr'
        cases hr'
      exact (Function.update_of_ne hid _ _).trans hr'
  | dropped => exact (hkept job (by simpa using hcompleted)).same rfl
  | take | takeNone | undefined | leave | jobs =>
      exact (hkept job (by simpa using hcompleted)).same rfl
  | keep hthread hr hhandled | finished hthread hr hhandled =>
      have hold : .completed job ∈ log := by simpa using hcompleted
      exact hcall rfl hthread hr hhandled hold rfl fun _ he => he
  | scheduled hthread hr hhandled =>
      have hold : .completed job ∈ log := by simpa using hcompleted
      exact hcall rfl hthread hr hhandled hold rfl fun _ he => List.mem_append_left _ he
  | startReturns hthread hr =>
      have hold : .completed job ∈ log := by simpa using hcompleted
      exact (hkept job hold).update hr rfl rfl (List.Subset.refl _)
  | @erase id hthread =>
      have hold : .completed job ∈ log := by simpa using hcompleted
      refine (hkept job hold).step fun r hr hserial hm => Or.inr ⟨r, ?_, hserial, hm⟩
      have hid : job.fullId ≠ id := by
        -- a request that is erased has no messages
        rintro rfl
        have hempty := stage_erasing (h job.fullId) hthread hr
        rw [hempty] at hm
        cases hm
      exact (Function.update_of_ne hid _ _).trans hr
  | @handleReturns job₀ jobs reply hjob =>
      have hold : .completed job ∈ log := by simpa using hcompleted
      have hmem : job₀ ∈ allJobs s.jobQueue := by simp [allJobs, hjob, JobQueue.current]
      obtain ⟨r, obj, hr, -⟩ := stage_job (h job₀.fullId) hmem
      obtain ⟨obj', hwrite, -⟩ := r.writeReply_eq job₀ reply
      have hserial : (r.writeReply job₀ reply).serial = r.serial := by rw [hwrite]
      refine (hkept job hold).update hr ?_ hserial ?_
      · simp [setRequest, hr]
      · rw [hwrite]
        exact List.Subset.refl _
  | @callbackQueued job₀ jobs r hjob hr =>
      rcases List.mem_append.mp hcompleted with hold | hnew
      · exact (hkept job hold).update hr rfl rfl (List.subset_append_left ..)
      · cases List.mem_singleton.mp hnew
        have hmem : job ∈ allJobs s.jobQueue := by simp [allJobs, hjob, JobQueue.current]
        obtain ⟨r', obj, hr', -, -, -, -, hserial, -⟩ := stage_job (h job.fullId) hmem
        obtain rfl := Option.some.inj (hr.symm.trans hr')
        exact Or.inr ⟨_, Function.update_self .., hserial.symm, by simp⟩
  | @callbackDropped job₀ jobs hjob hr =>
      have hmem : job₀ ∈ allJobs s.jobQueue := by simp [allJobs, hjob, JobQueue.current]
      obtain ⟨r, obj, hr', -⟩ := stage_job (h job₀.fullId) hmem
      rw [hr] at hr'
      cases hr'

/-! ## The run -/

/-- What holds in every run with a web server that follows the protocol,
and records that are read without leaving their memory. -/
structure Served (log : List (Event Id)) (s : System Id Class) : Prop where
  stage : ∀ id, Stage (view id log s)
  settled : Settled s
  fair : ∀ serial, Fair (outputs serial log)
  inTime : Machine.Justified InTime log
  kept : ∀ job, .completed job ∈ log → Kept log s job
  defined : s.thread ≠ .undefined

theorem served_init : Served ([] : List (Event Id)) ({} : System Id Class) where
  stage id := .closed rfl rfl rfl rfl rfl
  settled := ⟨by simp, by simp⟩
  fair serial := ⟨Nat.zero_le _, Nat.zero_le _, Nat.zero_le _⟩
  inTime := Machine.justified_nil _
  kept := by simp
  defined := by simp

theorem defined_step {s s' : System Id Class} {a : Act Id} (h : ∀ id, Stage (view id log s))
    (hreads : s.reads a) (hdefined : s.thread ≠ .undefined) (hstep : Step s a s' es) :
    s'.thread ≠ .undefined := by
  cases hstep with
  | @undefined id fails fresh r hthread hr hrole hundefined =>
      have htimely := timely_handle (timely_of_stage h (.handle fails fresh)) hthread hr
      have hm := Request.reads_undefined (reads_handle hreads hthread hr) hundefined
      simp [Request.timely, hrole, hm] at htimely
  | queue | opened | dropped | takeNone | jobs | handleReturns | callbackQueued | callbackDropped =>
      exact hdefined
  | take | keep | finished | scheduled | startReturns | erase | leave => simp

/-- What the server is to do: a request calls `response` at most twice and
writes at most one header block and one END_REQUEST; what `response_finish`
writes is the one reply of the request's own job; a completion that ran has
led to that answer, or is in the message queue of the request of its job
with a task for it; and no call of `handler` was undefined. -/
structure Serves (log : List (Event Id)) (s : System Id Class) : Prop where
  fair : ∀ serial, Fair (outputs serial log)
  inTime : Machine.Justified InTime log
  reply_unique : ∀ job reply reply', .returned job reply ∈ log → .returned job reply' ∈ log →
    reply = reply'
  kept : ∀ job, .completed job ∈ log →
    ((∃ method text, .output job.serial job.fullId (.wrote (.finish job.addr method) text) ∈ log)
      ∧ ∃ status killCon, .output job.serial job.fullId (.endRequest status killCon) ∈ log)
    ∨ ∃ r, s.requests job.fullId = some r ∧ r.serial = job.serial ∧ .callback job ∈ r.messages
      ∧ (job.fullId ∈ s.tasks ∨ s.thread = .handling job.fullId)
  defined : s.thread ≠ .undefined

end System

end Simurga
