import Simurga.WebServer

/-!
# The stages of a run

With `webServer` and `reads` as the guard of the runs every id is in one of
the stages of `View.Stage`, in every state: each step moves the id it is
about from one stage to the next (one lemma for each kind of step) and
leaves the other ones alone (`view_congr`), which makes `stage_step`.
-/

namespace Simurga

namespace System

open View

variable {Id Class : Type} {table : ObjectTable Class} {log es : List (Event Id)}

/-! ## Outputs -/

@[simp] theorem outputs_append (serial : Nat) (log es : List (Event Id)) :
    outputs serial (log ++ es) = outputs serial log ++ outputs serial es :=
  List.filterMap_append ..

theorem outputs_map (serial : Nat) (id : Id) (outs : List Output) :
    outputs serial (outs.map (Event.output serial id)) = outs := by
  simp [outputs, List.filterMap_map]

theorem outputs_map_ne {serial serial' : Nat} (h : serial ≠ serial') (id : Id)
    (outs : List Output) : outputs serial' (outs.map (Event.output serial id)) = [] := by
  simp [outputs, List.filterMap_map, h]

/-- The serial number of a request is not that of another one. -/
theorem outputs_other {s : System Id Class} {id id' : Id} {r : Request Id Class}
    (hknown : Known log s) (hr : s.requests id = some r) (hid : id' ≠ id) (outs : List Output) :
    ∀ r', s.requests id' = some r' →
      outputs r'.serial (outs.map (Event.output r.serial id)) = [] := by
  intro r' hr'
  exact outputs_map_ne (fun heq => hid (hknown.serial_inj hr' hr heq.symm)) id outs

/-! ## The guard -/

/-- When `handler` is called it does not leave its memory. -/
def reads (s : System Id Class) : Act Id → Bool
  | .handle _ _ =>
      match s.thread with
      | .handling id => (s.requests id).all Request.reads
      | _ => true
  | _ => true

theorem reads_handle {s : System Id Class} {fails : Bool} {fresh : Nat → UInt8} {id : Id}
    {r : Request Id Class} (h : s.reads (.handle fails fresh)) (hthread : s.thread = .handling id)
    (hr : s.requests id = some r) : r.reads := by
  simpa [reads, hthread, hr] using h

variable [DecidableEq Id]

/-- The phase of an id after one more event. -/
def phaseAfter (id : Id) (phase : Phase) : Event Id → Phase
  | .received id' record => if id' = id then (phase.send record).getD phase else phase
  | .output _ id' (.endRequest _ _) => if id' = id then .closed else phase
  | _ => phase

def phaseOf (id : Id) (log : List (Event Id)) : Phase := log.foldl (phaseAfter id) .closed

/-- The records of each id come in the order of the protocol. -/
def webServer (log : List (Event Id)) : Act Id → Bool
  | .receive id record => ((phaseOf id log).send record).isSome
  | _ => true

@[simp] theorem phaseOf_append (id : Id) (log es : List (Event Id)) :
    phaseOf id (log ++ es) = es.foldl (phaseAfter id) (phaseOf id log) :=
  List.foldl_append

theorem phaseAfter_outputs (serial : Nat) (id : Id) (phase : Phase) (outs : List Output) :
    (outs.map (Event.output serial id)).foldl (phaseAfter id) phase
      = if outs.any Output.isEnd then .closed else phase := by
  induction outs generalizing phase with
  | nil => rfl
  | cons o outs ih =>
      rw [List.map_cons, List.foldl_cons, List.any_cons, ih]
      cases o <;> simp [phaseAfter, Output.isEnd]

theorem phaseAfter_outputs_ne {id id' : Id} (hid : id' ≠ id) (serial : Nat) (phase : Phase)
    (outs : List Output) :
    (outs.map (Event.output serial id)).foldl (phaseAfter id') phase = phase := by
  induction outs generalizing phase with
  | nil => rfl
  | cons o outs ih =>
      rw [List.map_cons, List.foldl_cons, ih]
      cases o <;> simp [phaseAfter, hid.symm]

/-! ## One id -/

def placeOf (id : Id) : ManagerThread Id → Place
  | .handling id' => if id' = id then .handling else .elsewhere
  | .scheduled id' => if id' = id then .scheduled else .elsewhere
  | .erasing id' => if id' = id then .erasing else .elsewhere
  | .idle | .undefined | .left => .elsewhere

theorem placeOf_eq_handling {id : Id} {thread : ManagerThread Id}
    (h : placeOf id thread = .handling) : thread = .handling id := by
  cases thread with
  | handling id' =>
      by_cases hid : id' = id
      · rw [hid]
      · simp [placeOf, hid] at h
  | scheduled id' | erasing id' => by_cases hid : id' = id <;> simp [placeOf, hid] at h
  | idle | undefined | left => cases h

def jobsOf (id : Id) (q : JobQueue (Job Id)) : List (Job Id) :=
  (allJobs q).filter fun job => job.fullId = id

def view (id : Id) (log : List (Event Id)) (s : System Id Class) : View Id Class where
  request := s.requests id
  place := placeOf id s.thread
  waiting := s.tasks.count id
  jobs := jobsOf id s.jobQueue
  phase := phaseOf id log
  outputs := match s.requests id with
    | some r => outputs r.serial log
    | none => []

theorem view_idle {s : System Id Class} (h : s.thread = .idle) (id : Id) :
    (view id log s).place = .elsewhere := by
  simp [view, placeOf, h]

theorem view_handling {s : System Id Class} {id : Id} (h : s.thread = .handling id) :
    (view id log s).place = .handling := by
  simp [view, placeOf, h]

theorem view_scheduled {s : System Id Class} {id : Id} (h : s.thread = .scheduled id) :
    (view id log s).place = .scheduled := by
  simp [view, placeOf, h]

theorem view_erasing {s : System Id Class} {id : Id} (h : s.thread = .erasing id) :
    (view id log s).place = .erasing := by
  simp [view, placeOf, h]

/-- A step that does nothing to an id. -/
theorem view_congr {s s' : System Id Class} {id : Id} (hrequest : s'.requests id = s.requests id)
    (hplace : placeOf id s'.thread = placeOf id s.thread)
    (hwaiting : s'.tasks.count id = s.tasks.count id)
    (hjobs : jobsOf id s'.jobQueue = jobsOf id s.jobQueue)
    (hphase : es.foldl (phaseAfter id) (phaseOf id log) = phaseOf id log)
    (houtputs : ∀ r, s.requests id = some r → outputs r.serial es = []) :
    view id (log ++ es) s' = view id log s := by
  unfold view
  rw [hrequest, hplace, hwaiting, hjobs, phaseOf_append, hphase]
  cases hr : s.requests id with
  | none => rfl
  | some r => simp [houtputs r hr]

/-! ## What a step does to the stages -/

/-- A record for a request that is being read. -/
theorem stage_queue {s : System Id Class} {id : Id} {record : Record} {r : Request Id Class}
    (h : Stage (view id log s)) (hweb : webServer log (.receive id record))
    (hthread : s.thread = .idle) (hr : s.requests id = some r) :
    Stage (view id (log ++ [.received id record])
      { s.setRequest id (some { r with messages := r.messages ++ [.record record] }) with
        tasks := s.tasks ++ [id] }) := by
  obtain ⟨next, hnext⟩ : ∃ next, (phaseOf id log).send record = some next :=
    Option.isSome_iff_exists.mp hweb
  have hended : (view id log s).phase ≠ .ended := by
    intro hphase
    rw [show phaseOf id log = .ended from hphase] at hnext
    cases hnext
  have hplace : (view id log s).place = .elsewhere := view_idle hthread id
  have hview : view id (log ++ [.received id record])
      { s.setRequest id (some { r with messages := r.messages ++ [.record record] }) with
        tasks := s.tasks ++ [id] }
      = { view id log s with
          request := some { r with messages := r.messages ++ [.record record] }
          waiting := (view id log s).waiting + 1, phase := next } := by
    simp [view, setRequest, hr, phaseAfter, hnext, outputs]
  rw [hview]
  cases h with
  | closed hrequest => rw [show s.requests id = none from hrequest] at hr; cases hr
  | running _ _ _ _ _ _ hphase => exact absurd hphase hended
  | completing _ _ _ _ _ _ hphase => exact absurd hphase hended
  | answered _ herasing => rw [hplace] at herasing; cases herasing
  | reading hrequest _ hrole hobj hstart hstate hfilled hsent hcalls hjobs houtputs =>
      obtain rfl := Option.some.inj (hr.symm.trans hrequest)
      refine .reading rfl (Or.inl hplace) hrole hobj hstart hstate hfilled ?_ ?_ hjobs houtputs
      · show r.phase.sendAll (r.messages ++ [.record record]) = some next
        rw [Phase.sendAll_concat, hsent]
        exact hnext
      · simp only [calls, hplace] at hcalls ⊢
        simp at hcalls ⊢
        exact hcalls

/-- A new request. -/
theorem stage_opened {s : System Id Class} {id : Id} {role : Nat} {keepConn : Bool}
    (hknown : Known log s) (h : Stage (view id log s))
    (hweb : webServer log (.receive id (.beginRequest role keepConn))) (hr : s.requests id = none) :
    Stage (view id (log ++ [.received id (.beginRequest role keepConn), .opened s.next id])
      { s.setRequest id (some { serial := s.next, role, killCon := !keepConn }) with
        next := s.next + 1 }) := by
  cases h with
  | reading hrequest | running hrequest | completing hrequest | answered hrequest =>
      rw [show s.requests id = some _ from hrequest] at hr
      cases hr
  | closed hrequest hplace hwaiting hjobs hphase =>
      replace hphase : phaseOf id log = .closed := hphase
      have hrole : role = 1 := by
        simp only [webServer, hphase, Phase.send] at hweb
        split at hweb
        · assumption
        · cases hweb
      have hfresh : outputs s.next log = [] := by
        refine List.filterMap_eq_nil_iff.mpr fun e he => ?_
        cases e with
        | output serial id' o =>
            have hlt := hknown.output_lt he
            exact if_neg (Nat.ne_of_lt hlt)
        | opened | received | scheduled | returned | completed => rfl
      subst hrole
      refine .reading (r := { serial := s.next, role := 1, killCon := !keepConn }) ?_ (Or.inl hplace)
        rfl rfl rfl (by simp) (fun _ => rfl) ?_ ?_ hjobs ?_
      · simp [view, setRequest]
      · simp [view, hphase, phaseAfter, Phase.send, Phase.sendAll, Request.phase]
      · have hwaiting' : s.tasks.count id = 0 := hwaiting
        have hplace' : placeOf id s.thread = .elsewhere := hplace
        simp [calls, view, setRequest, hwaiting', hplace']
      · simp only [view, setRequest, Function.update_self, outputs_append, hfresh, List.nil_append]
        rfl

/-- The next task, for a request that is in the table. -/
theorem stage_take {s : System Id Class} {id : Id} {tasks : List Id} {r : Request Id Class}
    (h : Stage (view id log s)) (hthread : s.thread = .idle) (htasks : s.tasks = id :: tasks)
    (hr : s.requests id = some r) :
    Stage (view id (log ++ []) { s with tasks, thread := .handling id }) := by
  have hwaiting : (view id log s).waiting = tasks.count id + 1 := by
    simp [view, htasks]
  have hplace : (view id log s).place = .elsewhere := view_idle hthread id
  have hview : view id (log ++ []) { s with tasks, thread := .handling id }
      = { view id log s with place := .handling, waiting := tasks.count id } := by
    simp [view, placeOf]
  have hcalls : ∀ n, (view id log s).calls = n →
      calls { view id log s with place := .handling, waiting := tasks.count id } = n := by
    intro n hn
    simp [calls, hplace, hwaiting] at hn ⊢
    exact hn
  rw [hview]
  cases h with
  | closed hrequest => rw [show s.requests id = none from hrequest] at hr; cases hr
  | running _ _ _ _ _ _ _ _ hzero => rw [hwaiting] at hzero; cases hzero
  | answered _ _ _ _ hzero => rw [hwaiting] at hzero; cases hzero
  | reading hrequest _ hrole hobj hstart hstate hfilled hsent hn hjobs houtputs =>
      exact .reading hrequest (Or.inr rfl) hrole hobj hstart hstate hfilled hsent (hcalls _ hn) hjobs
        houtputs
  | completing hrequest _ hfinish hrole hobj hstate hphase hmessages hn hjobs houtputs =>
      rw [hplace] at hfinish
      exact .completing hrequest (by simp) (Or.inr (hfinish.resolve_left (by simp))) hrole hobj hstate
        hphase hmessages (hcalls _ hn) hjobs houtputs

/-- A task is never left over. -/
theorem stage_no_tasks {s : System Id Class} {id : Id} (h : Stage (view id log s))
    (hr : s.requests id = none) : id ∉ s.tasks := by
  cases h with
  | closed _ _ hwaiting => exact List.count_eq_zero.mp hwaiting
  | reading hrequest | running hrequest | completing hrequest | answered hrequest =>
      rw [show s.requests id = some _ from hrequest] at hr
      cases hr

/-- What `handler` comes to, in the stage of its request. -/
theorem stage_handlerEnds {s : System Id Class} {id : Id} {fails : Bool} {fresh : Nat → UInt8}
    {r r' : Request Id Class} {outs : List Output} {verdict : Verdict Id}
    (h : Stage (view id log s)) (hreads : s.reads (.handle fails fresh))
    (hthread : s.thread = .handling id) (hr : s.requests id = some r)
    (hhandled : r.Handled id s.next r' outs verdict) :
    HandlerEnds (view id log s) r r' outs verdict :=
  h.handled hr (view_handling hthread) (reads_handle hreads hthread hr) hhandled

theorem stage_keep {s : System Id Class} {id : Id} {r r' : Request Id Class} {outs : List Output}
    (h : HandlerEnds (view id log s) r r' outs .keep) (hr : s.requests id = some r)
    (hserial : r'.serial = r.serial) :
    Stage (view id (log ++ outs.map (.output r.serial id))
      { s.setRequest id (some r') with thread := .idle }) := by
  cases h with
  | keep _ h =>
      have hview : view id (log ++ [].map (.output r.serial id))
          { s.setRequest id (some r') with thread := .idle }
          = { view id log s with request := some r', place := .elsewhere } := by
        simp [view, setRequest, hr, hserial, placeOf]
      rw [hview]
      exact h

theorem stage_finished {s : System Id Class} {id : Id} {r r' : Request Id Class}
    {outs : List Output} (h : HandlerEnds (view id log s) r r' outs .erase) :
    Stage (view id (log ++ outs.map (.output r.serial id))
      { s.setRequest id (some r') with thread := .erasing id }) := by
  cases h with
  | erase hmessages hwaiting hjobs hend =>
      refine .answered (r := r') ?_ ?_ hmessages ?_ hwaiting hjobs
      · simp [view, setRequest]
      · simp [view, placeOf]
      · show phaseOf id _ = .closed
        rw [phaseOf_append, phaseAfter_outputs, if_pos hend]

theorem stage_scheduled {s : System Id Class} {id : Id} {r r' : Request Id Class}
    {outs : List Output} {job : Job Id} (h : HandlerEnds (view id log s) r r' outs (.scheduled job))
    (hr : s.requests id = some r) (hserial : r'.serial = r.serial) (hid : job.fullId = id) :
    Stage (view id (log ++ (outs.map (.output r.serial id) ++ [.scheduled job]))
      { s.setRequest id (some r') with
        thread := .scheduled id, jobQueue := s.jobQueue.add job, next := s.next + 1 }) := by
  cases h with
  | scheduled _ hnone hjobs h =>
      have hnone' : outputs r.serial log = [] := by
        simpa [view, hr] using hnone
      have hjobs' : (allJobs s.jobQueue).filter (fun job => job.fullId = id) = [] := hjobs
      have hview : view id (log ++ ([.response .output].map (.output r.serial id) ++ [.scheduled job]))
          { s.setRequest id (some r') with
            thread := .scheduled id, jobQueue := s.jobQueue.add job, next := s.next + 1 }
          = { view id log s with
              request := some r', place := .scheduled, jobs := [job]
              outputs := [.response .output] } := by
        simp [view, setRequest, hserial, placeOf, jobsOf, allJobs_add, List.filter_append, hjobs', hid,
          hnone', phaseAfter]
        simp [outputs]
      rw [hview]
      exact h

theorem stage_startReturns {s : System Id Class} {id : Id} {r : Request Id Class}
    (h : Stage (view id log s)) (hthread : s.thread = .scheduled id)
    (hr : s.requests id = some r) :
    Stage (view id (log ++ [])
      { s.setRequest id (some { r with state_ := .finish }) with thread := .idle }) := by
  have hplace : (view id log s).place = .scheduled := view_scheduled hthread
  have hview : view id (log ++ [])
      { s.setRequest id (some { r with state_ := .finish }) with thread := .idle }
      = { view id log s with request := some { r with state_ := .finish }, place := .elsewhere } := by
    simp [view, setRequest, hr, placeOf]
  rw [hview]
  cases h with
  | closed hrequest => rw [show s.requests id = none from hrequest] at hr; cases hr
  | reading _ hplace' => rw [hplace] at hplace'; simp at hplace'
  | answered _ hplace' => rw [hplace] at hplace'; cases hplace'
  | running hrequest _ hrole hobj hstate hserial hphase hmessages hwaiting hjobs houtputs =>
      obtain rfl := Option.some.inj (hr.symm.trans hrequest)
      exact .running rfl (Or.inr ⟨rfl, rfl⟩) hrole hobj hstate hserial hphase hmessages hwaiting hjobs
        houtputs
  | completing hrequest _ _ hrole hobj hstate hphase hmessages hcalls hjobs houtputs =>
      obtain rfl := Option.some.inj (hr.symm.trans hrequest)
      refine .completing rfl (by simp) (Or.inr rfl) hrole hobj hstate hphase hmessages ?_ hjobs houtputs
      simp only [calls, hplace] at hcalls ⊢
      simp at hcalls ⊢
      exact hcalls

theorem stage_erase {s : System Id Class} {id : Id} (h : Stage (view id log s))
    (hthread : s.thread = .erasing id) :
    Stage (view id (log ++ []) { s.setRequest id none with thread := .idle }) := by
  have hplace : (view id log s).place = .erasing := view_erasing hthread
  cases h with
  | closed _ hplace' => rw [hplace] at hplace'; cases hplace'
  | reading _ hplace' => rw [hplace] at hplace'; simp at hplace'
  | running _ hplace' => rw [hplace] at hplace'; simp at hplace'
  | completing _ hplace' => exact absurd hplace hplace'
  | answered _ _ _ hphase hwaiting hjobs =>
      refine .closed ?_ rfl hwaiting hjobs ?_
      · simp [view, setRequest]
      · simpa [view] using hphase

/-- A job in the queue is that of a running request. -/
theorem stage_job {s : System Id Class} {job : Job Id} (h : Stage (view job.fullId log s))
    (hjob : job ∈ allJobs s.jobQueue) :
    ∃ r obj, s.requests job.fullId = some r
      ∧ (placeOf job.fullId s.thread = .scheduled
        ∨ placeOf job.fullId s.thread = .elsewhere ∧ r.state_ = .finish)
      ∧ r.role = 1 ∧ r.httpObject = some (job.addr, obj) ∧ r.state = .output
      ∧ job.serial = r.serial ∧ phaseOf job.fullId log = .ended ∧ r.messages = []
      ∧ s.tasks.count job.fullId = 0 ∧ jobsOf job.fullId s.jobQueue = [job]
      ∧ outputs r.serial log = [.response .output] := by
  have hmem : job ∈ (view job.fullId log s).jobs :=
    List.mem_filter.mpr ⟨hjob, decide_eq_true rfl⟩
  cases h with
  | closed _ _ _ hjobs => rw [hjobs] at hmem; cases hmem
  | reading _ _ _ _ _ _ _ _ _ hjobs => rw [hjobs] at hmem; cases hmem
  | completing _ _ _ _ _ _ _ _ _ hjobs => rw [hjobs] at hmem; cases hmem
  | answered _ _ _ _ _ hjobs => rw [hjobs] at hmem; cases hmem
  | @running r job' obj hrequest hplace hrole hobj hstate hserial hphase hmessages hwaiting hjobs
      houtputs =>
      rw [hjobs] at hmem
      obtain rfl := List.mem_singleton.mp hmem
      replace hrequest : s.requests job.fullId = some r := hrequest
      refine ⟨r, obj, hrequest, hplace, hrole, hobj, hstate, hserial, hphase, hmessages, hwaiting,
        hjobs, ?_⟩
      simpa [view, hrequest] using houtputs

theorem stage_handleReturns {s : System Id Class} {job : Job Id} {jobs : List (Job Id)}
    {reply : Reply} (h : Stage (view job.fullId log s)) (hjob : s.jobQueue.thread = .first job jobs) :
    Stage (view job.fullId (log ++ [.returned job reply])
      { s.setRequest job.fullId ((s.requests job.fullId).map (·.writeReply job reply)) with
        jobQueue := { s.jobQueue with thread := .second job jobs } }) := by
  have hmem : job ∈ allJobs s.jobQueue := by simp [allJobs, hjob, JobQueue.current]
  obtain ⟨r, obj, hr, hplace, hrole, hobj, hstate, hserial, hphase, hmessages, hwaiting, hjobs,
    houtputs⟩ := stage_job h hmem
  have hwrite : r.writeReply job reply = { r with httpObject := some (job.addr, obj.write reply) } := by
    simp [Request.writeReply, hobj]
  refine .running (r := { r with httpObject := some (job.addr, obj.write reply) }) ?_
    hplace hrole rfl hstate hserial ?_ hmessages hwaiting ?_ ?_
  · simp [view, setRequest, hr, hwrite]
  · simpa [view, phaseAfter] using hphase
  · simpa [view, jobsOf, allJobs_first hjob] using hjobs
  · simp [view, setRequest, hr, hwrite, houtputs]
    rfl

theorem stage_callback {s : System Id Class} {job : Job Id} {jobs : List (Job Id)}
    {r : Request Id Class} (h : Stage (view job.fullId log s))
    (hjob : s.jobQueue.thread = .second job jobs) (hr : s.requests job.fullId = some r) :
    Stage (view job.fullId (log ++ [.completed job])
      { s.setRequest job.fullId (some { r with messages := r.messages ++ [.callback job] }) with
        jobQueue := { s.jobQueue with thread := .batch jobs }
        tasks := s.tasks ++ [job.fullId] }) := by
  have hmem : job ∈ allJobs s.jobQueue := by simp [allJobs, hjob, JobQueue.current]
  obtain ⟨r', obj, hr', hplace, hrole, hobj, hstate, hserial, hphase, hmessages, hwaiting, hjobs,
    houtputs⟩ := stage_job h hmem
  obtain rfl := Option.some.inj (hr.symm.trans hr')
  have hrest : jobsOf job.fullId { s.jobQueue with thread := .batch jobs } = [] := by
    simpa [jobsOf, allJobs_second hjob] using hjobs
  refine .completing (r := { r with messages := r.messages ++ [.callback job] }) ?_ ?_ ?_
    hrole hobj hstate ?_ ?_ ?_ hrest ?_
  · simp [view, setRequest]
  · show placeOf job.fullId s.thread ≠ .erasing
    rcases hplace with hplace | ⟨hplace, -⟩ <;> simp [hplace]
  · exact hplace.imp_right And.right
  · simpa [view, phaseAfter] using hphase
  · simp [hmessages]
  · have hplace' : placeOf job.fullId s.thread ≠ .handling := by
      rcases hplace with hplace | ⟨hplace, -⟩ <;> simp [hplace]
    simp [calls, view, setRequest, hwaiting, hplace']
  · simp [view, setRequest, houtputs]
    rfl

/-- A step moves one id, and every other one keeps its view. -/
theorem stage_of {s s' : System Id Class} {id : Id} (hmoved : Stage (view id (log ++ es) s'))
    (h : ∀ id, Stage (view id log s))
    (hothers : ∀ id', id' ≠ id → view id' (log ++ es) s' = view id' log s) (id' : Id) :
    Stage (view id' (log ++ es) s') := by
  by_cases hid : id' = id
  · rw [hid]
    exact hmoved
  · rw [hothers id' hid]
    exact h id'

theorem stage_step {s s' : System Id Class} {a : Act Id} (hknown : Known log s)
    (h : ∀ id, Stage (view id log s)) (hweb : webServer log a) (hreads : s.reads a)
    (hstep : Step s a s' es) : ∀ id, Stage (view id (log ++ es) s') := by
  cases hstep with
  | @queue id record r hthread hr =>
      refine stage_of (stage_queue (h id) hweb hthread hr) h fun id' hid => ?_
      refine view_congr (Function.update_of_ne hid _ _) rfl ?_ rfl ?_ fun _ _ => rfl
      · simp [List.count_append, Ne.symm hid]
      · simp [phaseAfter, Ne.symm hid]
  | @opened id role keepConn hthread hr =>
      refine stage_of (stage_opened hknown (h id) hweb hr) h fun id' hid => ?_
      refine view_congr (Function.update_of_ne hid _ _) rfl rfl rfl ?_ fun _ _ => rfl
      simp [phaseAfter, Ne.symm hid]
  | @dropped id record hthread hr hrecord =>
      -- the web server sends nothing that is dropped
      exfalso
      cases h id with
      | closed _ _ _ _ hphase =>
          simp only [webServer, show phaseOf id log = .closed from hphase] at hweb
          cases record with
          | beginRequest role keepConn => exact hrecord role keepConn rfl
          | params | input | abortRequest | other => cases hweb
      | reading hrequest | running hrequest | completing hrequest | answered hrequest =>
          rw [show s.requests id = some _ from hrequest] at hr
          cases hr
  | @take id tasks r hthread htasks hr =>
      refine stage_of (stage_take (h id) hthread htasks hr) h fun id' hid => ?_
      refine view_congr rfl ?_ ?_ rfl rfl fun _ _ => rfl
      · simp [placeOf, hthread, Ne.symm hid]
      · simp [htasks, Ne.symm hid]
  | @takeNone id tasks hthread htasks hr =>
      exact absurd (htasks ▸ List.mem_cons_self ..) (stage_no_tasks (h id) hr)
  | @undefined id fails fresh r hthread hr hrole hundefined =>
      exfalso
      have hm := Request.reads_undefined (reads_handle hreads hthread hr) hundefined
      rcases (h id).called hr (view_handling hthread) with
        ⟨record, ms, next, hm', -⟩ | ⟨job, obj, hm', -⟩ <;> rw [hm] at hm' <;> cases hm'
  | @keep id fails fresh r r' outs hthread hr hhandled =>
      have hends := stage_handlerEnds (h id) hreads hthread hr hhandled
      refine stage_of (stage_keep hends hr hhandled.keeps.1) h fun id' hid => ?_
      refine view_congr (Function.update_of_ne hid _ _) ?_ rfl rfl (phaseAfter_outputs_ne hid ..)
        (outputs_other hknown hr hid outs)
      simp [placeOf, hthread, Ne.symm hid]
  | @finished id fails fresh r r' outs hthread hr hhandled =>
      have hends := stage_handlerEnds (h id) hreads hthread hr hhandled
      refine stage_of (stage_finished hends) h fun id' hid => ?_
      refine view_congr (Function.update_of_ne hid _ _) ?_ rfl rfl (phaseAfter_outputs_ne hid ..)
        (outputs_other hknown hr hid outs)
      simp [placeOf, hthread, Ne.symm hid]
  | @scheduled id fails fresh r r' outs job hthread hr hhandled =>
      have hends := stage_handlerEnds (h id) hreads hthread hr hhandled
      have hjob : job.fullId = id := (handled_scheduled hhandled).2.2.1
      refine stage_of (stage_scheduled hends hr hhandled.keeps.1 hjob) h fun id' hid => ?_
      refine view_congr (Function.update_of_ne hid _ _) ?_ rfl ?_ ?_ fun r₂ hr₂ => ?_
      · simp [placeOf, hthread, Ne.symm hid]
      · simp [jobsOf, allJobs_add, List.filter_append, hjob, Ne.symm hid]
      · rw [List.foldl_append, phaseAfter_outputs_ne hid]
        rfl
      · rw [outputs_append, outputs_other hknown hr hid outs r₂ hr₂]
        rfl
  | @startReturns id r hthread hr =>
      refine stage_of (stage_startReturns (h id) hthread hr) h fun id' hid => ?_
      refine view_congr (Function.update_of_ne hid _ _) ?_ rfl rfl rfl fun _ _ => rfl
      simp [placeOf, hthread, Ne.symm hid]
  | @erase id hthread =>
      refine stage_of (stage_erase (h id) hthread) h fun id' hid => ?_
      refine view_congr (Function.update_of_ne hid _ _) ?_ rfl rfl rfl fun _ _ => rfl
      simp [placeOf, hthread, Ne.symm hid]
  | leave hthread =>
      intro id
      have hview : view id (log ++ []) { s with thread := .left } = view id log s :=
        view_congr rfl (by simp [placeOf, hthread]) rfl rfl rfl fun _ _ => rfl
      rw [hview]
      exact h id
  | @jobs a act q qes hact hq =>
      intro id
      have hjobs : jobsOf id q = jobsOf id s.jobQueue := by
        simp [jobsOf, (jobs_of_runsNothing hact hq).1]
      have hview : view id (log ++ []) { s with jobQueue := q } = view id log s :=
        view_congr rfl rfl rfl hjobs rfl fun _ _ => rfl
      rw [hview]
      exact h id
  | @handleReturns job jobs reply hjob =>
      refine stage_of (stage_handleReturns (h job.fullId) hjob) h fun id' hid => ?_
      refine view_congr (Function.update_of_ne hid _ _) rfl rfl ?_ rfl fun _ _ => rfl
      simp [jobsOf, allJobs_first hjob]
  | @callbackQueued job jobs r hjob hr =>
      refine stage_of (stage_callback (h job.fullId) hjob hr) h fun id' hid => ?_
      refine view_congr (Function.update_of_ne hid _ _) rfl ?_ ?_ rfl fun _ _ => rfl
      · simp [List.count_append, Ne.symm hid]
      · simp [jobsOf, allJobs_second hjob, Ne.symm hid]
  | @callbackDropped job jobs hjob hr =>
      have hmem : job ∈ allJobs s.jobQueue := by simp [allJobs, hjob, JobQueue.current]
      obtain ⟨r, obj, hr', -⟩ := stage_job (h job.fullId) hmem
      rw [hr] at hr'
      cases hr'

end System

end Simurga
