import Simurga.ManagerOwner

/-!
# Objects that are gone

The job holds `http_object_.get()` while the request is the only owner of
the object, and the object holds a reference to the environment of the
request. As long as no request with an unfinished job is handed a message
that ends it, every job in the queue refers to an object of a request in
the table (`jobs_owned`). Nothing in the code sees to that: in
`job_of_aborted_request` the request is erased at an ABORT_REQUEST while
its job waits.
-/

namespace Simurga

variable {Id Class : Type} {table : ObjectTable Class}

namespace Request

/-- The next message leaves the request and its object as they are. -/
def spares (r : Request Id Class) : Bool :=
  match r.messages with
  | .record (.beginRequest _ _) :: _ | .record .other :: _ => true
  | .record (.params content padding) :: _ =>
      r.state = .params && (content = [] || Environment.Reads content padding)
  | .record (.input content) :: _ =>
      r.state = .input && content ≠ [] && r.postFilled < r.environment.contentLength.toNat
  | .record .abortRequest :: _ | .callback _ :: _ | [] => false

theorem Handled.spared {id : Id} {addr : Nat} {r r' : Request Id Class} {outs : List Output}
    {verdict : Verdict Id} (h : r.Handled id addr r' outs verdict)
    (hrole : r.role = 1 ∨ r.role = 2) (hspares : r.spares) :
    verdict = .keep ∧ r'.httpObject = r.httpObject := by
  cases h with
  | badRole hbad => exact absurd hrole hbad
  | paramsEnd | params | input | ignored => exact ⟨rfl, rfl⟩
  | @fillThrows _ content padding _ hm hstate hcontent hfill =>
      have hreads : Environment.Reads content padding := by
        simpa [spares, hm, hstate, hcontent] using hspares
      obtain ⟨environment, hvalue⟩ := hreads.fill r.environment
      rw [hfill] at hvalue
      cases hvalue
  | bigPost hm hstate hcontent hb hfill =>
      rw [fillPostBuffer_eq_none hcontent, hb] at hfill
      simp [spares, hm, Nat.not_lt.mpr hfill] at hspares
  | inputEnd _ hm => simp [spares, hm] at hspares
  | unknownContentType hm => simp [spares, hm] at hspares
  | outOfOrder hm horder =>
      rcases horder with ⟨⟨content, padding, rfl⟩, hstate⟩ | ⟨⟨content, rfl⟩, hstate⟩ <;>
        simp [spares, hm, hstate] at hspares
  | abort hm => simp [spares, hm] at hspares
  | callback _ hm => simp [spares, hm] at hspares

end Request

namespace System

variable {log es : List (Event Id)}

/-- The object of the job, and through it the environment, belong to a
request in the table. -/
def JobOwned (s : System Id Class) (job : Job Id) : Prop :=
  ∃ r obj, s.requests job.fullId = some r ∧ r.serial = job.serial
    ∧ r.httpObject = some (job.addr, obj)

/-- A request whose object an unfinished job refers to is called only with
a message that spares it. -/
def spared (s : System Id Class) : Act Id → Bool
  | .handle _ _ =>
      match s.thread with
      | .handling id => (s.requests id).all fun r =>
          r.spares || (unfinished s.jobQueue).all fun job => r.httpObject.map Prod.fst ≠ some job.addr
      | _ => true
  | _ => true

theorem spared_handle {s : System Id Class} {fails : Bool} {fresh : Nat → UInt8} {id : Id}
    {r : Request Id Class} (h : s.spared (.handle fails fresh)) (hthread : s.thread = .handling id)
    (hr : s.requests id = some r) {job : Job Id} (hjob : job ∈ unfinished s.jobQueue)
    {obj : HttpObject Class} (hobj : r.httpObject = some (job.addr, obj)) : r.spares := by
  simp only [spared, hthread, hr, Option.all_some, Bool.or_eq_true] at h
  refine h.resolve_right fun hall => ?_
  have := List.all_eq_true.mp hall job hjob
  simp [hobj] at this

variable [DecidableEq Id]

theorem JobOwned.of_ne {s s' : System Id Class} {job : Job Id} {id : Id}
    {v : Option (Request Id Class)} (h : JobOwned s job) (hne : job.fullId ≠ id)
    (hrequests : s'.requests = Function.update s.requests id v) : JobOwned s' job := by
  obtain ⟨r, obj, hr, hserial, hobj⟩ := h
  refine ⟨r, obj, ?_, hserial, hobj⟩
  rw [hrequests, Function.update_of_ne hne, hr]

/-- A step that changes what a request holds, but not which object. -/
theorem JobOwned.update {s s' : System Id Class} {job : Job Id} {id : Id}
    {r r' : Request Id Class} (h : JobOwned s job) (hr : s.requests id = some r)
    (hrequests : s'.requests = Function.update s.requests id (some r'))
    (hserial : r'.serial = r.serial) (haddr : r'.httpObject.map Prod.fst = r.httpObject.map Prod.fst) :
    JobOwned s' job := by
  by_cases hid : job.fullId = id
  · obtain ⟨r₀, obj, hr₀, hserial₀, hobj⟩ := h
    rw [hid, hr] at hr₀
    cases hr₀
    rw [hobj] at haddr
    obtain ⟨⟨addr, obj'⟩, hobj', rfl⟩ := Option.map_eq_some_iff.mp haddr
    refine ⟨r', obj', ?_, hserial.trans hserial₀, hobj'⟩
    rw [hrequests, hid, Function.update_self]
  · exact h.of_ne hid hrequests

/-- The jobs are owned, and by requests that are not about to be erased. -/
def Spared (s : System Id Class) : Prop :=
  ∀ job ∈ unfinished s.jobQueue, JobOwned s job ∧ s.thread ≠ .erasing job.fullId

theorem spared_step {s s' : System Id Class} {a : Act Id} (hknown : Known log s) (h : Spared s)
    (hspared : s.spared a) (hstep : Step s a s' es) : Spared s' := by
  -- a request that owns an unfinished job survives its call of `handler`
  have hsurvives : ∀ {id fails fresh r r' outs verdict job}, a = .handle fails fresh →
      s.thread = .handling id → s.requests id = some r → r.Handled id s.next r' outs verdict →
      job ∈ unfinished s.jobQueue → job.fullId = id →
      verdict = .keep ∧ r'.httpObject = r.httpObject := by
    rintro id fails fresh r r' outs verdict job rfl hthread hr hhandled hjob rfl
    obtain ⟨⟨r₀, obj, hr₀, -, hobj⟩, -⟩ := h job hjob
    rw [hr] at hr₀
    cases hr₀
    exact hhandled.spared ((hknown.owned hr).role (by simp [hobj]))
      (spared_handle hspared hthread hr hjob hobj)
  cases hstep with
  | queue hthread hr =>
      intro job hjob
      exact ⟨(h job hjob).1.update hr rfl rfl rfl, by simp [setRequest, hthread]⟩
  | opened hthread hr =>
      intro job hjob
      have howned := (h job hjob).1
      refine ⟨howned.of_ne ?_ rfl, by simp [setRequest, hthread]⟩
      rintro rfl
      obtain ⟨r, obj, hr', -⟩ := howned
      rw [hr] at hr'
      cases hr'
  | dropped => exact h
  | takeNone => exact h
  | take | undefined | leave =>
      intro job hjob
      exact ⟨(h job hjob).1, by simp⟩
  | jobs hact hq =>
      intro job hjob
      rw [(jobs_of_runsNothing hact hq).2.1] at hjob
      exact h job hjob
  | @keep id fails fresh r r' outs hthread hr hhandled =>
      intro job hjob
      refine ⟨?_, by simp⟩
      by_cases hid : job.fullId = id
      · have hobj := (hsurvives rfl hthread hr hhandled hjob hid).2
        exact (h job hjob).1.update hr rfl hhandled.keeps.1 (by rw [hobj])
      · exact (h job hjob).1.of_ne hid rfl
  | @finished id fails fresh r r' outs hthread hr hhandled =>
      intro job hjob
      have hid : job.fullId ≠ id := by
        intro hid
        cases (hsurvives rfl hthread hr hhandled hjob hid).1
      exact ⟨(h job hjob).1.of_ne hid rfl, fun hthread => hid (ManagerThread.erasing.inj hthread).symm⟩
  | @scheduled id fails fresh r r' outs job₀ hthread hr hhandled =>
      intro job hjob
      refine ⟨?_, by simp⟩
      rw [show (unfinished (s.jobQueue.add job₀) = _) from unfinished_add s.jobQueue job₀,
        List.mem_append, List.mem_singleton] at hjob
      rcases hjob with hjob | rfl
      · have hid : job.fullId ≠ id := by
          intro hid
          cases (hsurvives rfl hthread hr hhandled hjob hid).1
        exact (h job hjob).1.of_ne hid rfl
      · obtain ⟨haddr, hserial, rfl, obj, hobj⟩ := handled_scheduled hhandled
        exact ⟨r', obj, Function.update_self .., hhandled.keeps.1.trans hserial.symm, haddr ▸ hobj⟩
  | startReturns hthread hr =>
      intro job hjob
      exact ⟨(h job hjob).1.update hr rfl rfl rfl, by simp⟩
  | @erase id hthread =>
      intro job hjob
      obtain ⟨howned, hkeep⟩ := h job hjob
      refine ⟨howned.of_ne ?_ rfl, by simp⟩
      rintro rfl
      exact hkeep hthread
  | @handleReturns job₀ jobs reply hjob₀ =>
      intro job hjob
      have hmem : ∀ {job}, job ∈ unfinished { s.jobQueue with thread := .second job₀ jobs } →
          job ∈ unfinished s.jobQueue := by
        intro job hjob
        rw [unfinished_first hjob₀]
        exact List.mem_cons_of_mem _ hjob
      obtain ⟨howned, hkeep⟩ := h job (hmem hjob)
      refine ⟨?_, hkeep⟩
      cases hr : s.requests job₀.fullId with
      | none =>
          refine howned.of_ne ?_ rfl
          intro hid
          obtain ⟨r, obj, hr', -⟩ := howned
          rw [hid, hr] at hr'
          cases hr'
      | some r =>
          obtain ⟨obj, hwrite, haddr⟩ := r.writeReply_eq job₀ reply
          have hserial : (r.writeReply job₀ reply).serial = r.serial := by rw [hwrite]
          have haddr' : (r.writeReply job₀ reply).httpObject.map Prod.fst
              = r.httpObject.map Prod.fst := by rw [hwrite, haddr]
          exact howned.update hr rfl hserial haddr'
  | callbackQueued hjob₀ hr =>
      intro job hjob
      rw [show (unfinished { s.jobQueue with thread := .batch _ } = _) from unfinished_second hjob₀]
        at hjob
      obtain ⟨howned, hkeep⟩ := h job hjob
      exact ⟨howned.update hr rfl rfl rfl, hkeep⟩
  | callbackDropped hjob₀ hr =>
      intro job hjob
      rw [show (unfinished { s.jobQueue with thread := .batch _ } = _) from unfinished_second hjob₀]
        at hjob
      exact h job hjob

/-- In every run that spares the requests with unfinished jobs: a job that
waits or runs refers to an object of a request in the table. -/
theorem jobs_owned {s : System Id Class}
    (h : Machine.Reach (step table) (fun _ s a => s.spared a) {} log s) :
    ∀ job ∈ unfinished s.jobQueue, JobOwned s job := by
  have hspared : Spared s := by
    refine h.invariant_of Known (fun _ s => Spared s) known ?_ ?_
    · intro job hjob
      simp [unfinished, handling, JobQueue.rest] at hjob
    · intro log es s s' a hknown hinv hok hstep
      exact spared_step hknown hinv hok (step_cases hstep)
  exact fun job hjob => (hspared job hjob).1

/-- A job waits while its request is given a record of no consequence. -/
theorem jobs_owned_sample : ∃ s : System Nat ObjectClass,
    ⟨1, [], 7, 0⟩ ∈ unfinished s.jobQueue ∧ ∀ job ∈ unfinished s.jobQueue, JobOwned s job := by
  obtain ⟨log, s, hreach, hmem⟩ := Machine.exists_reach_of_run (step standardTable)
    (fun _ s a => s.spared a) {} (getRequest 7 (bytes "/contacts") ++ readRecord 7 .other)
    (fun _ s => ⟨1, [], 7, 0⟩ ∈ unfinished s.jobQueue) (by decide +kernel)
  exact ⟨s, of_decide_eq_true hmem, jobs_owned hreach⟩

/-- The request is aborted and erased; its job is still in `queue_`. -/
theorem job_of_aborted_request : ∃ (log : List (Event Nat)) (s : System Nat ObjectClass),
    Machine.Reach (step standardTable) Machine.anyOrder {} log s
      ∧ ¬ ∀ job ∈ unfinished s.jobQueue, JobOwned s job := by
  obtain ⟨log, s, hreach, hs⟩ := Machine.exists_reach_of_run (step standardTable) Machine.anyOrder {}
    (getRequest 7 (bytes "/contacts") ++ readRecord 7 .abortRequest ++ [.erase])
    (fun _ s => (s.requests 7).isNone && ⟨1, [], 7, 0⟩ ∈ unfinished s.jobQueue) (by decide +kernel)
  rw [Bool.and_eq_true, Option.isNone_iff_eq_none, decide_eq_true_eq] at hs
  refine ⟨log, s, hreach, fun howned => ?_⟩
  obtain ⟨r, obj, hr, -⟩ := howned _ hs.2
  rw [show s.requests 7 = none from hs.1] at hr
  cases hr

end System

end Simurga
