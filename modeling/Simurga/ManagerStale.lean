import Simurga.ManagerOwner

/-!
# Completions that come late

`response_finish` says "request processing complete, send it", and takes
that for granted: any completion for the `FullId` leads to it. In a run
where each completion is handled by the request whose job it completes,
and no task is left over for an empty message queue, the text that is
written is the reply of the request's own job, and `response` is called
behind the end of the input only (`answers_in_time`). Otherwise it is not:
in `stale_completion` the completion of an aborted request makes the next
request of the same id answer before its own `handle` was called.
-/

namespace Simurga

variable {Id Class : Type} {table : ObjectTable Class}

/-- There is a message, and a completion is that of the request's own job,
unless the role is refused before. -/
def Request.timely (r : Request Id Class) : Bool :=
  if r.role = 1 ∨ r.role = 2 then
    match r.messages with
    | [] => false
    | .record _ :: _ => true
    | .callback job :: _ => r.httpObject.map Prod.fst = some job.addr
  else true

/-- Nothing was scheduled before the end of the input. -/
def Request.Settled (r : Request Id Class) : Prop :=
  r.state = .output ∨ r.httpObject = none ∧ r.state_ = .start

theorem Request.timely_callback {r : Request Id Class} {job : Job Id} {ms : List (Message Id)}
    (h : r.timely) (hrole : r.role = 1 ∨ r.role = 2) (hm : r.messages = .callback job :: ms) :
    ∃ obj, r.httpObject = some (job.addr, obj) := by
  simp only [timely, if_pos hrole, hm, decide_eq_true_eq, Option.map_eq_some_iff] at h
  obtain ⟨⟨addr, obj⟩, hobj, rfl⟩ := h
  exact ⟨obj, hobj⟩

theorem Request.Settled.state_eq {r : Request Id Class} (h : r.Settled) {addr : Nat}
    {obj : HttpObject Class} (hobj : r.httpObject = some (addr, obj)) : r.state = .output := by
  rcases h with h | ⟨hnone, -⟩
  · exact h
  · rw [hobj] at hnone
    cases hnone

theorem Request.Handled.settled {id : Id} {addr : Nat} {r r' : Request Id Class}
    {outs : List Output} {verdict : Verdict Id} (h : r.Handled id addr r' outs verdict)
    (hsettled : r.Settled) (htimely : r.timely) :
    r'.Settled ∧ ∀ job, verdict = .scheduled job → r'.state = .output := by
  cases h with
  | inputEnd _ hm hstate _ h =>
      have hout : r'.state = .output := h.keeps.2.2.2.1
      exact ⟨Or.inl hout, fun _ _ => hout⟩
  | callback hrole hm h =>
      obtain ⟨obj, hobj⟩ := Request.timely_callback htimely hrole hm
      have hout : r'.state = .output := h.keeps.2.2.2.1.trans (hsettled.state_eq hobj)
      exact ⟨Or.inl hout, fun _ _ => hout⟩
  | paramsEnd hm hstate =>
      refine ⟨Or.inr (hsettled.resolve_left ?_), by simp⟩
      rw [hstate]
      exact RecordState.noConfusion
  | badRole | params | fillThrows | input | bigPost | unknownContentType | outOfOrder | abort
  | ignored => exact ⟨hsettled, by simp⟩

namespace System

variable {log es : List (Event Id)}

/-- What is asked of an event after `log`. -/
def InTime (log : List (Event Id)) : Event Id → Prop
  | .output serial id (.wrote (.finish addr method) text) =>
      ∃ job reply, .scheduled job ∈ log ∧ job.addr = addr ∧ job.serial = serial ∧ job.fullId = id
        ∧ .returned job reply ∈ log ∧ text = finishText method reply
  | .output _ _ (.response state) => state = .output
  | .output _ _ _ | .opened _ _ | .received _ _ | .scheduled _ | .returned _ _ | .completed _ => True

theorem InTime.mono {e : Event Id} (h : InTime log e) (post : List (Event Id)) :
    InTime (log ++ post) e := by
  unfold InTime at h ⊢
  split at h
  · obtain ⟨job, reply, hjob, haddr, hserial, hid, hreturned, htext⟩ := h
    exact ⟨job, reply, List.mem_append_left _ hjob, haddr, hserial, hid,
      List.mem_append_left _ hreturned, htext⟩
  · exact h
  all_goals exact trivial

theorem responds_inTime {id : Id} {addr serial : Nat} {r r' : Request Id Class}
    {outs : List Output} {verdict : Verdict Id} (h : r.Responds id addr r' outs verdict)
    (_ : r.serial = serial) (hstate : r.state = .output)
    (hfinish : r.state_ = .finish → ∀ {addr obj}, r.httpObject = some (addr, obj) →
      ∃ job, .scheduled job ∈ log ∧ job.addr = addr ∧ job.serial = serial ∧ job.fullId = id
        ∧ .returned job obj.reply ∈ log) :
    ∀ o ∈ outs, InTime log (.output serial id o) := by
  intro o ho
  cases h with
  | notFound => simp at ho; rcases ho with rfl | rfl | rfl <;> first | exact hstate | exact trivial
  | fails => simp at ho; rcases ho with rfl | rfl | rfl <;> first | exact hstate | exact trivial
  | scheduled => simp at ho; subst ho; exact hstate
  | finish hstate_ =>
      rcases List.mem_append.mp ho with ho | ho
      · rcases List.mem_cons.mp ho with rfl | ho
        · exact hstate
        · unfold Request.responseFinish at ho
          split at ho
          · rename_i addr' obj hobj
            cases List.mem_singleton.mp ho
            obtain ⟨job, hjob, haddr, hserial, hid, hreturned⟩ := hfinish hstate_ hobj
            exact ⟨job, obj.reply, hjob, haddr, hserial, hid, hreturned, rfl⟩
          · cases ho
      · cases List.mem_singleton.mp ho
        exact trivial

/-- What a call of `handler` does is in time. -/
theorem handled_inTime {next : Nat} {q : JobQueue (Job Id)} {id : Id} {r r' : Request Id Class}
    {outs : List Output} {verdict : Verdict Id} (hjobs : JobsKnown log next q)
    (howned : Owned log next id r) (hsettled : r.Settled) (htimely : r.timely)
    (h : r.Handled id next r' outs verdict) : ∀ o ∈ outs, InTime log (.output r.serial id o) := by
  cases h with
  | inputEnd _ _ hstate _ h =>
      refine responds_inTime h rfl rfl fun hfinish => ?_
      rcases hsettled with hout | ⟨-, hstart⟩
      · rw [hstate] at hout
        cases hout
      · rw [show r.state_ = .finish from hfinish] at hstart
        cases hstart
  | @callback ms job _ _ _ hrole hm h =>
      obtain ⟨obj, hobj⟩ := Request.timely_callback htimely hrole hm
      refine responds_inTime h rfl (hsettled.state_eq hobj) fun _ {addr' obj'} hobj' => ?_
      -- the object's job is the one that the completion is of
      obtain ⟨job', hjob', haddr', hserial, hid, hreply⟩ := howned.object hobj'
      obtain ⟨hcompleted, -⟩ := howned.callback (hm ▸ List.mem_cons_self ..)
      obtain ⟨reply, hreturned⟩ := hjobs.completed hcompleted
      have haddr : job.addr = addr' := by
        rw [show r.httpObject = some (addr', obj') from hobj'] at hobj
        cases hobj
        rfl
      obtain rfl : job' = job :=
        hjobs.addr_inj hjob' (hjobs.returned hreturned) (haddr'.trans haddr.symm)
      exact ⟨job', hjob', haddr', hserial, hid, hreply reply hreturned ▸ hreturned⟩
  | badRole | paramsEnd | params | fillThrows | input | bigPost | unknownContentType | outOfOrder
  | abort | ignored =>
      intro o ho
      simp at ho
      try rcases ho with rfl | rfl
      all_goals exact trivial

/-! ## Runs in which completions are timely -/

/-- When `handler` is called it has a message, and no late completion. -/
def timely (s : System Id Class) : Act Id → Bool
  | .handle _ _ =>
      match s.thread with
      | .handling id => (s.requests id).all Request.timely
      | _ => true
  | _ => true

theorem timely_handle {s : System Id Class} {fails : Bool} {fresh : Nat → UInt8} {id : Id}
    {r : Request Id Class} (h : s.timely (.handle fails fresh)) (hthread : s.thread = .handling id)
    (hr : s.requests id = some r) : r.timely := by
  simpa [timely, hthread, hr] using h

structure Settled (s : System Id Class) : Prop where
  requests : ∀ {id r}, s.requests id = some r → r.Settled
  scheduled : ∀ {id r}, s.thread = .scheduled id → s.requests id = some r → r.state = .output

variable [DecidableEq Id]

/-- A step that changes one request or none, and schedules nothing. -/
theorem Settled.update {s s' : System Id Class} {id : Id} {v : Option (Request Id Class)}
    (h : Settled s) (hv : ∀ r', v = some r' → r'.Settled)
    (hrequests : s'.requests = Function.update s.requests id v)
    (hthread : ∀ id', s'.thread = .scheduled id' → s.thread = .scheduled id'
      ∧ (id' = id → ∀ r', v = some r' → r'.state = .output)) : Settled s' := by
  refine ⟨fun {id' r'} hr' => ?_, fun {id' r'} hthread' hr' => ?_⟩
  · rw [hrequests] at hr'
    rcases update_eq_some hr' with ⟨-, heq⟩ | ⟨-, hr'⟩
    · exact hv r' heq
    · exact h.requests hr'
  · obtain ⟨hold, hnew⟩ := hthread id' hthread'
    rw [hrequests] at hr'
    rcases update_eq_some hr' with ⟨hid, heq⟩ | ⟨-, hr'⟩
    · exact hnew hid r' heq
    · exact h.scheduled hold hr'

theorem settled_step {s s' : System Id Class} {a : Act Id} (h : Settled s) (htimely : s.timely a)
    (hstep : Step s a s' es) : Settled s' := by
  cases hstep with
  | dropped => exact h
  | takeNone => exact ⟨h.requests, h.scheduled⟩
  | jobs => exact ⟨h.requests, h.scheduled⟩
  | callbackDropped => exact ⟨h.requests, h.scheduled⟩
  | take => exact ⟨h.requests, by simp⟩
  | undefined => exact ⟨h.requests, by simp⟩
  | leave => exact ⟨h.requests, by simp⟩
  | @queue id record r hthread hr =>
      refine h.update ?_ rfl (by simp [hthread, setRequest])
      rintro r' ⟨⟩
      exact (h.requests hr : r.Settled)
  | opened hthread hr =>
      refine h.update ?_ rfl (by simp [hthread, setRequest])
      rintro r' ⟨⟩
      exact Or.inr ⟨rfl, rfl⟩
  | keep hthread hr hhandled | finished hthread hr hhandled =>
      obtain ⟨hsettled, -⟩ := hhandled.settled (h.requests hr) (timely_handle htimely hthread hr)
      refine h.update ?_ rfl (by simp)
      rintro r' ⟨⟩
      exact hsettled
  | @scheduled id fails fresh r r' outs job hthread hr hhandled =>
      obtain ⟨hsettled, hout⟩ := hhandled.settled (h.requests hr) (timely_handle htimely hthread hr)
      refine ⟨fun {id' r''} hr' => ?_, fun {id' r''} hthread' hr' => ?_⟩
      · rcases update_eq_some hr' with ⟨-, heq⟩ | ⟨-, hr'⟩
        · cases heq
          exact hsettled
        · exact h.requests hr'
      · obtain rfl : id = id' := ManagerThread.scheduled.inj hthread'
        rcases update_eq_some hr' with ⟨-, heq⟩ | ⟨hne, -⟩
        · cases heq
          exact hout job rfl
        · exact absurd rfl hne
  | @startReturns id r hthread hr =>
      have hout : r.state = .output := h.scheduled hthread hr
      refine h.update ?_ rfl (by simp)
      rintro r' ⟨⟩
      exact Or.inl hout
  | erase => exact h.update (by simp) rfl (by simp)
  | @handleReturns job jobs reply hjob =>
      refine h.update ?_ rfl fun id' hthread' => ⟨hthread', ?_⟩
      · intro r' heq
        obtain ⟨r, hr, rfl⟩ := Option.map_eq_some_iff.mp heq
        obtain ⟨obj, hwrite, haddr⟩ := r.writeReply_eq job reply
        rw [hwrite]
        rcases h.requests hr with hout | ⟨hobj, hstart⟩
        · exact Or.inl hout
        · rw [hobj] at haddr
          exact Or.inr ⟨Option.map_eq_none_iff.mp haddr, hstart⟩
      · rintro rfl r' heq
        obtain ⟨r, hr, rfl⟩ := Option.map_eq_some_iff.mp heq
        obtain ⟨obj, hwrite, -⟩ := r.writeReply_eq job reply
        have hout : r.state = .output := h.scheduled hthread' hr
        rw [hwrite]
        exact hout
  | @callbackQueued job jobs r hjob hr =>
      refine h.update ?_ rfl fun id' hthread' => ⟨hthread', ?_⟩
      · rintro r' ⟨⟩
        exact (h.requests hr : r.Settled)
      · rintro rfl r' ⟨⟩
        have hout : r.state = .output := h.scheduled hthread' hr
        exact hout

theorem inTime_step {s s' : System Id Class} {a : Act Id} (hknown : Known log s)
    (h : Settled s) (htimely : s.timely a) (hstep : Step s a s' es) : ∀ e ∈ es, InTime log e := by
  have houtputs : ∀ {id fails fresh r r' outs verdict}, s.thread = .handling id →
      s.requests id = some r → r.Handled id s.next r' outs verdict → a = .handle fails fresh →
      ∀ e ∈ outs.map (Event.output r.serial id), InTime log e := by
    rintro id fails fresh r r' outs verdict hthread hr hhandled rfl e he
    obtain ⟨o, ho, rfl⟩ := List.mem_map.mp he
    exact handled_inTime hknown.jobs (hknown.owned hr) (h.requests hr)
      (timely_handle htimely hthread hr) hhandled o ho
  cases hstep with
  | keep hthread hr hhandled | finished hthread hr hhandled =>
      exact houtputs hthread hr hhandled rfl
  | scheduled hthread hr hhandled =>
      intro e he
      rcases List.mem_append.mp he with he | he
      · exact houtputs hthread hr hhandled rfl e he
      · cases List.mem_singleton.mp he
        exact trivial
  | queue | opened | dropped | take | takeNone | undefined | startReturns | erase | leave | jobs
  | handleReturns | callbackQueued | callbackDropped => simp [InTime]

/-- In every run with timely completions: what `response_finish` writes is
the reply of the request's own job, which had returned before, and
`response` is called behind the end of the input. -/
theorem answers_in_time {s : System Id Class}
    (h : Machine.Reach (step table) (fun _ s a => s.timely a) {} log s) :
    Machine.Justified InTime log := by
  have hinv : Settled s ∧ Machine.Justified InTime log := by
    refine h.invariant_of Known (fun log s => Settled s ∧ Machine.Justified InTime log) known
      ⟨⟨by simp, by simp⟩, Machine.justified_nil _⟩ ?_
    rintro log es s s' a hknown ⟨hsettled, hjust⟩ htimely hstep
    have hstep := step_cases hstep
    exact ⟨settled_step hsettled htimely hstep,
      hjust.extend (fun hgood => hgood.mono _) (inTime_step hknown hsettled htimely hstep)⟩
  exact hinv.2

/-- A request that is answered by its own job. -/
theorem answers_in_time_sample : ∃ log : List (Event Nat),
    .output 0 7 (.wrote (.finish 1 .get) (finishText .get plainReply)) ∈ log
      ∧ Machine.Justified InTime log := by
  obtain ⟨log, s, hreach, hmem⟩ := Machine.exists_reach_of_run (step standardTable)
    (fun _ s a => s.timely a) {}
    (getRequest 7 (bytes "/contacts")
      ++ [.checkJobs, .nextJob, .handleReturns plainReply, .callbackReturns, .take, .handle false])
    (fun log _ =>
      .output 0 7 (.wrote (.finish 1 .get) (finishText .get plainReply)) ∈ log) (by decide +kernel)
  exact ⟨log, of_decide_eq_true hmem, answers_in_time hreach⟩

/-- The first request of the id is aborted when its job has returned, and
its completion is pushed when the second one has just scheduled a job: the
second one answers with what an object holds before `handle`. -/
theorem stale_completion : ∃ (log : List (Event Nat)) (s : System Nat ObjectClass),
    Machine.Reach (step standardTable) Machine.anyOrder {} log s
      ∧ ¬ Machine.Justified InTime log := by
  obtain ⟨log, s, hreach, hlog⟩ := Machine.exists_reach_of_run (step standardTable)
    Machine.anyOrder {}
    (getRequest 7 (bytes "/contacts") ++ [.checkJobs, .nextJob, .handleReturns plainReply]
      ++ readRecord 7 .abortRequest ++ [.erase] ++ getRequest 7 (bytes "/howtobuy")
      ++ [.callbackReturns, .take, .handle false])
    (fun log _ =>
      log.drop 18 = [.output 2 7 (.wrote (.finish 3 .get) (finishText .get
          ⟨bytes "200 OK", bytes "text/html; charset=utf-8", [], bytes "OK"⟩)),
        .output 2 7 (.endRequest .requestComplete true)]
      && (log.take 18).all fun e => match e with
        | .returned job _ => job.addr ≠ 3
        | _ => true) (by decide +kernel)
  refine ⟨log, s, hreach, fun hjust => ?_⟩
  rw [Bool.and_eq_true, decide_eq_true_eq] at hlog
  have hsplit := List.take_append_drop 18 log
  rw [hlog.1] at hsplit
  obtain ⟨job, reply, -, haddr, -, -, hreturned, -⟩ := hjust _ _ _ hsplit.symm
  have hother := List.all_eq_true.mp hlog.2 _ hreturned
  simp [haddr] at hother

end System

end Simurga
