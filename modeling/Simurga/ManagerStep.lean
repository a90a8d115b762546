import Simurga.Manager

/-!
# What a step can do

The inversion lemmas of the manager: `Responds` for a call of `response`,
`Handled` for a call of `handler` (`Undefined` where it leaves its memory),
`Step` for a step of the system. Each has one constructor for each way the code goes, with the conditions under
which it goes there; the invariants are proved by cases on them and never
unfold the code again.
-/

namespace Simurga

variable {Id Class : Type} {table : ObjectTable Class}

namespace Request

/-- A call of `response`, with `complete` when it returns true. -/
inductive Responds (fullId : Id) (addr : Nat) (r : Request Id Class) :
    Request Id Class → List Output → Verdict Id → Prop where
  | notFound (id_ : Bytes) (hstart : r.state_ = .start) :
      Responds fullId addr r { r with id_, httpObject := none }
        [.response r.state, .wrote .notFound notFoundText,
          .endRequest .requestComplete r.killCon] .erase
  | fails (hstart : r.state_ = .start) :
      Responds fullId addr r r
        [.response r.state, .wrote .serverError serverErrorText,
          .endRequest .requestComplete r.killCon] .erase
  | scheduled (obj : HttpObject Class) (id_ : Bytes) (hstart : r.state_ = .start) :
      Responds fullId addr r { r with id_, httpObject := some (addr, obj) } [.response r.state]
        (.scheduled { addr, id_, fullId, serial := r.serial })
  | finish (hfinish : r.state_ = .finish) : Responds fullId addr r r
      (.response r.state :: r.responseFinish ++ [.endRequest .requestComplete r.killCon]) .erase

theorem response_cases {fails : Bool} {fullId : Id} {addr : Nat} {r r' : Request Id Class}
    {outs : List Output} {verdict : Verdict Id}
    (h : response table fails fullId addr r = (r', outs, verdict)) :
    Responds fullId addr r r' outs verdict := by
  unfold response at h
  cases hstate : r.state_ with
  | finish =>
      rw [hstate] at h
      cases h
      exact .finish hstate
  | start =>
      rw [hstate] at h
      unfold responseStart at h
      cases fails with
      | true =>
          cases h
          exact .fails hstate
      | false =>
          rw [if_neg (by simp)] at h
          cases halloc : HttpObjectList.allocate table r.environment.requestUri r.id_ with
          | mk obj id_ =>
              rw [halloc] at h
              cases obj with
              | none =>
                  cases h
                  exact .notFound id_ hstate
              | some obj =>
                  cases h
                  exact .scheduled obj id_ hstate

/-- Where `pPostBuffer` stands, from the beginning of the buffer. -/
def postFilled (r : Request Id Class) : Nat := (r.postBuffer.map PostBuffer.filled).getD 0

theorem filled_getD (r : Request Id Class) (fresh : Nat → UInt8) :
    (r.postBuffer.getD { mem := fresh }).filled = r.postFilled := by
  unfold postFilled
  cases r.postBuffer <;> rfl

/-- A call of `handler`. -/
inductive Handled (fullId : Id) (addr : Nat) (r : Request Id Class) :
    Request Id Class → List Output → Verdict Id → Prop where
  | badRole (hrole : ¬ (r.role = 1 ∨ r.role = 2)) :
      Handled fullId addr r r [.endRequest .unknownRole r.killCon] .erase
  | paramsEnd {ms : List (Message Id)} {padding : Bytes}
      (hm : r.messages = .record (.params [] padding) :: ms) (hstate : r.state = .params) :
      Handled fullId addr r { r with messages := ms, state := .input } [] .keep
  | params {ms : List (Message Id)} {content padding : Bytes} {environment : Environment}
      (hm : r.messages = .record (.params content padding) :: ms) (hstate : r.state = .params)
      (hcontent : content ≠ []) (hfill : r.environment.fill content padding = .value environment) :
      Handled fullId addr r { r with messages := ms, environment } [] .keep
  | fillThrows {ms : List (Message Id)} {content padding : Bytes} {environment : Environment}
      (hm : r.messages = .record (.params content padding) :: ms) (hstate : r.state = .params)
      (hcontent : content ≠ []) (hfill : r.environment.fill content padding = .thrown environment) :
      Handled fullId addr r { r with messages := ms, environment }
        [.wrote .handlerError errorHandlerText, .endRequest .requestComplete r.killCon] .erase
  | input {ms : List (Message Id)} {content : Bytes} {b postBuffer : PostBuffer}
      (hm : r.messages = .record (.input content) :: ms) (hstate : r.state = .input)
      (hcontent : content ≠ []) (hb : b.filled = r.postFilled)
      (hfill : fillPostBuffer r.environment.contentLength.toNat b content = some postBuffer) :
      Handled fullId addr r { r with messages := ms, postBuffer := some postBuffer } [] .keep
  | bigPost {ms : List (Message Id)} {content : Bytes} {b : PostBuffer}
      (hm : r.messages = .record (.input content) :: ms) (hstate : r.state = .input)
      (hcontent : content ≠ []) (hb : b.filled = r.postFilled)
      (hfill : fillPostBuffer r.environment.contentLength.toNat b content = none) :
      Handled fullId addr r { r with messages := ms }
        [.wrote .bigPost bigPostErrorText, .endRequest .requestComplete r.killCon] .erase
  | inputEnd {ms : List (Message Id)} {environment : Environment} {r' : Request Id Class}
      {outs : List Output} {verdict : Verdict Id} (hrole : r.role = 1 ∨ r.role = 2)
      (hm : r.messages = .record (.input []) :: ms) (hstate : r.state = .input)
      (hparse : r.environment.parsePosts r.postBuffer = .value environment)
      (h : Responds fullId addr
        { r with messages := ms, environment, postBuffer := none, state := .output } r' outs verdict) :
      Handled fullId addr r r' outs verdict
  | unknownContentType {ms : List (Message Id)} {environment : Environment}
      (hm : r.messages = .record (.input []) :: ms) (hstate : r.state = .input)
      (hparse : r.environment.parsePosts r.postBuffer = .thrown environment) :
      Handled fullId addr r { r with messages := ms, environment }
        [.wrote .handlerError errorHandlerText, .endRequest .requestComplete r.killCon] .erase
  | outOfOrder {ms : List (Message Id)} {record : Record} (hm : r.messages = .record record :: ms)
      (horder : (∃ content padding, record = .params content padding) ∧ r.state ≠ .params
        ∨ (∃ content, record = .input content) ∧ r.state ≠ .input) :
      Handled fullId addr r { r with messages := ms }
        [.wrote .handlerError errorHandlerText, .endRequest .requestComplete r.killCon] .erase
  | abort {ms : List (Message Id)} (hm : r.messages = .record .abortRequest :: ms) :
      Handled fullId addr r { r with messages := ms } [] .erase
  | ignored {ms : List (Message Id)} {record : Record} (hm : r.messages = .record record :: ms)
      (hrecord : record = .other ∨ ∃ role keepConn, record = .beginRequest role keepConn) :
      Handled fullId addr r { r with messages := ms } [] .keep
  | callback {ms : List (Message Id)} {job : Job Id} {r' : Request Id Class} {outs : List Output}
      {verdict : Verdict Id} (hrole : r.role = 1 ∨ r.role = 2) (hm : r.messages = .callback job :: ms)
      (h : Responds fullId addr { r with messages := ms } r' outs verdict) :
      Handled fullId addr r r' outs verdict

/-- A call of `handler` that leaves its memory. -/
inductive Undefined (r : Request Id Class) : Prop where
  | empty (hm : r.messages = [])
  | params {ms : List (Message Id)} {content padding : Bytes}
      (hm : r.messages = .record (.params content padding) :: ms) (hstate : r.state = .params)
      (hcontent : content ≠ []) (hfill : r.environment.fill content padding = .undefined)
  | inputEnd {ms : List (Message Id)} (hm : r.messages = .record (.input []) :: ms)
      (hstate : r.state = .input) (hparse : r.environment.parsePosts r.postBuffer = .undefined)

/-- How a call of `handler` ends. -/
def Ends (fullId : Id) (addr : Nat) (r : Request Id Class) :
    Option (Request Id Class × List Output × Verdict Id) → Prop
  | some (r', outs, verdict) => Handled fullId addr r r' outs verdict
  | none => (r.role = 1 ∨ r.role = 2) ∧ r.Undefined

theorem handleMessage_ends {fails : Bool} {fresh : Nat → UInt8} {fullId : Id} {addr : Nat}
    {r : Request Id Class} {m : Message Id} {ms : List (Message Id)}
    (hrole : r.role = 1 ∨ r.role = 2) (hm : r.messages = m :: ms) :
    r.Ends fullId addr (handleMessage table fails fresh fullId addr { r with messages := ms } m) := by
  cases m with
  | callback job => exact .callback hrole hm (response_cases rfl)
  | record record =>
      cases record with
      | abortRequest => exact .abort hm
      | other => exact .ignored hm (Or.inl rfl)
      | beginRequest role keepConn => exact .ignored hm (Or.inr ⟨role, keepConn, rfl⟩)
      | params content padding =>
          rw [handleMessage]
          by_cases hstate : r.state = .params
          · rw [if_neg (not_not_intro hstate)]
            by_cases hcontent : content = []
            · rw [if_pos hcontent]
              exact .paramsEnd (hcontent ▸ hm) hstate
            · rw [if_neg hcontent]
              cases hfill : r.environment.fill content padding with
              | value environment => exact .params hm hstate hcontent hfill
              | thrown environment => exact .fillThrows hm hstate hcontent hfill
              | undefined => exact ⟨hrole, .params hm hstate hcontent hfill⟩
          · rw [if_pos hstate]
            exact .outOfOrder hm (Or.inl ⟨⟨content, padding, rfl⟩, hstate⟩)
      | input content =>
          rw [handleMessage]
          by_cases hstate : r.state = .input
          · rw [if_neg (not_not_intro hstate)]
            by_cases hcontent : content = []
            · subst hcontent
              rw [if_pos rfl]
              cases hparse : r.environment.parsePosts r.postBuffer with
              | value environment => exact .inputEnd hrole hm hstate hparse (response_cases rfl)
              | thrown environment => exact .unknownContentType hm hstate hparse
              | undefined => exact ⟨hrole, .inputEnd hm hstate hparse⟩
            · rw [if_neg hcontent]
              cases hfill : fillPostBuffer r.environment.contentLength.toNat
                  (r.postBuffer.getD { mem := fresh }) content with
              | some postBuffer => exact .input hm hstate hcontent (r.filled_getD fresh) hfill
              | none => exact .bigPost hm hstate hcontent (r.filled_getD fresh) hfill
          · rw [if_pos hstate]
            exact .outOfOrder hm (Or.inr ⟨⟨content, rfl⟩, hstate⟩)

theorem handler_ends (table : ObjectTable Class) (fails : Bool) (fresh : Nat → UInt8) (fullId : Id)
    (addr : Nat) (r : Request Id Class) :
    r.Ends fullId addr (r.handler table fails fresh fullId addr) := by
  unfold handler
  by_cases hrole : r.role = 1 ∨ r.role = 2
  · rw [if_neg (not_not_intro hrole)]
    cases hm : r.messages with
    | nil => exact ⟨hrole, .empty hm⟩
    | cons m ms => exact handleMessage_ends hrole hm
  · rw [if_pos hrole]
    exact .badRole hrole

theorem handler_cases {fails : Bool} {fresh : Nat → UInt8} {fullId : Id} {addr : Nat}
    {r r' : Request Id Class} {outs : List Output} {verdict : Verdict Id}
    (h : r.handler table fails fresh fullId addr = some (r', outs, verdict)) :
    Handled fullId addr r r' outs verdict := by
  have hends := handler_ends table fails fresh fullId addr r
  rwa [h] at hends

theorem handler_eq_none {fails : Bool} {fresh : Nat → UInt8} {fullId : Id} {addr : Nat}
    {r : Request Id Class} (h : r.handler table fails fresh fullId addr = none) :
    (r.role = 1 ∨ r.role = 2) ∧ r.Undefined := by
  have hends := handler_ends table fails fresh fullId addr r
  rwa [h] at hends

end Request

namespace System

variable [DecidableEq Id]

/-- The steps of the job queue that are steps of the system as they are. -/
def RunsNothing : JobQueue.Act (Job Id) → Prop
  | .stop | .check | .wake | .next => True
  | .add _ | .endFirst _ | .endSecond _ => False

/-- A step of the system. -/
inductive Step (s : System Id Class) : Act Id → System Id Class → List (Event Id) → Prop where
  | queue {id : Id} {record : Record} {r : Request Id Class} (hthread : s.thread = .idle)
      (hr : s.requests id = some r) :
      Step s (.receive id record)
        { s.setRequest id (some { r with messages := r.messages ++ [.record record] }) with
          tasks := s.tasks ++ [id] } [.received id record]
  | opened {id : Id} {role : Nat} {keepConn : Bool} (hthread : s.thread = .idle)
      (hr : s.requests id = none) :
      Step s (.receive id (.beginRequest role keepConn))
        { s.setRequest id (some { serial := s.next, role, killCon := !keepConn }) with
          next := s.next + 1 } [.received id (.beginRequest role keepConn), .opened s.next id]
  | dropped {id : Id} {record : Record} (hthread : s.thread = .idle) (hr : s.requests id = none)
      (hrecord : ∀ role keepConn, record ≠ .beginRequest role keepConn) :
      Step s (.receive id record) s [.received id record]
  | take {id : Id} {tasks : List Id} {r : Request Id Class} (hthread : s.thread = .idle)
      (htasks : s.tasks = id :: tasks) (hr : s.requests id = some r) :
      Step s .take { s with tasks, thread := .handling id } []
  | takeNone {id : Id} {tasks : List Id} (hthread : s.thread = .idle)
      (htasks : s.tasks = id :: tasks) (hr : s.requests id = none) :
      Step s .take { s with tasks } []
  | undefined {id : Id} {fails : Bool} {fresh : Nat → UInt8} {r : Request Id Class}
      (hthread : s.thread = .handling id) (hr : s.requests id = some r)
      (hrole : r.role = 1 ∨ r.role = 2) (h : r.Undefined) :
      Step s (.handle fails fresh) { s with thread := .undefined } []
  | keep {id : Id} {fails : Bool} {fresh : Nat → UInt8} {r r' : Request Id Class}
      {outs : List Output}
      (hthread : s.thread = .handling id) (hr : s.requests id = some r)
      (h : r.Handled id s.next r' outs .keep) :
      Step s (.handle fails fresh) { s.setRequest id (some r') with thread := .idle }
        (outs.map (.output r.serial id))
  | finished {id : Id} {fails : Bool} {fresh : Nat → UInt8} {r r' : Request Id Class}
      {outs : List Output}
      (hthread : s.thread = .handling id) (hr : s.requests id = some r)
      (h : r.Handled id s.next r' outs .erase) :
      Step s (.handle fails fresh) { s.setRequest id (some r') with thread := .erasing id }
        (outs.map (.output r.serial id))
  | scheduled {id : Id} {fails : Bool} {fresh : Nat → UInt8} {r r' : Request Id Class}
      {outs : List Output} {job : Job Id}
      (hthread : s.thread = .handling id) (hr : s.requests id = some r)
      (h : r.Handled id s.next r' outs (.scheduled job)) :
      Step s (.handle fails fresh)
        { s.setRequest id (some r') with
          thread := .scheduled id, jobQueue := s.jobQueue.add job, next := s.next + 1 }
        (outs.map (.output r.serial id) ++ [.scheduled job])
  | startReturns {id : Id} {r : Request Id Class} (hthread : s.thread = .scheduled id)
      (hr : s.requests id = some r) :
      Step s .startReturns
        { s.setRequest id (some { r with state_ := .finish }) with thread := .idle } []
  | erase {id : Id} (hthread : s.thread = .erasing id) :
      Step s .erase { s.setRequest id none with thread := .idle } []
  | leave (hthread : s.thread = .idle) : Step s .leave { s with thread := .left } []
  | jobs {a : Act Id} {act : JobQueue.Act (Job Id)} {q : JobQueue (Job Id)}
      {es : List (JobQueue.Event (Job Id))} (hact : RunsNothing act)
      (h : JobQueue.Step s.jobQueue act q es) : Step s a { s with jobQueue := q } []
  | handleReturns {job : Job Id} {jobs : List (Job Id)} {reply : Reply}
      (hjob : s.jobQueue.thread = .first job jobs) :
      Step s (.handleReturns reply)
        { s.setRequest job.fullId ((s.requests job.fullId).map (·.writeReply job reply)) with
          jobQueue := { s.jobQueue with thread := .second job jobs } } [.returned job reply]
  | callbackQueued {job : Job Id} {jobs : List (Job Id)} {r : Request Id Class}
      (hjob : s.jobQueue.thread = .second job jobs) (hr : s.requests job.fullId = some r) :
      Step s .callbackReturns
        { s.setRequest job.fullId (some { r with messages := r.messages ++ [.callback job] }) with
          jobQueue := { s.jobQueue with thread := .batch jobs }
          tasks := s.tasks ++ [job.fullId] } [.completed job]
  | callbackDropped {job : Job Id} {jobs : List (Job Id)}
      (hjob : s.jobQueue.thread = .second job jobs) (hr : s.requests job.fullId = none) :
      Step s .callbackReturns { s with jobQueue := { s.jobQueue with thread := .batch jobs } }
        [.completed job]

theorem jobStep_cases {s s' : System Id Class} (act : JobQueue.Act (Job Id))
    {es : List (Event Id)} {a : Act Id} (hact : RunsNothing act)
    (h : s.jobStep act = some (s', es)) : Step s a s' es := by
  unfold jobStep at h
  obtain ⟨⟨q, qes⟩, hq, h⟩ := Option.map_eq_some_iff.mp h
  cases h
  exact .jobs hact (JobQueue.step_cases hq)

theorem step_cases {s s' : System Id Class} {a : Act Id} {es : List (Event Id)}
    (h : s.step table a = some (s', es)) : Step s a s' es := by
  cases a with
  | receive id record =>
      simp only [step] at h
      split at h
      · rename_i hthread
        unfold push at h
        cases hr : s.requests id with
        | some r =>
            rw [hr] at h
            cases h
            exact .queue hthread hr
        | none =>
            rw [hr] at h
            cases record with
            | beginRequest role keepConn => cases h; exact .opened hthread hr
            | params content padding => cases h; exact .dropped hthread hr (by simp)
            | input content => cases h; exact .dropped hthread hr (by simp)
            | abortRequest => cases h; exact .dropped hthread hr (by simp)
            | other => cases h; exact .dropped hthread hr (by simp)
      · cases h
  | take =>
      simp only [step] at h
      split at h
      · rename_i id tasks hthread htasks
        cases hr : s.requests id with
        | some r =>
            rw [hr] at h
            cases h
            exact .take hthread htasks hr
        | none =>
            rw [hr] at h
            cases h
            exact .takeNone hthread htasks hr
      · cases h
  | handle fails fresh =>
      simp only [step] at h
      split at h
      · rename_i id hthread
        split at h
        · rename_i r hr
          split at h
          · rename_i r' outs verdict hhandler
            have hcases := Request.handler_cases hhandler
            cases verdict with
            | keep => cases h; exact .keep hthread hr hcases
            | erase => cases h; exact .finished hthread hr hcases
            | scheduled job => cases h; exact .scheduled hthread hr hcases
          · rename_i hhandler
            cases h
            obtain ⟨hrole, hundefined⟩ := Request.handler_eq_none hhandler
            exact .undefined hthread hr hrole hundefined
        · cases h
      · cases h
  | startReturns =>
      simp only [step] at h
      split at h
      · rename_i id hthread
        split at h
        · rename_i r hr
          cases h
          exact .startReturns hthread hr
        · cases h
      · cases h
  | erase =>
      simp only [step] at h
      split at h
      · rename_i id hthread
        cases h
        exact .erase hthread
      · cases h
  | leave =>
      simp only [step] at h
      split at h
      · rename_i hthread
        cases h
        exact .leave hthread
      · cases h
  | stopJobs =>
      simp only [step] at h
      split at h
      · exact jobStep_cases .stop trivial h
      · cases h
  | checkJobs => exact jobStep_cases .check trivial h
  | wakeJobs => exact jobStep_cases .wake trivial h
  | nextJob => exact jobStep_cases .next trivial h
  | handleReturns reply =>
      simp only [step] at h
      split at h
      · rename_i job jobs q qes hjob hq
        cases h
        simp only [JobQueue.step, hjob] at hq
        cases hq
        exact .handleReturns hjob
      · cases h
  | callbackReturns =>
      simp only [step] at h
      split at h
      · rename_i job jobs q qes hjob hq
        simp only [JobQueue.step, hjob] at hq
        cases hq
        unfold push at h
        cases hr : s.requests job.fullId with
        | some r =>
            simp only [hr] at h
            cases h
            exact .callbackQueued hjob hr
        | none =>
            simp only [hr] at h
            cases h
            exact .callbackDropped hjob hr
      · cases h

end System

end Simurga
