import Simurga.ManagerOwner

/-!
# A web server that follows the protocol

The records of an id in the order of the protocol, as a guard of the runs:
BEGIN_REQUEST for a responder, the parameters, the content with no more
than CONTENT_LENGTH bytes, and nothing more before END_REQUEST.

Under it a request goes through a few stages, and each stage fixes at once
what is in its message queue, how many tasks there are for it, which jobs
are in the job queue for it and what it has written. `View` cuts these out
of the system for one id; what a call of `handler` does in a stage is
`Stage.handled`.
-/

namespace Simurga

/-! ## CONTENT_LENGTH -/

theorem Environment.atoi_digits {n : Nat} (h : n < 2 ^ 32) :
    (Environment.atoi (Decimal.digits n)).toNat = n := by
  have hdigit := Decimal.digits_digit n
  have hminus : (Decimal.digits n).head? ≠ some '-'.toUInt8 := by
    intro hhead
    have hbad := hdigit _ (List.mem_of_head? hhead)
    cases hbad
  have hall : (Decimal.digits n).takeWhile Decimal.isDigit = Decimal.digits n :=
    List.takeWhile_eq_self_iff.mpr hdigit
  unfold Environment.atoi
  simp only [hminus, if_false, hall, Decimal.value_digits]
  exact Nat.mod_eq_of_lt h

/-- The number that is sent is the one in the environment, as far as it
fits. -/
theorem Environment.contentLength_setPair (environment : Environment) {n : Nat} (h : n < 2 ^ 32) :
    (environment.setPair (bytes "CONTENT_LENGTH", Decimal.digits n)).contentLength.toNat = n := by
  have hpair : environment.setPair (bytes "CONTENT_LENGTH", Decimal.digits n)
      = { environment with contentLength := Environment.atoi (Decimal.digits n) } := rfl
  rw [hpair]
  exact atoi_digits h

/-! ## Records in order -/

/-- How far a request has been sent. CONTENT_LENGTH is what the
environment holds of it. -/
inductive Phase where
  | closed
  | params (environment : Environment)
  | input (environment : Environment) (sent : Nat)
  | ended

/-- The next record, if it is one that may come now. -/
def Phase.send : Phase → Record → Option Phase
  | .closed, .beginRequest role _ => if role = 1 then some (.params {}) else none
  | .params environment, .params content padding =>
      if content = [] then some (.input environment 0)
      else some (.params ((environment.fill content padding).getD environment))
  | .input environment sent, .input content =>
      if content = [] then some .ended
      else if sent + content.length ≤ environment.contentLength.toNat then
        some (.input environment (sent + content.length))
      else none
  | _, _ => none

variable {Id Class : Type} {table : ObjectTable Class}

/-- The messages of a queue, one after the other. -/
def Phase.sendAll : Phase → List (Message Id) → Option Phase
  | phase, [] => some phase
  | phase, .record record :: ms => (phase.send record).bind (sendAll · ms)
  | _, .callback _ :: _ => none

theorem Phase.sendAll_concat (record : Record) (phase : Phase) (ms : List (Message Id)) :
    phase.sendAll (ms ++ [.record record]) = (phase.sendAll ms).bind (·.send record) := by
  induction ms generalizing phase with
  | nil => simp [sendAll]
  | cons m ms ih =>
      cases m with
      | callback job => rfl
      | record record' =>
          rw [List.cons_append, sendAll, sendAll]
          cases phase.send record' with
          | none => rfl
          | some phase' => exact ih phase'

/-- Nothing comes behind the end. -/
theorem Phase.sendAll_ended {ms : List (Message Id)} {phase : Phase}
    (h : Phase.ended.sendAll ms = some phase) : ms = [] ∧ phase = .ended := by
  cases ms with
  | nil =>
      cases h
      exact ⟨rfl, rfl⟩
  | cons m ms => cases m <;> cases h

theorem Phase.sendAll_record {ms : List (Message Id)} {phase phase' : Phase} {record : Record}
    (h : phase.sendAll (.record record :: ms) = some phase') :
    ∃ next, phase.send record = some next ∧ next.sendAll ms = some phase' :=
  Option.bind_eq_some_iff.mp h

theorem Phase.callback_not_mem {job : Job Id} {ms : List (Message Id)} {phase phase' : Phase}
    (h : phase.sendAll ms = some phase') : .callback job ∉ ms := by
  induction ms generalizing phase with
  | nil => simp
  | cons m ms ih =>
      cases m with
      | callback job' => cases h
      | record record =>
          obtain ⟨next, -, hms⟩ := sendAll_record h
          simpa using ih hms

/-- How far a request has been read. -/
def Request.phase (r : Request Id Class) : Phase :=
  match r.state with
  | .params => .params r.environment
  | .input => .input r.environment r.postFilled
  | .output => .ended

/-- Content that the phase allows fits into the buffer. -/
theorem send_input {r : Request Id Class} {content : Bytes} {next : Phase}
    (hinput : r.state = .input) (hcontent : content ≠ [])
    (h : r.phase.send (.input content) = some next) :
    r.postFilled + content.length ≤ r.environment.contentLength.toNat
      ∧ next = .input r.environment (r.postFilled + content.length) := by
  simp only [Request.phase, hinput, Phase.send, if_neg hcontent] at h
  split at h
  · rename_i hfits
    cases h
    exact ⟨hfits, rfl⟩
  · cases h

/-- The record at the front of the queue is read without leaving its memory:
pairs that are whole, and a form with its buffer and its boundary. -/
def Request.reads (r : Request Id Class) : Bool :=
  match r.messages with
  | .record (.params content padding) :: _ =>
      r.state ≠ .params || content = [] || Environment.Reads content padding
  | .record (.input []) :: _ => r.state ≠ .input || r.environment.PostsReadable r.postBuffer
  | _ => true

theorem Request.reads_fill {r : Request Id Class} {content padding : Bytes}
    {ms : List (Message Id)} (h : r.reads) (hm : r.messages = .record (.params content padding) :: ms)
    (hstate : r.state = .params) (hcontent : content ≠ []) :
    ∃ environment, r.environment.fill content padding = .value environment := by
  have hreads : Environment.Reads content padding := by
    simpa [reads, hm, hstate, hcontent] using h
  exact hreads.fill r.environment

/-- Only an empty queue is left to be undefined. -/
theorem Request.reads_undefined {r : Request Id Class} (h : r.reads) (hundefined : r.Undefined) :
    r.messages = [] := by
  cases hundefined with
  | empty hm => exact hm
  | params hm hstate hcontent hfill =>
      obtain ⟨environment, hvalue⟩ := reads_fill h hm hstate hcontent
      rw [hfill] at hvalue
      cases hvalue
  | inputEnd hm hstate hparse =>
      have hposts : r.environment.PostsReadable r.postBuffer := by
        simpa [reads, hm, hstate] using h
      rw [Environment.postsReadable_iff, hparse] at hposts
      cases hposts

/-! ## What is written -/

def Output.isResponse : Output → Bool
  | .response _ => true
  | .wrote _ _ | .endRequest _ _ => false

def Output.isWrote : Output → Bool
  | .wrote _ _ => true
  | .response _ | .endRequest _ _ => false

def Output.isEnd : Output → Bool
  | .endRequest _ _ => true
  | .response _ | .wrote _ _ => false

/-- At most two calls of `response`, one header block and one END_REQUEST. -/
def Fair (outs : List Output) : Prop :=
  outs.countP Output.isResponse ≤ 2 ∧ outs.countP Output.isWrote ≤ 1 ∧ outs.countP Output.isEnd ≤ 1

/-! ## One id of the system -/

/-- Where the manager thread is with regard to an id. -/
inductive Place where
  | elsewhere | handling | scheduled | erasing
deriving DecidableEq

structure View (Id Class : Type) where
  request : Option (Request Id Class)
  place : Place
  waiting : Nat
  jobs : List (Job Id)
  phase : Phase
  outputs : List Output

namespace View

/-- The calls of `handler` to come. -/
def calls (v : View Id Class) : Nat := v.waiting + if v.place = .handling then 1 else 0

/-- The stages of an id: without a request; with one that is being read;
with one whose job is in the queue, and whose completion is; and with one
that has been answered. The completion may come before `response_start`
is back and `state_` is set. -/
inductive Stage (v : View Id Class) : Prop where
  | closed (hrequest : v.request = none) (hplace : v.place = .elsewhere) (hwaiting : v.waiting = 0)
      (hjobs : v.jobs = []) (hphase : v.phase = .closed)
  | reading {r : Request Id Class} (hrequest : v.request = some r)
      (hplace : v.place = .elsewhere ∨ v.place = .handling) (hrole : r.role = 1)
      (hobj : r.httpObject = none) (hstart : r.state_ = .start) (hstate : r.state ≠ .output)
      (hfilled : r.state = .params → r.postFilled = 0)
      (hsent : r.phase.sendAll r.messages = some v.phase) (hcalls : v.calls = r.messages.length)
      (hjobs : v.jobs = []) (houtputs : v.outputs = [])
  | running {r : Request Id Class} {job : Job Id} {obj : HttpObject Class}
      (hrequest : v.request = some r)
      (hplace : v.place = .scheduled ∨ v.place = .elsewhere ∧ r.state_ = .finish)
      (hrole : r.role = 1) (hobj : r.httpObject = some (job.addr, obj)) (hstate : r.state = .output)
      (hserial : job.serial = r.serial) (hphase : v.phase = .ended) (hmessages : r.messages = [])
      (hwaiting : v.waiting = 0) (hjobs : v.jobs = [job])
      (houtputs : v.outputs = [.response .output])
  | completing {r : Request Id Class} {job : Job Id} {obj : HttpObject Class}
      (hrequest : v.request = some r) (herasing : v.place ≠ .erasing)
      (hplace : v.place = .scheduled ∨ r.state_ = .finish)
      (hrole : r.role = 1) (hobj : r.httpObject = some (job.addr, obj))
      (hstate : r.state = .output) (hphase : v.phase = .ended)
      (hmessages : r.messages = [.callback job]) (hcalls : v.calls = 1) (hjobs : v.jobs = [])
      (houtputs : v.outputs = [.response .output])
  | answered {r : Request Id Class} (hrequest : v.request = some r) (hplace : v.place = .erasing)
      (hmessages : r.messages = []) (hphase : v.phase = .closed) (hwaiting : v.waiting = 0)
      (hjobs : v.jobs = [])

/-! ## A call of `handler` in a stage -/

/-- Before a call of `handler` there is a message, and a record is one that
may come now. -/
theorem Stage.called {v : View Id Class} {r : Request Id Class} (h : Stage v)
    (hrequest : v.request = some r) (hplace : v.place = .handling) :
    (∃ record ms next, r.messages = .record record :: ms ∧ r.phase.send record = some next
      ∧ next.sendAll ms = some v.phase ∧ r.role = 1 ∧ r.httpObject = none ∧ r.state_ = .start
      ∧ r.state ≠ .output ∧ (r.state = .params → r.postFilled = 0) ∧ v.waiting = ms.length
      ∧ v.jobs = [] ∧ v.outputs = [])
    ∨ (∃ job obj, r.messages = [.callback job] ∧ r.role = 1 ∧ r.httpObject = some (job.addr, obj)
      ∧ r.state = .output ∧ r.state_ = .finish ∧ v.waiting = 0 ∧ v.jobs = []
      ∧ v.outputs = [.response .output]) := by
  cases h with
  | closed hrequest' => rw [hrequest] at hrequest'; cases hrequest'
  | answered _ hplace' => rw [hplace] at hplace'; cases hplace'
  | running _ hplace' => rw [hplace] at hplace'; simp at hplace'
  | @reading r' hrequest' _ hrole hobj hstart hstate hfilled hsent hcalls hjobs houtputs =>
      rw [hrequest] at hrequest'
      cases hrequest'
      simp only [calls, hplace, if_true] at hcalls
      cases hm : r.messages with
      | nil => rw [hm] at hcalls; simp at hcalls
      | cons m ms =>
          rw [hm] at hcalls hsent
          cases m with
          | callback job => cases hsent
          | record record =>
              obtain ⟨next, hnext, hms⟩ := Phase.sendAll_record hsent
              exact Or.inl ⟨record, ms, next, rfl, hnext, hms, hrole, hobj, hstart, hstate, hfilled,
                by simpa using hcalls, hjobs, houtputs⟩
  | @completing r' job obj hrequest' _ hplace' hrole hobj hstate _ hmessages hcalls hjobs houtputs =>
      rw [hrequest] at hrequest'
      cases hrequest'
      rw [hplace] at hplace'
      simp only [calls, hplace, if_true] at hcalls
      exact Or.inr ⟨job, obj, hmessages, hrole, hobj, hstate, hplace'.resolve_left (by simp),
        by omega, hjobs, houtputs⟩

/-- What a call of `handler` comes to. -/
inductive HandlerEnds (v : View Id Class) (r r' : Request Id Class) :
    List Output → Verdict Id → Prop where
  | keep (hrecords : ∀ job, .callback job ∉ r.messages)
      (h : Stage { v with request := some r', place := .elsewhere }) : HandlerEnds v r r' [] .keep
  | erase {outs : List Output} (hmessages : r'.messages = []) (hwaiting : v.waiting = 0)
      (hjobs : v.jobs = []) (hend : outs.any Output.isEnd) (hfair : Fair (v.outputs ++ outs))
      (hanswer : ∀ job, .callback job ∈ r.messages →
        ∃ method text, .wrote (.finish job.addr method) text ∈ outs) : HandlerEnds v r r' outs .erase
  | scheduled {job : Job Id} (hrecords : ∀ job, .callback job ∉ r.messages) (hnone : v.outputs = [])
      (hjobs : v.jobs = [])
      (h : Stage { v with
        request := some r', place := .scheduled, jobs := [job], outputs := [.response .output] }) :
      HandlerEnds v r r' [.response .output] (.scheduled job)

/-- The first call of `response`. -/
theorem Stage.starts {v : View Id Class} {id : Id} {addr : Nat} {r₀ r r' : Request Id Class}
    {outs : List Output} {verdict : Verdict Id} (h : r.Responds id addr r' outs verdict)
    (hrecords : ∀ job, .callback job ∉ r₀.messages) (hrole : r.role = 1) (hstate : r.state = .output)
    (hstart : r.state_ = .start) (hmessages : r.messages = []) (hphase : v.phase = .ended)
    (hwaiting : v.waiting = 0) (hjobs : v.jobs = []) (houtputs : v.outputs = []) :
    HandlerEnds v r₀ r' outs verdict := by
  cases h with
  | notFound | fails =>
      refine .erase hmessages hwaiting hjobs rfl ?_ fun job hm => absurd hm (hrecords job)
      simp [houtputs, Fair, List.countP_cons, Output.isResponse, Output.isWrote, Output.isEnd]
  | scheduled obj id_ =>
      have houts : [Output.response r.state] = [.response .output] := by rw [hstate]
      rw [houts]
      exact .scheduled hrecords houtputs hjobs (.running rfl (Or.inl rfl) hrole rfl hstate rfl hphase
        hmessages hwaiting rfl rfl)
  | finish hfinish =>
      rw [hstart] at hfinish
      cases hfinish

theorem Stage.handled {v : View Id Class} {id : Id} {addr : Nat} {r r' : Request Id Class}
    {outs : List Output} {verdict : Verdict Id} (h : Stage v) (hrequest : v.request = some r)
    (hplace : v.place = .handling) (hreads : r.reads) (hhandled : r.Handled id addr r' outs verdict) :
    HandlerEnds v r r' outs verdict := by
  rcases h.called hrequest hplace with
    ⟨record, ms, next, hm, hnext, hms, hrole, hobj, hstart, hstate, hfilled, hwaiting, hjobs, houtputs⟩
    | ⟨job, obj, hm, hrole, hobj, hstate, hfinish, hwaiting, hjobs, houtputs⟩
  · have hrecords : ∀ job, .callback job ∉ r.messages := fun job => by
      rw [hm]
      simpa using Phase.callback_not_mem hms
    -- what is left to read, in a request that goes on
    have hreading : ∀ r₁ : Request Id Class, r₁.role = 1 → r₁.httpObject = none →
        r₁.state_ = .start → r₁.state ≠ .output → (r₁.state = .params → r₁.postFilled = 0) →
        r₁.phase = next → r₁.messages = ms → HandlerEnds v r r₁ [] .keep := by
      intro r₁ hrole₁ hobj₁ hstart₁ hstate₁ hfilled₁ hphase₁ hmessages₁
      refine .keep hrecords (.reading rfl (Or.inl rfl) hrole₁ hobj₁ hstart₁ hstate₁ hfilled₁ ?_ ?_
        hjobs houtputs)
      · rw [hphase₁, hmessages₁, hms]
      · simp [calls, hmessages₁, hwaiting]
    -- the end of the input was the last message
    have hlast : record = .input [] → r.state = .input → ms = [] ∧ v.phase = .ended := by
      rintro rfl hinput
      simp only [Request.phase, hinput, Phase.send, if_true] at hnext
      cases hnext
      exact Phase.sendAll_ended hms
    cases hhandled with
    | badRole hbad => exact absurd (Or.inl hrole) hbad
    | paramsEnd hm' hparams =>
        rw [hm] at hm'
        cases hm'
        simp only [Request.phase, hparams, Phase.send, if_true] at hnext
        cases hnext
        refine hreading _ hrole hobj hstart (by simp) (by simp) ?_ rfl
        exact congrArg (Phase.input r.environment) (hfilled hparams)
    | params hm' hparams hcontent hfill =>
        rw [hm] at hm'
        cases hm'
        simp only [Request.phase, hparams, Phase.send, if_neg hcontent, hfill, Parsed.getD] at hnext
        cases hnext
        refine hreading _ hrole hobj hstart hstate hfilled ?_ rfl
        simp [Request.phase, hparams]
    | fillThrows hm' hparams hcontent hfill =>
        obtain ⟨environment, hvalue⟩ := Request.reads_fill hreads hm' hparams hcontent
        rw [hfill] at hvalue
        cases hvalue
    | @input _ content b postBuffer hm' hinput hcontent hb hfill =>
        rw [hm] at hm'
        cases hm'
        obtain ⟨hfits, rfl⟩ := send_input hinput hcontent hnext
        have hall : postBuffer.filled = r.postFilled + content.length := by
          rw [filled_fillPostBuffer hfill, hb, Nat.min_eq_left (by omega)]
        refine hreading _ hrole hobj hstart hstate (by simp [hinput]) ?_ rfl
        simp [Request.phase, hinput, Request.postFilled, hall]
    | bigPost hm' hinput hcontent hb hfill =>
        rw [hm] at hm'
        cases hm'
        obtain ⟨hfits, -⟩ := send_input hinput hcontent hnext
        have hpos := List.length_pos_of_ne_nil hcontent
        rw [fillPostBuffer_eq_none hcontent, hb] at hfill
        omega
    | inputEnd _ hm' hinput _ h =>
        rw [hm] at hm'
        cases hm'
        obtain ⟨rfl, hphase⟩ := hlast rfl hinput
        exact Stage.starts h hrecords hrole rfl hstart rfl hphase hwaiting hjobs houtputs
    | unknownContentType hm' hinput =>
        rw [hm] at hm'
        cases hm'
        obtain ⟨rfl, -⟩ := hlast rfl hinput
        refine .erase rfl hwaiting hjobs rfl ?_ fun job hm => absurd hm (hrecords job)
        simp [houtputs, Fair, List.countP_cons, Output.isResponse, Output.isWrote, Output.isEnd]
    | outOfOrder hm' horder =>
        rw [hm] at hm'
        cases hm'
        rcases horder with ⟨⟨content, padding, rfl⟩, hbad⟩ | ⟨⟨content, rfl⟩, hbad⟩ <;>
          cases hs : r.state <;> simp_all [Request.phase, Phase.send]
    | abort hm' =>
        rw [hm] at hm'
        cases hm'
        cases hs : r.state <;> simp [Request.phase, hs, Phase.send] at hnext
    | ignored hm' hrecord =>
        rw [hm] at hm'
        cases hm'
        rcases hrecord with rfl | ⟨role, keepConn, rfl⟩ <;> cases hs : r.state <;>
          simp [Request.phase, hs, Phase.send] at hnext
    | callback _ hm' =>
        rw [hm] at hm'
        cases hm'
  · cases hhandled with
    | badRole hbad => exact absurd (Or.inl hrole) hbad
    | callback _ hm' h =>
        rw [hm] at hm'
        cases hm'
        cases h with
        | notFound _ hstart | fails hstart | scheduled _ _ hstart =>
            rw [show r.state_ = .start from hstart] at hfinish
            cases hfinish
        | finish =>
            refine .erase rfl hwaiting hjobs (by simp [Output.isEnd]) ?_ ?_
            · simp [houtputs, Request.responseFinish, hobj, Fair, List.countP_cons, Output.isResponse,
                Output.isWrote, Output.isEnd]
            · intro job' hm'
              rw [hm] at hm'
              cases List.mem_singleton.mp hm'
              exact ⟨_, _, by simp only [Request.responseFinish, hobj]; simp; exact ⟨rfl, rfl⟩⟩
    | paramsEnd hm' | params hm' | fillThrows hm' | input hm' | bigPost hm' | inputEnd _ hm'
    | unknownContentType hm' | outOfOrder hm' | abort hm' | ignored hm' =>
        rw [hm] at hm'
        cases hm'

theorem HandlerEnds.fair {v : View Id Class} {r r' : Request Id Class} {outs : List Output}
    {verdict : Verdict Id} (h : HandlerEnds v r r' outs verdict) (hfair : Fair v.outputs) :
    Fair (v.outputs ++ outs) := by
  cases h with
  | keep => simpa using hfair
  | erase _ _ _ _ hfair' => exact hfair'
  | scheduled _ hnone =>
      simp [hnone, Fair, List.countP_cons, Output.isResponse, Output.isWrote, Output.isEnd]

end View

end Simurga
