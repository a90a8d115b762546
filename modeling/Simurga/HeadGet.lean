import Simurga.Handle
import Simurga.Lib.Header

/-!
# HEAD and GET

A request from `response` to the end of its answer (`serve`), once with GET
and once with HEAD. `response_finish` leaves the body out for HEAD, the two
branches of `response_start` that answer at once do not.
`head_mirrors_get_iff` says when HEAD gets the header block of the answer
to GET and nothing else.
-/

namespace Simurga

variable {Id Class : Type}

/-! ## A request and its job -/

namespace Request

def withMethod (r : Request Id Class) (method : RequestMethod) : Request Id Class :=
  { r with environment := { r.environment with requestMethod := method } }

/-- `HttpObject::handle` for the object of the request, by its job. -/
def runJob (handlers : Class → Handlers Class) (outOfRange : Bytes) (r : Request Id Class)
    (job : Job Id) : Request Id Class :=
  match r.httpObject with
  | some (_, obj) =>
      r.writeReply job (obj.handle (handlers obj.objectClass) outOfRange
        r.environment.requestMethod job.id_).reply
  | none => r

/-- `response`; and where it has scheduled a job, that one, the end of
`response_start` and `response` again. -/
def serve (table : ObjectTable Class) (handlers : Class → Handlers Class) (outOfRange : Bytes)
    (fails : Bool) (fullId : Id) (addr : Nat) (r : Request Id Class) : List Output :=
  match r.response table fails fullId addr with
  | (r', outs, .scheduled job) =>
      let r' := { r'.runJob handlers outOfRange job with state_ := .finish }
      outs ++ (r'.response table fails fullId addr).2.1
  | (_, outs, _) => outs

/-- The end of the input of a request that is not a POST. -/
theorem handler_input {table : ObjectTable Class} {fails : Bool} {fresh : Nat → UInt8} {fullId : Id}
    {addr : Nat} {r : Request Id Class} (hrole : r.role = 1) (hmessages : r.messages = [.record (.input [])])
    (hstate : r.state = .input) (hmethod : r.environment.requestMethod ≠ .post) :
    r.handler table fails fresh fullId addr
      = some ({ r with messages := [], postBuffer := none, state := .output }.response table fails
          fullId addr) := by
  simp [handler, handleMessage, hrole, hmessages, hstate, Environment.parsePosts, hmethod]

end Request

/-! ## The run behind `serve` -/

namespace System

variable [DecidableEq Id]

/-- A request that is answered at once. -/
theorem run_erase {table : ObjectTable Class} {fails : Bool} {fresh : Nat → UInt8}
    {s : System Id Class} {id : Id} {r r' : Request Id Class} {outs : List Output}
    (hthread : s.thread = .handling id) (hr : s.requests id = some r)
    (hhandler : r.handler table fails fresh id s.next = some (r', outs, .erase))
    (log : List (Event Id)) :
    (Machine.run (step table) Machine.anyOrder log s [.handle fails fresh]).map
      (fun x => outputs r.serial x.1) = some (outputs r.serial log ++ outs) := by
  simp [Machine.run, Machine.anyOrder, step, hthread, hr, hhandler, afterHandler, outputs]

/-- Where nothing else is to be done, a request whose input has ended is
answered as `serve` says. -/
theorem served_as_serve (table : ObjectTable Class) (handlers : Class → Handlers Class)
    (outOfRange : Bytes) (fails : Bool) {s : System Id Class} {id : Id} {r : Request Id Class}
    (hthread : s.thread = .handling id) (htasks : s.tasks = []) (hqueue : s.jobQueue = {})
    (hr : s.requests id = some r) (hrole : r.role = 1)
    (hmessages : r.messages = [.record (.input [])]) (hstate : r.state = .input)
    (hmethod : r.environment.requestMethod ≠ .post) (hstart : r.state_ = .start)
    (log : List (Event Id)) :
    ∃ as, (Machine.run (step table) Machine.anyOrder log s as).map (fun x => outputs r.serial x.1)
      = some (outputs r.serial log
          ++ { r with messages := [], postBuffer := none, state := .output }.serve table handlers
            outOfRange fails id s.next) := by
  have hinput : r.handler table fails (fun _ => 0) id s.next = some
      ({ r with messages := [], postBuffer := none, state := .output }.response table fails id
        s.next) :=
    Request.handler_input hrole hmessages hstate hmethod
  cases fails with
  | true =>
      refine ⟨[.handle true], ?_⟩
      simp only [Request.response, hstart, Request.responseStart, if_true] at hinput
      rw [run_erase hthread hr hinput]
      simp [Request.serve, Request.response, Request.responseStart, hstart]
  | false =>
      obtain ⟨obj, id', hallocate⟩ : ∃ obj id', HttpObjectList.allocate table
          r.environment.requestUri r.id_ = (obj, id') := ⟨_, _, rfl⟩
      cases obj with
      | none =>
          refine ⟨[.handle false], ?_⟩
          simp only [Request.response, hstart, Request.responseStart, hallocate,
            Bool.false_eq_true, if_false] at hinput
          rw [run_erase hthread hr hinput]
          simp [Request.serve, Request.response, Request.responseStart, hstart, hallocate]
      | some obj =>
          -- the job thread comes in when `response_start` has returned
          refine ⟨[.handle false, .startReturns, .checkJobs, .nextJob,
            .handleReturns (obj.handle (handlers obj.objectClass) outOfRange
              r.environment.requestMethod id').reply, .callbackReturns, .take, .handle false], ?_⟩
          simp [Machine.run, Machine.anyOrder, step, hthread, htasks, hqueue, hr, Request.handler,
            hrole, hmessages, Request.handleMessage, hstate, Environment.parsePosts, hmethod, Request.serve,
            Request.response, Request.responseStart, hstart, hallocate, afterHandler, setRequest,
            jobStep, JobQueue.step, JobQueue.add, JobQueue.notifyAll, push, Request.writeReply,
            Request.runJob, Request.responseFinish, Request.complete, outputs]

end System

/-! ## Header lines -/

/-- What goes to `out`. -/
def written (outs : List Output) : Bytes :=
  outs.flatMap fun
    | .wrote _ text => text
    | .response _ | .endRequest _ _ => []

/-- A line that gives the size of the data is right about it. -/
def LengthIs (n : Nat) (line : Bytes) : Prop :=
  ∀ value, line = bytes "Content-Length: " ++ value → value = Decimal.digits n

abbrev HeaderLines (n : Nat) (text : Bytes) : Prop :=
  Header.IsLines '\r'.toUInt8 '\n'.toUInt8 (LengthIs n) text

/-- What `head` is to `get`: its header block, up to and including the empty
line, in which every `Content-Length` is that of the body of `get`. -/
def Mirrors (get head : Bytes) : Prop :=
  ∃ (ls : List Bytes) (body : Bytes),
    Header.Good '\r'.toUInt8 '\n'.toUInt8 (LengthIs body.length) ls
    ∧ get = Header.block '\r'.toUInt8 '\n'.toUInt8 ls ++ body
    ∧ head = Header.block '\r'.toUInt8 '\n'.toUInt8 ls

theorem crlf_ne : '\r'.toUInt8 ≠ '\n'.toUInt8 := by decide

theorem bytes_crlf : bytes "\r\n" = ['\r'.toUInt8, '\n'.toUInt8] := rfl

/-- Lines in front of the empty line, and anything behind it. -/
theorem mirrors_iff {text body : Bytes} :
    Mirrors (text ++ bytes "\r\n" ++ body) (text ++ bytes "\r\n") ↔ HeaderLines body.length text := by
  constructor
  · rintro ⟨ls, body', hgood, hget, hhead⟩
    have htext : text = Header.text _ _ ls := List.append_cancel_right hhead
    rw [hhead] at hget
    obtain rfl := List.append_cancel_left hget
    exact ⟨ls, hgood, htext⟩
  · rintro ⟨ls, hgood, rfl⟩
    exact ⟨ls, body, hgood, rfl, rfl⟩

/-- An answer with a body does not mirror itself. -/
theorem not_mirrors_self {n : Nat} {text : Bytes} (body : Bytes) (htext : HeaderLines n text) (hbody : body ≠ []) :
    ¬ Mirrors (text ++ bytes "\r\n" ++ body) (text ++ bytes "\r\n" ++ body) := by
  rintro ⟨ls, body', hgood, hget, hhead⟩
  obtain ⟨ls', hgood', rfl⟩ := htext
  have hnone : body' = [] := by
    rw [hhead] at hget
    exact List.self_eq_append_right.mp hget
  have hblock : Header.block '\r'.toUInt8 '\n'.toUInt8 ls' ++ body
      = Header.block '\r'.toUInt8 '\n'.toUInt8 ls ++ [] := by
    rw [List.append_nil]
    exact hhead
  exact hbody (Header.block_unique crlf_ne hgood' hgood hblock).2

/-! ## Fields and lines -/

theorem headerLines_append {n : Nat} {a b : Bytes} :
    HeaderLines n (a ++ bytes "\r\n" ++ b) ↔ HeaderLines n (a ++ bytes "\r\n") ∧ HeaderLines n b := by
  rw [bytes_crlf, List.append_assoc]
  exact Header.isLines_append crlf_ne

/-- A line of the source itself. -/
theorem headerLines_line {n : Nat} {line : Bytes} (hcr : '\r'.toUInt8 ∉ line) (hne : line ≠ [])
    (hlength : LengthIs n line) : HeaderLines n (line ++ bytes "\r\n") :=
  Header.isLines_line (Header.isLine_of_not_mem hcr) hne hlength

theorem lengthIs_of_other {n : Nat} {line : Bytes} (h : ¬ bytes "Content-Length: " <+: line) :
    LengthIs n line := by
  rintro value rfl
  exact absurd (List.prefix_append ..) h

theorem headerLines_contentLength (n : Nat) :
    HeaderLines n (bytes "Content-Length: " ++ Decimal.digits n ++ bytes "\r\n") := by
  refine headerLines_line ?_ (by simp [bytes]) fun value h => (List.append_cancel_left h).symm
  rw [List.mem_append, not_or]
  exact ⟨by decide, fun h => absurd (Decimal.digits_digit n _ h) (by decide)⟩

theorem headerLines_plainText (n : Nat) :
    HeaderLines n (bytes "Content-Type: " ++ bytes "text/plain" ++ bytes "\r\n") :=
  headerLines_line (by decide) (by decide) (lengthIs_of_other (by decide))

/-- The fields of a reply are lines of its header. -/
structure HeaderFields (n : Nat) (status contentType customHeaders : Bytes) : Prop where
  status : HeaderLines n (bytes "Status: " ++ status ++ bytes "\r\n")
  contentType : contentType ≠ [] →
    HeaderLines n (bytes "Content-Type: " ++ contentType ++ bytes "\r\n")
  customHeaders : HeaderLines n customHeaders

/-- The header lines of `response_finish`. -/
def finishLines (reply : Reply) : Bytes :=
  bytes "Status: " ++ reply.status ++ bytes "\r\n"
    ++ (if reply.contentType = [] then []
      else bytes "Content-Type: " ++ reply.contentType ++ bytes "\r\n")
    ++ bytes "Content-Length: " ++ Decimal.digits reply.data.length ++ bytes "\r\n"
    ++ reply.customHeaders

theorem finishText_eq (method : RequestMethod) (reply : Reply) :
    finishText method reply
      = finishLines reply ++ bytes "\r\n" ++ (if method = .head then [] else reply.data) := rfl

theorem headerLines_finishLines_iff {reply : Reply} :
    HeaderLines reply.data.length (finishLines reply)
      ↔ HeaderFields reply.data.length reply.status reply.contentType reply.customHeaders := by
  have hlength : ∀ rest, HeaderLines reply.data.length (bytes "Content-Length: "
        ++ Decimal.digits reply.data.length ++ bytes "\r\n" ++ rest)
      ↔ HeaderLines reply.data.length rest := by
    intro rest
    rw [headerLines_append]
    exact and_iff_right (headerLines_contentLength _)
  have hsplit : finishLines reply = bytes "Status: " ++ reply.status ++ bytes "\r\n"
      ++ ((if reply.contentType = [] then []
        else bytes "Content-Type: " ++ reply.contentType ++ bytes "\r\n")
      ++ (bytes "Content-Length: " ++ Decimal.digits reply.data.length ++ bytes "\r\n"
        ++ reply.customHeaders)) := by
    simp only [finishLines, List.append_assoc]
  rw [hsplit, headerLines_append]
  by_cases hct : reply.contentType = []
  · rw [if_pos hct, List.nil_append, hlength]
    exact ⟨fun h => ⟨h.1, absurd hct, h.2⟩, fun h => ⟨h.status, h.customHeaders⟩⟩
  · rw [if_neg hct, headerLines_append, hlength]
    exact ⟨fun h => ⟨h.1, fun _ => h.2.1, h.2.2⟩,
      fun h => ⟨h.status, h.contentType hct, h.customHeaders⟩⟩

theorem finishText_mirrors_iff {reply : Reply} :
    Mirrors (finishText .get reply) (finishText .head reply)
      ↔ HeaderFields reply.data.length reply.status reply.contentType reply.customHeaders := by
  rw [finishText_eq, finishText_eq, if_neg (by decide), if_pos rfl, List.append_nil, mirrors_iff]
  exact headerLines_finishLines_iff

/-! ## The branches of `response_start` -/

/-- What the two branches write before the empty line. -/
theorem headerLines_atOnce (n : Nat) (status : Bytes) (hcr : '\r'.toUInt8 ∉ status) :
    HeaderLines n (bytes "Status: " ++ status ++ bytes "\r\n"
      ++ (bytes "Content-Type: " ++ bytes "text/plain" ++ bytes "\r\n")) := by
  rw [headerLines_append]
  refine ⟨headerLines_line ?_ (by simp [bytes]) ?_, headerLines_plainText n⟩
  · rw [List.mem_append, not_or]
    exact ⟨by decide, hcr⟩
  · intro value h
    have hfirst : 'S'.toUInt8 = 'C'.toUInt8 := (List.cons.inj h).1
    exact absurd hfirst (by decide)

theorem notFoundText_not_mirrors : ¬ Mirrors notFoundText notFoundText :=
  not_mirrors_self (bytes "Invalid url\r\n") (headerLines_atOnce 0 (bytes "404 Not Found") (by decide))
    (by decide)

theorem serverErrorText_not_mirrors : ¬ Mirrors serverErrorText serverErrorText :=
  not_mirrors_self (bytes "Internal server error\r\n")
    (headerLines_atOnce 0 (bytes "500 Internal Server Error") (by decide)) (by decide)

/-! ## What a request is answered -/

namespace Request

variable {table : ObjectTable Class} {handlers : Class → Handlers Class} {outOfRange : Bytes}
  {fullId : Id} {addr : Nat} {r : Request Id Class}

theorem written_serve_fails (hstart : r.state_ = .start) :
    written (r.serve table handlers outOfRange true fullId addr) = serverErrorText := by
  simp [serve, response, responseStart, hstart, written, complete]

theorem written_serve_notFound (hstart : r.state_ = .start) {id : Bytes}
    (h : HttpObjectList.allocate table r.environment.requestUri r.id_ = (none, id)) :
    written (r.serve table handlers outOfRange false fullId addr) = notFoundText := by
  simp [serve, response, responseStart, hstart, h, written, complete]

theorem written_serve (hstart : r.state_ = .start) {obj : HttpObject Class} {id : Bytes}
    (h : HttpObjectList.allocate table r.environment.requestUri r.id_ = (some obj, id)) :
    written (r.serve table handlers outOfRange false fullId addr)
      = finishText r.environment.requestMethod (obj.handle (handlers obj.objectClass) outOfRange
          r.environment.requestMethod id).reply := by
  simp [serve, response, responseStart, hstart, h, written, complete, runJob, writeReply,
    responseFinish]

end Request

/-! ## HEAD and GET -/

/-- What `get` leaves as header fields, its own or those of what it throws,
are header lines. -/
def LeavesHeaderLines (outOfRange : Bytes) : HttpObject Class × Option Thrown → Prop
  | (obj, none) => HeaderFields obj.data.length obj.status obj.contentType obj.customHeaders
  | (obj, some (.httpException status what)) =>
      HeaderLines (cString what).length (bytes "Status: " ++ status ++ bytes "\r\n")
        ∧ HeaderLines (cString what).length obj.customHeaders
  | (obj, some e) => HeaderLines (cString (e.what outOfRange)).length obj.customHeaders

theorem headerFields_handle_iff {handlers : Handlers Class} {outOfRange id : Bytes}
    {obj : HttpObject Class} :
    HeaderFields (obj.handle handlers outOfRange .get id).reply.data.length
        (obj.handle handlers outOfRange .get id).reply.status
        (obj.handle handlers outOfRange .get id).reply.contentType
        (obj.handle handlers outOfRange .get id).reply.customHeaders
      ↔ LeavesHeaderLines outOfRange (handlers.get id obj) := by
  have hcall : handlers.call .get id obj = handlers.get id obj := rfl
  have hstatus : ∀ n, HeaderLines n
      (bytes "Status: " ++ bytes "500 Internal Server Error" ++ bytes "\r\n") :=
    fun n => (headerLines_append.mp (headerLines_atOnce n _ (by decide))).1
  unfold HttpObject.handle
  rw [hcall]
  obtain ⟨left, thrown⟩ := handlers.get id obj
  cases thrown with
  | none => exact Iff.rfl
  | some e =>
      cases e with
      | httpException status what =>
          exact ⟨fun h => ⟨h.status, h.customHeaders⟩,
            fun h => ⟨h.1, fun _ => headerLines_plainText _, h.2⟩⟩
      | runtimeError | outOfRange | outOfFuel =>
          exact ⟨fun h => h.customHeaders,
            fun h => ⟨hstatus _, fun _ => headerLines_plainText _, h⟩⟩

/-- A handler that `head` does not override sees no difference. -/
theorem handle_head {handlers : Handlers Class} (hhead : handlers.head = handlers.get)
    (outOfRange id : Bytes) (obj : HttpObject Class) :
    obj.handle handlers outOfRange .head id = obj.handle handlers outOfRange .get id := by
  have hcall : handlers.call .head = handlers.call .get := hhead
  unfold HttpObject.handle
  rw [hcall]

/-- HEAD gets the header block of GET, with the size of the body of GET, if
and only if the URI is found, nothing fails on the way to the job queue, and
`get` leaves header lines. -/
theorem head_mirrors_get_iff (table : ObjectTable Class) {handlers : Class → Handlers Class}
    (hhead : ∀ c, (handlers c).head = (handlers c).get) (outOfRange : Bytes) (fails : Bool)
    (fullId : Id) (addr : Nat) {r : Request Id Class} (hstart : r.state_ = .start) :
    Mirrors
        (written ((r.withMethod .get).serve table handlers outOfRange fails fullId addr))
        (written ((r.withMethod .head).serve table handlers outOfRange fails fullId addr))
      ↔ fails = false ∧ ∃ obj id,
        HttpObjectList.allocate table r.environment.requestUri r.id_ = (some obj, id)
        ∧ LeavesHeaderLines outOfRange ((handlers obj.objectClass).get id obj) := by
  have hget : (r.withMethod .get).state_ = .start := hstart
  have hhead' : (r.withMethod .head).state_ = .start := hstart
  cases fails with
  | true =>
      rw [Request.written_serve_fails hget, Request.written_serve_fails hhead']
      exact iff_of_false serverErrorText_not_mirrors fun h => by cases h.1
  | false =>
      obtain ⟨obj, id, hallocate⟩ : ∃ obj id, HttpObjectList.allocate table
          r.environment.requestUri r.id_ = (obj, id) := ⟨_, _, rfl⟩
      cases obj with
      | none =>
          rw [Request.written_serve_notFound hget hallocate,
            Request.written_serve_notFound hhead' hallocate]
          refine iff_of_false notFoundText_not_mirrors ?_
          rintro ⟨-, obj, id, hfound, -⟩
          rw [hallocate] at hfound
          cases hfound
      | some obj =>
          rw [Request.written_serve hget hallocate, Request.written_serve hhead' hallocate]
          have hsame : obj.handle (handlers obj.objectClass) outOfRange .head id
              = obj.handle (handlers obj.objectClass) outOfRange .get id :=
            handle_head (hhead obj.objectClass) outOfRange id obj
          have hmirrors : Mirrors (finishText .get
                (obj.handle (handlers obj.objectClass) outOfRange .get id).reply)
              (finishText .head (obj.handle (handlers obj.objectClass) outOfRange .head id).reply)
              ↔ LeavesHeaderLines outOfRange ((handlers obj.objectClass).get id obj) := by
            rw [hsame, finishText_mirrors_iff, headerFields_handle_iff]
          refine hmirrors.trans ⟨fun h => ⟨rfl, obj, id, hallocate, h⟩, ?_⟩
          rintro ⟨-, obj', id', hfound, h⟩
          rw [hallocate] at hfound
          cases hfound
          exact h

/-- A request that has been received. -/
def sampleRequest (uri : Bytes) : Request Nat ObjectClass :=
  { serial := 0, role := 1, killCon := true, environment := { requestUri := uri }, state := .output }

/-- The page of a handler that redirects and then throws `NotFound`. -/
theorem head_mirrors_get_iff_sample :
    Mirrors
        (written (((sampleRequest []).withMethod .get).serve standardTable
          (fun _ => sampleHandlers [.redirect (bytes "/contacts")]) [] false 0 1))
        (written (((sampleRequest []).withMethod .head).serve standardTable
          (fun _ => sampleHandlers [.redirect (bytes "/contacts")]) [] false 0 1))
      ↔ false = false ∧ ∃ obj id, HttpObjectList.allocate standardTable [] [] = (some obj, id)
        ∧ LeavesHeaderLines [] ((sampleHandlers [.redirect (bytes "/contacts")]).get id obj) :=
  head_mirrors_get_iff standardTable (fun _ => rfl) [] false 0 1 (r := sampleRequest []) rfl

/-- HEAD for a URI that nothing answers: the text of the 404 comes with it. -/
theorem head_of_unknown_uri :
    ¬ Mirrors
        (written (((sampleRequest (bytes "/nothing")).withMethod .get).serve standardTable
          (fun _ => {}) [] false 0 1))
        (written (((sampleRequest (bytes "/nothing")).withMethod .head).serve standardTable
          (fun _ => {}) [] false 0 1)) := by
  have hunknown : HttpObjectList.allocate standardTable (bytes "/nothing") []
      = (none, bytes "nothing") := by decide +kernel
  rw [Request.written_serve_notFound (r := (sampleRequest (bytes "/nothing")).withMethod .get) rfl
      hunknown,
    Request.written_serve_notFound (r := (sampleRequest (bytes "/nothing")).withMethod .head) rfl
      hunknown]
  exact notFoundText_not_mirrors

end Simurga
