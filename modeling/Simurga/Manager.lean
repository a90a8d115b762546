import Simurga.Environment
import Simurga.HttpService
import Simurga.JobQueue

/-!
# Requests, the manager and the job thread

`Fastcgipp::Manager` and `Fastcgipp::Request` (`manager.hpp`,
`request.cpp`) with the `Request` of `main.cpp`: two threads that share
the request table, the message queue of each request, the task queue and
the job queue. The manager thread receives records and hands them to the
requests, until a signal makes it leave and `main` stops the job queue;
the job thread runs `HttpObject::handle` and then the completion, which is
`Manager::push` again.

A step is what one thread does between two points where the other one can
come in. So a request is still without its `Finish` while its job is in
the queue already, and it is still in the table between `handler` and
`erase`.

A `Request` object is known by a serial number and an `HttpObject` by its
address, both given out once. Neither is read by the code: the job holds
the address as its raw pointer, the completion is bound to the `FullId`
alone. Records with request id 0 go to `localHandler` and have no request,
so they are left out, as is the content of the error log.
-/

namespace Simurga

/-! ## Records, messages and jobs -/

/-- A FastCGI record of a request. A `params` or `input` record without
content is the one that ends its stream. `fill` may read the padding. -/
inductive Record where
  | beginRequest (role : Nat) (keepConn : Bool)
  | params (content padding : Bytes)
  | input (content : Bytes)
  | abortRequest
  | other
deriving DecidableEq

variable {Id : Type}

/-- `boost::bind(&HttpObject::handle, http_object_.get(), id_)` and the
completion bound to `fullId`. The serial is that of the request that
scheduled it. -/
structure Job (Id : Type) where
  addr : Nat
  id_ : Bytes
  fullId : Id
  serial : Nat
deriving DecidableEq

/-- `Fastcgipp::Message`: type 0 with a record, or type 1 from a completion. -/
inductive Message (Id : Type) where
  | record (record : Record)
  | callback (job : Job Id)
deriving DecidableEq

/-- What `HttpObject::handle` leaves in its object. -/
structure Reply where
  status : Bytes
  contentType : Bytes
  customHeaders : Bytes
  data : Bytes
deriving DecidableEq

def HttpObject.write {Class : Type} (obj : HttpObject Class) (reply : Reply) : HttpObject Class :=
  { obj with status := reply.status, contentType := reply.contentType
             customHeaders := reply.customHeaders, data := reply.data }

/-! ## `Request` -/

/-- `Fastcgipp::Request::state`. -/
inductive RecordState where
  | params | input | output
deriving DecidableEq

/-- `Request::State`. -/
inductive ResponseState where
  | start | finish
deriving DecidableEq

/-- `Fastcgipp::Request` and `Request`. -/
structure Request (Id Class : Type) where
  serial : Nat
  role : Nat
  killCon : Bool
  messages : List (Message Id) := []
  environment : Environment := {}
  postBuffer : Option PostBuffer := none
  state : RecordState := .params
  state_ : ResponseState := .start
  httpObject : Option (Nat × HttpObject Class) := none
  id_ : Bytes := []

/-- Which header block was written. -/
inductive Answer where
  | notFound
  | serverError
  | finish (addr : Nat) (method : RequestMethod)
  | bigPost
  | handlerError
deriving DecidableEq

/-- `Protocol::ProtocolStatus`, as far as it is sent. -/
inductive ProtocolStatus where
  | requestComplete | unknownRole
deriving DecidableEq

/-- What a request does that is seen outside: a call of `response()`, a
header block with its body, an END_REQUEST record. -/
inductive Output where
  | response (state : RecordState)
  | wrote (answer : Answer) (text : Bytes)
  | endRequest (status : ProtocolStatus) (killCon : Bool)
deriving DecidableEq

def notFoundText : Bytes :=
  bytes "Status: 404 Not Found\r\nContent-Type: text/plain\r\n\r\nInvalid url\r\n"

def serverErrorText : Bytes :=
  bytes "Status: 500 Internal Server Error\r\nContent-Type: text/plain\r\n\r\n" ++
    bytes "Internal server error\r\n"

/-- `errorHandler`. -/
def errorHandlerText : Bytes :=
  bytes "Status: 500 Internal Server Error\nContent-Type: text/html; charset=ISO-8859-1\r\n\r\n" ++
    bytes "<!DOCTYPE html><html lang='en'><head><title>500 Internal Server Error</title></head>" ++
    bytes "<body><h1>500 Internal Server Error</h1></body></html>"

/-- `bigPostErrorHandler`. -/
def bigPostErrorText : Bytes :=
  bytes "Status: 413 Request Entity Too Large\nContent-Type: text/html; charset=ISO-8859-1\r\n\r\n" ++
    bytes "<!DOCTYPE html><html lang='en'><head><title>413 Request Entity Too Large</title></head>" ++
    bytes "<body><h1>413 Request Entity Too Large</h1></body></html>"

/-- `response_finish`: the header block of a reply, and its data unless
the method is HEAD. -/
def finishText (method : RequestMethod) (reply : Reply) : Bytes :=
  bytes "Status: " ++ reply.status ++ bytes "\r\n"
    ++ (if reply.contentType = [] then []
      else bytes "Content-Type: " ++ reply.contentType ++ bytes "\r\n")
    ++ bytes "Content-Length: " ++ Decimal.digits reply.data.length ++ bytes "\r\n"
    ++ reply.customHeaders ++ bytes "\r\n"
    ++ (if method = .head then [] else reply.data)

/-- What `response_finish` reads of an object. -/
def HttpObject.reply {Class : Type} (obj : HttpObject Class) : Reply :=
  ⟨obj.status, obj.contentType, obj.customHeaders, obj.data⟩

@[simp] theorem HttpObject.reply_write {Class : Type} (obj : HttpObject Class) (reply : Reply) :
    (obj.write reply).reply = reply := rfl

/-- How a call of `handler` ends: the request stays, is erased, or stays
with a job just added, not yet back from `response_start`. -/
inductive Verdict (Id : Type) where
  | keep
  | erase
  | scheduled (job : Job Id)

variable {Class : Type}

namespace Request

/-- `Request::response_start` for the request of `fullId`, up to
`JobQueue::add`. `fails` is an exception on the way there; `addr` is the
address of the object that `allocate` makes. -/
def responseStart (table : ObjectTable Class) (fails : Bool) (fullId : Id) (addr : Nat)
    (r : Request Id Class) : Request Id Class × List Output × Verdict Id :=
  if fails then (r, [.wrote .serverError serverErrorText], .erase)
  else
    match HttpObjectList.allocate table r.environment.requestUri r.id_ with
    | (none, id_) => ({ r with id_, httpObject := none }, [.wrote .notFound notFoundText], .erase)
    | (some obj, id_) =>
        ({ r with id_, httpObject := some (addr, obj) }, [],
          .scheduled { addr, id_, fullId, serial := r.serial })

/-- `Request::response_finish`. -/
def responseFinish (r : Request Id Class) : List Output :=
  match r.httpObject with
  | some (addr, obj) =>
      [.wrote (.finish addr r.environment.requestMethod)
        (finishText r.environment.requestMethod obj.reply)]
  | none => []

/-- `complete`. -/
def complete (r : Request Id Class) : List Output := [.endRequest .requestComplete r.killCon]

/-- `Request::response` in `handler`: with `complete` when it returns true. -/
def response (table : ObjectTable Class) (fails : Bool) (fullId : Id) (addr : Nat)
    (r : Request Id Class) : Request Id Class × List Output × Verdict Id :=
  match r.state_ with
  | .start =>
      match r.responseStart table fails fullId addr with
      | (r', outs, .erase) => (r', .response r.state :: outs ++ r.complete, .erase)
      | (r', outs, verdict) => (r', .response r.state :: outs, verdict)
  | .finish => (r, .response r.state :: r.responseFinish ++ r.complete, .erase)

/-- The `catch` of `handler`. -/
def error (r : Request Id Class) : Request Id Class × List Output × Verdict Id :=
  (r, .wrote .handlerError errorHandlerText :: r.complete, .erase)

/-- `handler` from the message on, unless it leaves its memory. `fresh` is
what is in the memory of a new buffer. -/
def handleMessage (table : ObjectTable Class) (fails : Bool) (fresh : Nat → UInt8) (fullId : Id)
    (addr : Nat) (r : Request Id Class) :
    Message Id → Option (Request Id Class × List Output × Verdict Id)
  | .record (.params content padding) =>
      if r.state ≠ .params then some r.error
      else if content = [] then some ({ r with state := .input }, [], .keep)
      else
        match r.environment.fill content padding with
        | .value environment => some ({ r with environment }, [], .keep)
        | .thrown environment => some (error { r with environment })
        | .undefined => none
  | .record (.input content) =>
      if r.state ≠ .input then some r.error
      else if content = [] then
        match r.environment.parsePosts r.postBuffer with
        | .value environment =>
            some (response table fails fullId addr
              { r with environment, postBuffer := none, state := .output })
        | .thrown environment => some (error { r with environment })
        | .undefined => none
      else
        match fillPostBuffer r.environment.contentLength.toNat (r.postBuffer.getD { mem := fresh })
          content with
        | some postBuffer => some ({ r with postBuffer := some postBuffer }, [], .keep)
        | none => some (r, .wrote .bigPost bigPostErrorText :: r.complete, .erase)
  | .record .abortRequest => some (r, [], .erase)
  | .record (.beginRequest _ _) | .record .other => some (r, [], .keep)
  | .callback _ => some (response table fails fullId addr r)

/-- `Fastcgipp::Request::handler`. The front of an empty queue is
undefined. -/
def handler (table : ObjectTable Class) (fails : Bool) (fresh : Nat → UInt8) (fullId : Id)
    (addr : Nat) (r : Request Id Class) : Option (Request Id Class × List Output × Verdict Id) :=
  if ¬ (r.role = 1 ∨ r.role = 2) then
    some (r, [.endRequest .unknownRole r.killCon], .erase)
  else
    match r.messages with
    | [] => none
    | message :: messages =>
        handleMessage table fails fresh fullId addr { r with messages } message

/-- The write of `handle` through the raw pointer of its job. -/
def writeReply (r : Request Id Class) (job : Job Id) (reply : Reply) : Request Id Class :=
  match r.httpObject with
  | some (addr, obj) =>
      if addr = job.addr then { r with httpObject := some (addr, obj.write reply) } else r
  | none => r

end Request

/-! ## The system -/

/-- Where the thread in `Manager::handler` stands. -/
inductive ManagerThread (Id : Type) where
  /-- Receiving, or before the next task. -/
  | idle
  /-- Before the call of `handler`. -/
  | handling (id : Id)
  /-- In `response_start`, behind `JobQueue::add`. -/
  | scheduled (id : Id)
  /-- `handler` has returned true. -/
  | erasing (id : Id)
  /-- `handler` was undefined. -/
  | undefined
  /-- Back in `main`. -/
  | left
deriving DecidableEq

structure System (Id Class : Type) where
  requests : Id → Option (Request Id Class) := fun _ => none
  tasks : List Id := []
  thread : ManagerThread Id := .idle
  jobQueue : JobQueue (Job Id) := {}
  /-- The next serial number or address. -/
  next : Nat := 0

namespace System

inductive Act (Id : Type) where
  /-- `transceiver.handler()` reads a record and pushes it. -/
  | receive (id : Id) (record : Record)
  | take
  /-- A new buffer for a form holds what is in `fresh`. -/
  | handle (fails : Bool) (fresh : Nat → UInt8 := fun _ => 0)
  | startReturns
  | erase
  | leave
  | stopJobs
  | checkJobs
  | wakeJobs
  | nextJob
  | handleReturns (reply : Reply)
  | callbackReturns

inductive Event (Id : Type) where
  | opened (serial : Nat) (id : Id)
  | received (id : Id) (record : Record)
  | output (serial : Nat) (id : Id) (o : Output)
  | scheduled (job : Job Id)
  | returned (job : Job Id) (reply : Reply)
  | completed (job : Job Id)
deriving DecidableEq

variable [DecidableEq Id]

/-- `requests[id]` is set or erased. -/
def setRequest (s : System Id Class) (id : Id) (r : Option (Request Id Class)) :
    System Id Class :=
  { s with requests := Function.update s.requests id r }

/-- `Manager::push`. -/
def push (s : System Id Class) (id : Id) (message : Message Id) : System Id Class × List (Event Id) :=
  match s.requests id with
  | some r =>
      ({ s.setRequest id (some { r with messages := r.messages ++ [message] }) with
          tasks := s.tasks ++ [id] }, [])
  | none =>
      match message with
      | .record (.beginRequest role keepConn) =>
          ({ s.setRequest id (some { serial := s.next, role, killCon := !keepConn }) with
              next := s.next + 1 }, [.opened s.next id])
      | _ => (s, [])

/-- The manager thread behind a call of `handler`. -/
def afterHandler (s : System Id Class) (id : Id) (serial : Nat) (r : Request Id Class)
    (outs : List Output) : Verdict Id → System Id Class × List (Event Id)
  | .keep => ({ s.setRequest id (some r) with thread := .idle }, outs.map (.output serial id))
  | .erase => ({ s.setRequest id (some r) with thread := .erasing id }, outs.map (.output serial id))
  | .scheduled job =>
      ({ s.setRequest id (some r) with
          thread := .scheduled id, jobQueue := s.jobQueue.add job, next := s.next + 1 },
        outs.map (.output serial id) ++ [.scheduled job])

/-- A step of the job queue that runs nothing. -/
def jobStep (s : System Id Class) (a : JobQueue.Act (Job Id)) :
    Option (System Id Class × List (Event Id)) :=
  (s.jobQueue.step a).map fun (jobQueue, _) => ({ s with jobQueue }, [])

/-- One step of either thread. -/
def step (table : ObjectTable Class) (s : System Id Class) :
    Act Id → Option (System Id Class × List (Event Id))
  | .receive id record =>
      match s.thread with
      | .idle =>
          let (s', es) := s.push id (.record record)
          some (s', .received id record :: es)
      | _ => none
  | .take =>
      match s.thread, s.tasks with
      | .idle, id :: tasks =>
          if (s.requests id).isSome then some ({ s with tasks, thread := .handling id }, [])
          else some ({ s with tasks }, [])
      | _, _ => none
  | .handle fails fresh =>
      match s.thread with
      | .handling id =>
          match s.requests id with
          | some r =>
              match r.handler table fails fresh id s.next with
              | some (r', outs, verdict) => some (s.afterHandler id r.serial r' outs verdict)
              | none => some ({ s with thread := .undefined }, [])
          | none => none
      | _ => none
  | .startReturns =>
      match s.thread with
      | .scheduled id =>
          match s.requests id with
          | some r =>
              some ({ s.setRequest id (some { r with state_ := .finish }) with thread := .idle }, [])
          | none => none
      | _ => none
  | .erase =>
      match s.thread with
      | .erasing id => some ({ s.setRequest id none with thread := .idle }, [])
      | _ => none
  | .leave =>
      match s.thread with
      | .idle => some ({ s with thread := .left }, [])
      | _ => none
  | .stopJobs =>
      match s.thread with
      | .left => s.jobStep .stop
      | _ => none
  | .checkJobs => s.jobStep .check
  | .wakeJobs => s.jobStep .wake
  | .nextJob => s.jobStep .next
  | .handleReturns reply =>
      match s.jobQueue.thread, s.jobQueue.step (.endFirst false) with
      | .first job _, some (jobQueue, _) =>
          some ({ s.setRequest job.fullId ((s.requests job.fullId).map (·.writeReply job reply)) with
              jobQueue }, [.returned job reply])
      | _, _ => none
  | .callbackReturns =>
      match s.jobQueue.thread, s.jobQueue.step (.endSecond false) with
      | .second job _, some (jobQueue, _) =>
          let (s', es) := { s with jobQueue }.push job.fullId (.callback job)
          some (s', .completed job :: es)
      | _, _ => none

/-- What the request with this serial number did. -/
def outputs (serial : Nat) (log : List (Event Id)) : List Output :=
  log.filterMap fun
    | .output serial' _ o => if serial' = serial then some o else none
    | _ => none

/-- The job whose `handle` is being run. -/
def handling : RunThread (Job Id) → List (Job Id)
  | .first job _ => [job]
  | .check | .waiting _ | .batch _ | .second _ _ | .ended => []

/-- The jobs whose `handle` has not returned. -/
def unfinished (q : JobQueue (Job Id)) : List (Job Id) :=
  handling q.thread ++ JobQueue.rest q.thread ++ q.queue_

/-- A page without anything special about it. -/
def plainReply : Reply := ⟨bytes "200 OK", bytes "text/plain", [], bytes "page"⟩

/-- A pair with lengths of one byte. -/
def shortParam (name value : Bytes) : Bytes :=
  UInt8.ofNat name.length :: UInt8.ofNat value.length :: (name ++ value)

/-- The parameters of a url-encoded form of `n` bytes. -/
def formParams (n : Nat) : Bytes :=
  shortParam (bytes "REQUEST_METHOD") (bytes "POST")
    ++ shortParam (bytes "CONTENT_TYPE") Environment.urlEncoded
    ++ shortParam (bytes "CONTENT_LENGTH") (Decimal.digits n)
    ++ shortParam (bytes "REQUEST_URI") (bytes "/howtobuy")

/-- A record that is handled before the next one comes. -/
def readRecord (id : Id) (record : Record) : List (Act Id) :=
  [.receive id record, .take, .handle false]

/-- A whole GET request, up to the end of its `response_start`. -/
def getRequest (id : Id) (uri : Bytes) : List (Act Id) :=
  .receive id (.beginRequest 1 false)
    :: readRecord id (.params (shortParam (bytes "REQUEST_METHOD") (bytes "GET")
      ++ shortParam (bytes "REQUEST_URI") uri) [])
    ++ readRecord id (.params [] []) ++ readRecord id (.input []) ++ [.startReturns]

end System

end Simurga
