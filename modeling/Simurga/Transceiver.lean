import Simurga.SendBuffer

/-!
# The transceiver

`Transceiver` of `transceiver.hpp` and `transceiver.cpp`: `transmit`,
`secureWrite` and `handler`, with the descriptors that are polled, the
record that is coming in on each of them, and the transmit buffer.

What the system calls do is a parameter: `World` answers the `write` calls
by their number, `Poll` is one call of `poll` with the `accept` and the
`read` calls behind it. A log says what went through the calls and which
messages were passed on. The state after an exception is what was done
before it.
-/

namespace Simurga

open Protocol

namespace Transceiver

/-- `fdBuffer`: the header, and the message with its size. -/
structure FdBuffer where
  headerBuffer : Nat → UInt8 := fun _ => 0
  size : Nat := 0
  data : Option (Nat → UInt8) := none

/-- The end of a `write` call: some bytes were taken, the connection is
gone (EPIPE or EBADF), it would block (EAGAIN), or another error. -/
inductive Written where
  | accepted (n : Nat)
  | gone
  | again
  | failed
deriving DecidableEq

/-- The answers to `write`, and the memory of a new chunk; both by the
number of `write` calls before. -/
structure World where
  written : Nat → Written
  fresh : Nat → Nat → UInt8

/-- The end of a `read` call: bytes, none at the end of the stream, EAGAIN,
or another error. -/
inductive Read where
  | data (s : Bytes)
  | again
  | failed
deriving DecidableEq

/-- What a `poll` finds: the first entry with an event, which is a hangup
or something to read. -/
inductive Ready where
  | nothing
  | failed
  | entry (index : Nat) (hangup : Bool)
deriving DecidableEq

/-- A call of `poll`, the descriptor of the `accept` after it, and the
`read` calls of the header and the body. -/
structure Poll where
  ready : Ready
  accepted : Option Nat := none
  header : Read := .again
  body : Read := .again
deriving DecidableEq

inductive Event where
  /-- `secureWrite` has taken a block. -/
  | secured (parcel : Parcel)
  | wrote (fd : UInt16) (data : Bytes)
  /-- A block thrown away behind EPIPE or EBADF. -/
  | refused (fd : UInt16) (data : Bytes)
  | closed (fd : Nat)
  | opened (fd : Nat)
  /-- Not polled any more, but not closed. -/
  | erased (fd : Nat)
  | received (fd : Nat) (data : Bytes)
  /-- `sendMessage`, with what came on a descriptor. -/
  | message (fd : Nat) (id : FullId) (data : Bytes)
deriving DecidableEq

/-- Events of the receiving side. -/
def Event.incoming : Event → Bool
  | .opened _ | .erased _ | .received _ _ | .message _ _ _ => true
  | .secured _ | .wrote _ _ | .refused _ _ | .closed _ => false

/-- How a function is left other than by returning. -/
inductive Failure where
  | socketWrite
  | socketRead
  | socketPoll
  /-- Undefined in C++. -/
  | undefined
  /-- Not of the source: the fuel of a modelled loop ran out. -/
  | outOfFuel
deriving DecidableEq

end Transceiver

open Transceiver in
/-- `Transceiver`. `pollCapacity` is the capacity of the vector `pollFds`. -/
structure Transceiver where
  buffer : Buffer
  pollFds : List Nat
  pollCapacity : Nat := 2
  fdBuffers : Nat → Option FdBuffer := fun _ => none
  socket : Nat
  wakeUpFdIn : Nat
  /-- The `write` calls so far. -/
  calls : Nat := 0
  log : List Event := []

namespace Transceiver

/-- The constructor. -/
def init (data : Nat → UInt8) (socket wakeUpFdIn : Nat) : Transceiver where
  buffer := { writeIt := { data } }
  pollFds := [socket, wakeUpFdIn]
  socket
  wakeUpFdIn

abbrev Returned (α : Type) := Transceiver × Except Failure α

def record (t : Transceiver) (e : Event) : Transceiver := { t with log := t.log ++ [e] }

/-- `freeFd`. -/
def freeFd (t : Transceiver) (fd : Nat) : Transceiver :=
  if fd ∈ t.pollFds then
    { t with pollFds := t.pollFds.erase fd, fdBuffers := Function.update t.fdBuffers fd none
             log := t.log ++ [.closed fd] }
  else t

/-! ## Sending -/

/-- `buffer.freeRead` in `transmit`, and whether the loop goes on: `none`
when all of the block was sent. -/
def freeRead (t : Transceiver) (sent : Int) (size : Nat) :
    Transceiver × Option (Except Failure Unit) :=
  match t.buffer.freeRead sent with
  | none => (t, some (.error .undefined))
  | some (buffer, closed) =>
      let t := { t with buffer }
      (closed.elim t fun fd => t.freeFd fd.toNat,
        if sent = size then none else some (.ok ()))

/-- One turn of the loop in `transmit`. -/
def turn (w : World) (t : Transceiver) : Transceiver × Option (Except Failure Unit) :=
  match t.buffer.requestRead with
  | none => (t, some (.ok ()))
  | some (data, fd) =>
      if data = [] then (t, some (.ok ()))
      else
        let t' := { t with calls := t.calls + 1 }
        match w.written t.calls with
        | .accepted n =>
            (t'.record (.wrote fd (data.take n))).freeRead ↑(min n data.length) data.length
        | .gone =>
            ((t'.record (.refused fd data)).freeFd fd.toNat).freeRead data.length data.length
        | .again => t'.freeRead (-1) data.length
        | .failed => (t', some (.error .socketWrite))

/-- The turns of `transmit`. -/
def turns (w : World) : Nat → Transceiver → Returned Unit
  | 0, t => (t, .ok ())
  | n + 1, t =>
      match t.turn w with
      | (t, none) => turns w n t
      | (t, some r) => (t, r)

/-- `transmit`: a turn that goes on has sent a frame, so that there are no
more turns than frames. It returns whether the buffer is empty. -/
def transmit (w : World) (t : Transceiver) : Returned Bool :=
  let (t, r) := turns w t.buffer.frames.length t
  (t, r.map fun _ => t.buffer.empty)

/-- `secureWrite`. -/
def secureWrite (w : World) (t : Transceiver) (size : Nat) (id : FullId) (kill : Bool) :
    Returned Unit :=
  let t' := t.record (.secured { id, data := t.buffer.block 0 size, closeFd := kill })
  let (t', r) := transmit w
    { t' with buffer := t.buffer.secureWrite (w.fresh t.calls) size id kill }
  (t', r.map fun _ => ())

/-- Bytes put into the block at `buffer.writeIt->end`. -/
def store (t : Transceiver) (pos : Nat) (s : Bytes) : Transceiver :=
  { t with buffer := t.buffer.store pos s }

/-! ## Receiving -/

/-- The header in a block of memory. -/
def headerOf (data : Nat → UInt8) : Header := Header.ofBytes (Memory.load data 0 Header.size)

/-- `fdBuffers[fd]`, which makes an entry. -/
def fdBuffer (t : Transceiver) (fd : Nat) : FdBuffer := (t.fdBuffers fd).getD {}

def setFdBuffer (t : Transceiver) (fd : Nat) (b : FdBuffer) : Transceiver :=
  { t with fdBuffers := Function.update t.fdBuffers fd (some b) }

/-- `fdBuffers.erase(pollFd->fd); pollFds.erase(pollFd)`; an iterator that
the vector has left behind is undefined. -/
def erasePollFd (t : Transceiver) (pollFd : Option Nat) : Returned Bool :=
  match pollFd with
  | none => (t, .error .undefined)
  | some index =>
      match t.pollFds[index]? with
      | none => (t, .error .undefined)
      | some fd =>
          ({ t with fdBuffers := Function.update t.fdBuffers fd none
                    pollFds := t.pollFds.eraseIdx index
                    log := t.log ++ [.erased fd] }, .ok false)

/-- The body of a record: the second half of `handler`. A `read` of no
bytes gets none. -/
def receiveBody (t : Transceiver) (fd : Nat) (transmitEmpty : Bool) (b : FdBuffer)
    (data : Nat → UInt8) (r : Read) : Returned Bool :=
  let header := headerOf data
  let needed := header.getContentLength + header.getPaddingLength + Header.size - b.size
  match if needed = 0 then .data [] else r with
  | .failed => (t.setFdBuffer fd { b with data := some data }, .error .socketRead)
  | .again => (t.setFdBuffer fd { b with data := some data }, .ok transmitEmpty)
  | .data s =>
      let got := s.take needed
      let data := Memory.store data b.size got
      let size := b.size + got.length
      let t := t.record (.received fd got)
      if got.length = needed then
        let id : FullId := ⟨(headerOf b.headerBuffer).getRequestId, UInt16.ofNat fd⟩
        ((t.record (.message fd id (Memory.load data 0 size))).setFdBuffer fd
          { b with size := 0, data := none }, .ok false)
      else (t.setFdBuffer fd { b with size, data := some data }, .ok transmitEmpty)

/-- The part of `handler` from the buffers of a connection on. -/
def receive (t : Transceiver) (fd : Nat) (pollFd : Option Nat) (transmitEmpty : Bool)
    (header body : Read) : Returned Bool :=
  let b := t.fdBuffer fd
  match b.data with
  | some data => t.receiveBody fd transmitEmpty b data body
  | none =>
      match header with
      | .failed => (t.setFdBuffer fd b, .error .socketRead)
      | .again =>
          if b.size = Header.size then
            t.receiveBody fd transmitEmpty b b.headerBuffer body
          else (t.setFdBuffer fd b, .ok transmitEmpty)
      | .data s =>
          let got := s.take (Header.size - b.size)
          let b := { b with headerBuffer := Memory.store b.headerBuffer b.size got
                            size := b.size + got.length }
          let t := (t.record (.received fd got)).setFdBuffer fd b
          if got = [] then t.erasePollFd pollFd
          else if b.size = Header.size then
            t.receiveBody fd transmitEmpty b b.headerBuffer body
          else (t, .ok transmitEmpty)

/-- `accept` and what is done for a new connection. -/
def accept (t : Transceiver) (fd : Nat) : Transceiver :=
  let b := t.fdBuffer fd
  { t with
      pollFds := t.pollFds ++ [fd]
      pollCapacity :=
        if t.pollFds.length = t.pollCapacity then 2 * t.pollCapacity else t.pollCapacity
      fdBuffers := Function.update t.fdBuffers fd (some { b with size := 0 })
      log := t.log ++ [.opened fd] }

/-- `handler` behind `transmit`. A new connection is read at once, and the
iterator of the listening socket is used for it; it is left behind when the
vector has grown into new memory. An `accept` that fails gives the
descriptor -1, which cannot be read. -/
def poll (t : Transceiver) (transmitEmpty : Bool) (p : Poll) : Returned Bool :=
  match p.ready with
  | .nothing => (t, .ok transmitEmpty)
  | .failed => (t, .error .socketPoll)
  | .entry index hangup =>
      match t.pollFds[index]? with
      | none => (t, .error .undefined)
      | some fd =>
          if hangup then t.erasePollFd (some index)
          else if fd = t.socket then
            match p.accepted with
            | none => (t, .error .socketRead)
            | some new =>
                let pollFd := if t.pollFds.length = t.pollCapacity then none else some index
                (t.accept new).receive new pollFd transmitEmpty p.header p.body
          else if fd = t.wakeUpFdIn then (t, .ok false)
          else t.receive fd (some index) transmitEmpty p.header p.body

/-- `handler`. -/
def handler (w : World) (p : Poll) (t : Transceiver) : Returned Bool :=
  match transmit w t with
  | (t, .error e) => (t, .error e)
  | (t, .ok transmitEmpty) => t.poll transmitEmpty p

end Transceiver

end Simurga
