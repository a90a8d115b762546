import Simurga.LocalHandler

/-!
# What the web server reads

Runs of the program on a transceiver: writes of the streams of requests,
END_REQUEST records, management records, and calls of `handler`, in any
order, with any answers of the sockets. A call may end in an exception, and
the next one finds what it has left.

The main result is `transcript`: on each descriptor the web server reads
whole records, and what they say is a beginning of what the calls have said
on it, in their order. It is all of it when the buffer has run empty.
-/

namespace Simurga

open Protocol

namespace Transceiver

/-! ## Calls -/

/-- `err` and `out` of a request. -/
inductive OutStream where
  | err | out
deriving DecidableEq

def OutStream.type : OutStream → RecordType
  | .err => .error
  | .out => .output

/-- What is called on a transceiver. -/
inductive Call where
  | write (id : FullId) (stream : OutStream) (s : Bytes)
  | endRequest (id : FullId) (status : Protocol.ProtocolStatus) (killCon : Bool)
  | localHandler (id : FullId) (message : Bytes)
  | handler (p : Poll)

def Call.run (w : World) (t : Transceiver) : Call → Returned Unit
  | .write id stream s => FcgistreamSink.write w id stream.type s t
  | .endRequest id status killCon => Simurga.endRequest w id status killCon t
  | .localHandler id message => Simurga.localHandler w id message t
  | .handler p => ((Transceiver.handler w p t).1, (Transceiver.handler w p t).2.map fun _ => ())

/-- A call with its end. -/
abbrev Ended := Call × Except Failure Unit

/-- A call of a run, unless it is undefined. -/
def callStep (w : World) (t : Transceiver) (c : Call) : Option (Transceiver × List Ended) :=
  match (c.run w t).2 with
  | .error .undefined => none
  | r => some ((c.run w t).1, [(c, r)])

/-- The runs, with the calls and their ends. -/
abbrev Runs (w : World) : Transceiver → List Ended → Transceiver → Prop :=
  Machine.Reach (callStep w) Machine.anyOrder

theorem callStep_eq_some {w : World} {t t' : Transceiver} {c : Call} {es : List Ended}
    (h : callStep w t c = some (t', es)) : t' = (c.run w t).1 ∧ es = [(c, (c.run w t).2)] := by
  unfold callStep at h
  split at h
  · cases h
  · rw [Option.some.injEq, Prod.mk.injEq] at h
    exact ⟨h.1.symm, h.2.symm⟩

/-! ## The receiving side leaves the sending side alone -/

/-- Nothing but events of the receiving side. -/
structure Frames (t t' : Transceiver) : Prop where
  buffer : t'.buffer = t.buffer
  calls : t'.calls = t.calls
  log : ∃ es, t'.log = t.log ++ es ∧ ∀ e ∈ es, e.incoming = true

section Receiving

variable {w : World} {t t' t'' : Transceiver} {fd : Nat}

theorem Frames.refl (t : Transceiver) : Frames t t := ⟨rfl, rfl, [], by simp, by simp⟩

theorem Frames.trans (h : Frames t t') (h' : Frames t' t'') : Frames t t'' := by
  obtain ⟨es, hlog, hes⟩ := h.log
  obtain ⟨es', hlog', hes'⟩ := h'.log
  refine ⟨h'.buffer.trans h.buffer, h'.calls.trans h.calls, es ++ es', ?_, fun e he => ?_⟩
  · rw [hlog', hlog, List.append_assoc]
  · rcases List.mem_append.mp he with he | he
    · exact hes e he
    · exact hes' e he

/-- What the receiving half of `handler` does, one thing at a time. -/
inductive Recv (t : Transceiver) : Transceiver → Prop where
  | received (fd : Nat) (got : Bytes) : Recv t (t.record (.received fd got))
  | message (fd : Nat) (id : FullId) (message : Bytes) : Recv t (t.record (.message fd id message))
  | setFdBuffer (fd : Nat) (b : FdBuffer) : Recv t (t.setFdBuffer fd b)
  | erasePollFd (pollFd : Option Nat) : Recv t (t.erasePollFd pollFd).1
  | accept (fd : Nat) (hsocket : t.socket ∈ t.pollFds) : Recv t (t.accept fd)

abbrev Recvs : Transceiver → Transceiver → Prop := Relation.ReflTransGen Recv

theorem receiveBody_recvs (t : Transceiver) (fd : Nat) (transmitEmpty : Bool) (b : FdBuffer)
    (data : Nat → UInt8) (r : Read) : Recvs t (t.receiveBody fd transmitEmpty b data r).1 := by
  unfold Transceiver.receiveBody
  dsimp only
  split
  · exact .single (.setFdBuffer ..)
  · exact .single (.setFdBuffer ..)
  · rename_i s _
    have hread : Recvs t (t.record (.received fd (s.take ((headerOf data).getContentLength
      + (headerOf data).getPaddingLength + Header.size - b.size)))) := .single (.received ..)
    split
    · exact (hread.tail (.message ..)).tail (.setFdBuffer ..)
    · exact hread.tail (.setFdBuffer ..)

theorem receive_recvs (t : Transceiver) (fd : Nat) (pollFd : Option Nat) (transmitEmpty : Bool)
    (header body : Read) : Recvs t (t.receive fd pollFd transmitEmpty header body).1 := by
  unfold Transceiver.receive
  dsimp only
  split
  · exact receiveBody_recvs ..
  · cases header with
    | failed => exact .single (.setFdBuffer ..)
    | again =>
        dsimp only
        split
        · exact receiveBody_recvs ..
        · exact .single (.setFdBuffer ..)
    | data s =>
        have hread : Recvs t ((t.record
            (.received fd (s.take (Header.size - (t.fdBuffer fd).size)))).setFdBuffer fd
          { t.fdBuffer fd with
              headerBuffer := Memory.store (t.fdBuffer fd).headerBuffer (t.fdBuffer fd).size
                (s.take (Header.size - (t.fdBuffer fd).size))
              size := (t.fdBuffer fd).size
                + (s.take (Header.size - (t.fdBuffer fd).size)).length }) :=
          (Relation.ReflTransGen.single (.received ..)).tail (.setFdBuffer ..)
        dsimp only
        split
        · exact hread.tail (.erasePollFd ..)
        · split
          · exact hread.trans (receiveBody_recvs ..)
          · exact hread

theorem poll_recvs (t : Transceiver) (transmitEmpty : Bool) (p : Poll) :
    Recvs t (t.poll transmitEmpty p).1 := by
  unfold Transceiver.poll
  split
  · exact .refl
  · exact .refl
  · split
    · exact .refl
    · rename_i fd hfd
      split
      · exact .single (.erasePollFd ..)
      · split
        · rename_i hsocket
          split
          · exact .refl
          · exact .head (.accept _ (hsocket ▸ List.mem_of_getElem? hfd)) (receive_recvs ..)
        · split
          · exact .refl
          · exact receive_recvs ..

theorem Frames.recv (h : Recv t t') : Frames t t' := by
  cases h with
  | received fd got => exact ⟨rfl, rfl, _, rfl, by simp [Event.incoming]⟩
  | message fd id message => exact ⟨rfl, rfl, _, rfl, by simp [Event.incoming]⟩
  | setFdBuffer fd b => exact ⟨rfl, rfl, [], (List.append_nil _).symm, by simp⟩
  | accept fd hsocket => exact ⟨rfl, rfl, _, rfl, by simp [Event.incoming]⟩
  | erasePollFd pollFd =>
      unfold Transceiver.erasePollFd
      split
      · exact .refl t
      · split
        · exact .refl t
        · exact ⟨rfl, rfl, _, rfl, by simp [Event.incoming]⟩

theorem Frames.recvs (h : Recvs t t') : Frames t t' := by
  induction h with
  | refl => exact .refl t
  | tail _ hrecv ih => exact ih.trans (.recv hrecv)

theorem Frames.secured_eq (h : Frames t t') : secured t'.log = secured t.log := by
  obtain ⟨es, hlog, hes⟩ := h.log
  have hnil : secured es = [] := List.filterMap_eq_nil_iff.mpr fun e he => by
    have hin := hes e he
    cases e with
    | secured p => cases hin
    | _ => rfl
  rw [hlog, secured_append, hnil, List.append_nil]

/-! ## When `handler` says that there is nothing to do -/

theorem erasePollFd_ne_true (t : Transceiver) (pollFd : Option Nat) :
    (t.erasePollFd pollFd).2 ≠ .ok true := by
  unfold Transceiver.erasePollFd
  split
  · simp
  · split <;> simp

theorem receiveBody_eq_true {transmitEmpty : Bool} {b : FdBuffer} {data : Nat → UInt8} {r : Read}
    (h : (t.receiveBody fd transmitEmpty b data r).2 = .ok true) : transmitEmpty = true := by
  unfold Transceiver.receiveBody at h
  dsimp only at h
  split at h
  · cases h
  · exact Except.ok.inj h
  · split at h
    · cases h
    · exact Except.ok.inj h

theorem receive_eq_true {pollFd : Option Nat} {transmitEmpty : Bool} {header body : Read}
    (h : (t.receive fd pollFd transmitEmpty header body).2 = .ok true) : transmitEmpty = true := by
  unfold Transceiver.receive at h
  dsimp only at h
  split at h
  · exact receiveBody_eq_true h
  · cases header with
    | failed => cases h
    | again =>
        dsimp only at h
        split at h
        · exact receiveBody_eq_true h
        · exact Except.ok.inj h
    | data s =>
        dsimp only at h
        split at h
        · exact absurd h (erasePollFd_ne_true _ _)
        · split at h
          · exact receiveBody_eq_true h
          · exact Except.ok.inj h

theorem poll_eq_true {transmitEmpty : Bool} {p : Poll}
    (h : (t.poll transmitEmpty p).2 = .ok true) : transmitEmpty = true := by
  unfold Transceiver.poll at h
  split at h
  · exact Except.ok.inj h
  · cases h
  · split at h
    · cases h
    · split at h
      · exact absurd h (erasePollFd_ne_true _ _)
      · split at h
        · split at h
          · cases h
          · exact receive_eq_true h
        · split at h
          · cases h
          · exact receive_eq_true h

/-- `handler` as steps. It secures nothing, and it returns true only with
an empty outbox. -/
theorem handler_spec (h : t.Ledger) (hw : NoAgain w) (p : Poll) :
    Steps w t (handler w p t).1 ∧ secured (handler w p t).1.log = secured t.log
      ∧ ((handler w p t).2 = .ok true → (handler w p t).1.buffer.outbox = []) := by
  have hsteps := transmit_steps w t
  obtain ⟨hsecured, hends⟩ := h.transmit_ends hw
  unfold handler
  generalize transmit w t = r at hsteps hsecured hends ⊢
  obtain ⟨t₁, r⟩ := r
  dsimp only at hsteps hsecured hends
  rcases hends with hr | ⟨hr, -⟩
  · rw [hr]
    dsimp only
    have hframes := Frames.recvs (poll_recvs t₁ (decide (t₁.buffer.outbox = [])) p)
    obtain ⟨es, hlog, hes⟩ := hframes.log
    refine ⟨hsteps.tail (.other es hframes.buffer hframes.calls hlog hes),
      hframes.secured_eq.trans hsecured, fun hsleep => ?_⟩
    rw [hframes.buffer]
    exact of_decide_eq_true (poll_eq_true hsleep)
  · rw [hr]
    exact ⟨hsteps, hsecured, fun hsleep => by cases hsleep⟩

end Receiving

/-! ## What records say -/

/-- What the web server learns from records: a byte of a stream, the end of
a request with its status, a type of record that is not known. -/
inductive Letter where
  | byte (requestId : UInt16) (type : UInt8) (b : UInt8)
  | ended (requestId : UInt16) (status : UInt8)
  | unknown (type : UInt8)
deriving DecidableEq

def letters (record : Bytes) : List Letter :=
  let header := Header.ofBytes record
  if header.type = RecordType.endRequest.toByte then
    [.ended header.getRequestId ((content record).getD 4 0)]
  else if header.type = RecordType.unknownType.toByte then [.unknown ((content record).getD 0 0)]
  else (content record).map (.byte header.getRequestId header.type)

/-- The connection of a call that sends. -/
def Call.fd : Call → Option UInt16
  | .write id _ _ => some id.fd
  | .endRequest id _ _ => some id.fd
  | .localHandler id _ => some id.fd
  | .handler _ => none

/-- A query for values. -/
def Call.queries : Call → Bool
  | .localHandler _ message => (Header.ofBytes message).type == RecordType.getValues.toByte
  | _ => false

/-- What a call that is not a query has to say. -/
def Call.letters : Call → List Letter
  | .write id stream s => s.map (.byte id.fcgiId stream.type.toByte)
  | .endRequest id status _ => [.ended id.fcgiId status.toByte]
  | .localHandler _ message => [.unknown (Header.ofBytes message).type]
  | .handler _ => []

variable {w : World} {t : Transceiver}

theorem letters_of_stream {stream : OutStream} {fcgiId : UInt16} {s record : Bytes}
    (h : Carries stream.type fcgiId s record) :
    Transceiver.letters record = s.map (.byte fcgiId stream.type.toByte) := by
  have hend : stream.type.toByte ≠ RecordType.endRequest.toByte := by cases stream <;> decide
  have hunknown : stream.type.toByte ≠ RecordType.unknownType.toByte := by cases stream <;> decide
  unfold Transceiver.letters
  dsimp only
  rw [h.type, if_neg hend, if_neg hunknown, h.content, h.requestId]

theorem letters_of_end {fcgiId : UInt16} {body : EndRequest} {record : Bytes}
    (h : Carries .endRequest fcgiId body.toBytes record) :
    Transceiver.letters record = [.ended fcgiId body.protocolStatus] := by
  unfold Transceiver.letters
  dsimp only
  rw [h.type, if_pos rfl, h.content, h.requestId]
  rfl

theorem letters_of_unknown {s record : Bytes} {type : UInt8}
    (h : Carries .unknownType 0 s record) (htype : s.head? = some type) :
    Transceiver.letters record = [.unknown type] := by
  have hend : RecordType.unknownType.toByte ≠ RecordType.endRequest.toByte := by decide
  unfold Transceiver.letters
  dsimp only
  rw [h.type, if_neg hend, if_pos rfl, h.content]
  cases s with
  | nil => cases htype
  | cons c s =>
      cases htype
      rfl

/-- Parcels with whole records for one connection. -/
def Whole (fd : Option UInt16) (ps : List Parcel) : Prop :=
  ∀ p ∈ ps, fd = some p.id.fd ∧ IsRecord p.data

/-- A call that is not a query secures whole records, which say what it has
to say, or a beginning of that when the call ends in an exception. -/
theorem Call.run_spec (h : t.Ledger) (hw : NoAgain w) {c : Call} (hc : c.queries = false) :
    ∃ ps, Steps w t (c.run w t).1 ∧ secured (c.run w t).1.log = secured t.log ++ ps
      ∧ Whole c.fd ps ∧ ps.flatMap (fun p => Transceiver.letters p.data) <+: c.letters
      ∧ ((c.run w t).2 = .ok () → ps.flatMap (fun p => Transceiver.letters p.data) = c.letters) := by
  cases c with
  | write id stream s =>
      obtain ⟨rs, hsteps, hsecured, hrs, hends⟩ :=
        FcgistreamSink.writeRecords_spec h hw id stream.type (Nat.le_refl s.length)
      have hletters : (rs.map fun r => ({ id, data := r, closeFd := false } : Parcel)).flatMap
          (fun p => Transceiver.letters p.data)
            = (rs.flatMap content).map (.byte id.fcgiId stream.type.toByte) := by
        rw [List.flatMap_map, List.map_flatMap]
        exact List.flatMap_congr fun r hr => letters_of_stream (hrs r hr).1
      refine ⟨_, hsteps, hsecured, ?_, ?_, ?_⟩
      · intro p hp
        obtain ⟨r, hr, rfl⟩ := List.mem_map.mp hp
        exact ⟨rfl, (hrs r hr).1.isRecord⟩
      · rw [hletters]
        refine List.IsPrefix.map _ ?_
        rcases hends with ⟨-, hall⟩ | ⟨-, -, hpart⟩
        · rw [hall]
        · exact hpart
      · intro hok
        rw [hletters]
        rcases hends with ⟨-, hall⟩ | ⟨herror, -, -⟩
        · rw [hall]
          rfl
        · exact absurd (hok.symm.trans herror) (by simp)
  | endRequest id status killCon =>
      obtain ⟨old, record, -, hcarries, hsteps, hsecured, hends⟩ :=
        smallRecord_spec h hw id .endRequest id.fcgiId
          (fun s => (((EndRequest.ofBytes s).setAppStatus 0).setProtocolStatus status).toBytes)
          (fun _ _ => rfl) killCon
      have hletters := letters_of_end hcarries
      refine ⟨_, hsteps, hsecured, ?_, ?_, fun _ => ?_⟩
      · intro p hp
        rw [List.mem_singleton.mp hp]
        exact ⟨rfl, hcarries.isRecord⟩
      · rw [List.flatMap_singleton, hletters]
        exact List.prefix_refl _
      · rw [List.flatMap_singleton, hletters]
        rfl
  | localHandler id message =>
      obtain ⟨record, hcarries, hhead, hsteps, hsecured, hends⟩ :=
        localHandler_unknownType h hw id (beq_eq_false_iff_ne.mp hc)
      have hletters := letters_of_unknown hcarries hhead
      refine ⟨_, hsteps, hsecured, ?_, ?_, fun _ => ?_⟩
      · intro p hp
        rw [List.mem_singleton.mp hp]
        exact ⟨rfl, hcarries.isRecord⟩
      · rw [List.flatMap_singleton, hletters]
        exact List.prefix_refl _
      · rw [List.flatMap_singleton, hletters]
        rfl
  | handler p =>
      obtain ⟨hsteps, hsecured, -⟩ := handler_spec h hw p
      exact ⟨[], hsteps, hsecured.trans (List.append_nil _).symm, by simp [Whole],
        List.prefix_refl _, fun _ => rfl⟩

/-- Any call secures only for its connection. -/
theorem Call.run_steps (h : t.Ledger) (hw : NoAgain w) (c : Call) :
    ∃ ps, Steps w t (c.run w t).1 ∧ secured (c.run w t).1.log = secured t.log ++ ps
      ∧ ∀ p ∈ ps, c.fd = some p.id.fd := by
  cases hc : c.queries with
  | false =>
      obtain ⟨ps, hsteps, hsecured, hwhole, -, -⟩ := c.run_spec h hw hc
      exact ⟨ps, hsteps, hsecured, fun p hp => (hwhole p hp).1⟩
  | true =>
      cases c with
      | write id stream s => cases hc
      | endRequest id status killCon => cases hc
      | handler p => cases hc
      | localHandler id message =>
          obtain ⟨ps, hsteps, hsecured, hps⟩ := localHandler_query h hw id (beq_iff_eq.mp hc)
          exact ⟨ps, hsteps, hsecured, fun p hp => by rw [hps p hp]; rfl⟩

/-! ## Runs -/

section Run

variable {data : Nat → UInt8} {socket wakeUpFdIn : Nat} {hist : List Ended}

/-- Every run keeps the ledger: the bytes taken, by the sockets or thrown
away behind an error, and the ones in the outbox are the ones secured, each
once and in their order. -/
theorem Runs.ledger (hw : NoAgain w) (h : Runs w (init data socket wakeUpFdIn) hist t) :
    t.Ledger := by
  refine h.invariant (fun _ t => t.Ledger) (.init ..) fun hledger _ hstep => ?_
  obtain ⟨rfl, -⟩ := callStep_eq_some hstep
  obtain ⟨-, hsteps, -⟩ := Call.run_steps hledger hw _
  exact hledger.steps hw hsteps

/-! A run to look at: sockets that take at most twenty bytes at a time, and
a request that says something. -/

def slowWorld : World := { written := fun _ => .accepted 20, fresh := fun _ _ => 0 }

theorem noAgain_slowWorld : NoAgain slowWorld := fun _ h => by cases h

def greeting : Call := .write ⟨1, 7⟩ .out (bytes "hello, world")

def greeted : Transceiver := (greeting.run slowWorld (init (fun _ => 0) 0 3)).1

/-- One call more. -/
theorem Runs.call {t₀ : Transceiver} (h : Runs w t₀ hist t) {c : Call}
    (hends : (c.run w t).2 = .ok ()) : Runs w t₀ (hist ++ [(c, .ok ())]) (c.run w t).1 := by
  have hstep : callStep w t c = some ((c.run w t).1, [(c, .ok ())]) := by
    unfold callStep
    rw [hends]
  exact Machine.Reach.step h trivial hstep

theorem runs_greeted :
    Runs slowWorld (init (fun _ => 0) 0 3) [(greeting, .ok ())] greeted :=
  Runs.call Machine.Reach.init (by decide +kernel)

/-! Another one: a connection comes, is greeted and gets its last record. -/

def arrival : Call := .handler { ready := .entry 0 false, accepted := some 7 }

def farewell : Call := .endRequest ⟨1, 7⟩ .requestComplete true

def arrived : Transceiver := (arrival.run slowWorld (init (fun _ => 0) 0 3)).1

def dismissed : Transceiver := (farewell.run slowWorld (greeting.run slowWorld arrived).1).1

def visit : List Ended := [(arrival, .ok ()), (greeting, .ok ()), (farewell, .ok ())]

theorem runs_dismissed : Runs slowWorld (init (fun _ => 0) 0 3) visit dismissed := by
  have harrived : Runs slowWorld (init (fun _ => 0) 0 3) [(arrival, .ok ())] arrived :=
    Runs.call Machine.Reach.init (by decide +kernel)
  have hgreeted := Runs.call harrived (c := greeting) (by decide +kernel)
  exact Runs.call hgreeted (c := farewell) (by decide +kernel)

/-- Nothing is lost, doubled or reordered: the bytes that are gone and the
ones in the buffer are the ones secured. -/
theorem Runs.stream_eq (hw : NoAgain w) (h : Runs w (init data socket wakeUpFdIn) hist t) :
    taken t.log ++ Outbox.stream t.buffer.outbox = Outbox.stream (secured t.log) :=
  (h.ledger hw).stream_secured

theorem stream_eq_greeted :
    taken greeted.log ++ Outbox.stream greeted.buffer.outbox
      = Outbox.stream (secured greeted.log) :=
  Runs.stream_eq noAgain_slowWorld runs_greeted

/-- A connection is closed by the sending side alone, when it is gone or has
got the last byte. -/
theorem Runs.closesRight (hw : NoAgain w) (h : Runs w (init data socket wakeUpFdIn) hist t) :
    ClosesRight t.log := by
  refine h.invariant_of (fun _ t => t.Ledger) (fun _ t => ClosesRight t.log)
    (fun h => Runs.ledger hw h) (Machine.justified_nil _) fun hledger hlog _ hstep => ?_
  obtain ⟨rfl, -⟩ := callStep_eq_some hstep
  obtain ⟨-, hsteps, -⟩ := Call.run_steps hledger hw _
  exact hledger.steps_closesRight hw hlog hsteps

theorem closesRight_dismissed : Event.closed 7 ∈ dismissed.log ∧ ClosesRight dismissed.log :=
  ⟨by decide +kernel, Runs.closesRight noAgain_slowWorld runs_dismissed⟩

/-- When `handler` says that there is nothing to do, nothing is left to be
sent. -/
theorem Runs.sleeps (hw : NoAgain w) (h : Runs w (init data socket wakeUpFdIn) hist t) {p : Poll}
    (hsleep : (handler w p t).2 = .ok true) :
    taken (handler w p t).1.log = Outbox.stream (secured t.log) := by
  have hledger := h.ledger hw
  obtain ⟨hsteps, hsecured, hempty⟩ := handler_spec hledger hw p
  have hstream := (hledger.steps hw hsteps).stream_secured
  rwa [hempty hsleep, Outbox.stream_nil, List.append_nil, hsecured] at hstream

theorem sleeps_greeted :
    taken (handler slowWorld { ready := .nothing } greeted).1.log
      = Outbox.stream (secured greeted.log) :=
  Runs.sleeps noAgain_slowWorld runs_greeted (by decide +kernel)

/-- What is written lies in a block, a block in its chunk, and what is sent
in what was secured. -/
theorem Runs.inBounds (hw : NoAgain w) (h : Runs w (init data socket wakeUpFdIn) hist t) :
    (∀ size, min size minBlockSize ≤ t.buffer.requestWrite size
        ∧ t.buffer.writeIt.end_ + t.buffer.requestWrite size ≤ Chunk.size)
      ∧ ∀ s fd, t.buffer.requestRead = some (s, fd) →
        s ≠ [] ∧ t.buffer.pRead + s.length ≤ t.buffer.first.end_ ∧ t.buffer.first.end_ ≤ Chunk.size := by
  have hsound := (h.ledger hw).sound
  refine ⟨fun size => ⟨hsound.min_le_requestWrite size, ?_⟩, fun s fd hread => ?_⟩
  · have := hsound.room
    unfold Buffer.requestWrite
    omega
  · obtain ⟨frame, hframe, hs⟩ := Option.map_eq_some_iff.mp hread
    obtain ⟨frames, hframes⟩ := List.head?_eq_some_iff.mp hframe
    obtain ⟨hpos, hle⟩ := hsound.front hframes
    cases hs
    refine ⟨List.ne_nil_of_length_pos (by rwa [Memory.length_load]), ?_, ?_⟩
    · rwa [Memory.length_load]
    · cases hfull : t.buffer.full with
      | nil =>
          have := hsound.room
          rw [Buffer.first_of_nil hfull]
          omega
      | cons c full =>
          rw [Buffer.first_of_cons hfull]
          exact (hsound.full c (hfull ▸ List.mem_cons_self ..)).2

theorem inBounds_greeted :
    (∀ size, min size minBlockSize ≤ greeted.buffer.requestWrite size
        ∧ greeted.buffer.writeIt.end_ + greeted.buffer.requestWrite size ≤ Chunk.size)
      ∧ ∀ s fd, greeted.buffer.requestRead = some (s, fd) →
        s ≠ [] ∧ greeted.buffer.pRead + s.length ≤ greeted.buffer.first.end_
          ∧ greeted.buffer.first.end_ ≤ Chunk.size :=
  Runs.inBounds noAgain_slowWorld runs_greeted

theorem Runs.free (hw : NoAgain w) (h : Runs w (init data socket wakeUpFdIn) hist t) :
    t.buffer.free.length ≤ 1 := by
  refine h.invariant_of (fun _ t => t.Ledger) (fun _ t => t.buffer.free.length ≤ 1)
    (fun h => Runs.ledger hw h) (Nat.zero_le 1) fun hledger hfree _ hstep => ?_
  obtain ⟨rfl, -⟩ := callStep_eq_some hstep
  obtain ⟨-, hsteps, -⟩ := Call.run_steps hledger hw _
  exact hsteps.free hfree

/-- The chunks are as many as the pending bytes fill, and three more. -/
theorem Runs.chunks_le (hw : NoAgain w) (h : Runs w (init data socket wakeUpFdIn) hist t) :
    t.buffer.full.length + 1 + t.buffer.free.length
      ≤ (Outbox.stream t.buffer.outbox).length / (Chunk.size - minBlockSize) + 3 := by
  have hfree := h.free hw
  have hfull := (Nat.le_div_iff_mul_le (by simp [Chunk.size, minBlockSize])).mpr
    (full_le (h.ledger hw).sound)
  omega

theorem chunks_le_greeted :
    greeted.buffer.full.length + 1 + greeted.buffer.free.length
      ≤ (Outbox.stream greeted.buffer.outbox).length / (Chunk.size - minBlockSize) + 3 :=
  Runs.chunks_le noAgain_slowWorld runs_greeted

/-- From everywhere a stream of a request can be written: its records are
whole, not empty, a multiple of eight bytes long and no longer than their
lengths can say, and their contents are the text. -/
theorem Runs.secures_text (hw : NoAgain w) (h : Runs w (init data socket wakeUpFdIn) hist t)
    (id : FullId) (stream : OutStream) (s : Bytes) :
    ∃ rs : List Bytes,
      secured (FcgistreamSink.write w id stream.type s t).1.log
        = secured t.log ++ rs.map (fun r => { id, data := r, closeFd := false })
      ∧ (∀ r ∈ rs, Carries stream.type id.fcgiId (content r) r ∧ content r ≠ []
        ∧ r.length ≤ FcgistreamSink.maxRecord)
      ∧ ((FcgistreamSink.write w id stream.type s t).2 = .ok () ∧ rs.flatMap content = s
        ∨ (FcgistreamSink.write w id stream.type s t).2 = .error .socketWrite
          ∧ (∃ n, w.written n = .failed) ∧ rs.flatMap content <+: s) := by
  obtain ⟨rs, -, hsecured, hrs, hends⟩ :=
    FcgistreamSink.writeRecords_spec (h.ledger hw) hw id stream.type (Nat.le_refl s.length)
  exact ⟨rs, hsecured, hrs, hends⟩

theorem write_greeted :
    ∃ rs : List Bytes,
      secured (FcgistreamSink.write slowWorld ⟨1, 7⟩ OutStream.err.type (bytes "?") greeted).1.log
        = secured greeted.log ++ rs.map (fun r => { id := ⟨1, 7⟩, data := r, closeFd := false })
      ∧ (∀ r ∈ rs, Carries OutStream.err.type 1 (content r) r ∧ content r ≠ []
        ∧ r.length ≤ FcgistreamSink.maxRecord)
      ∧ ((FcgistreamSink.write slowWorld ⟨1, 7⟩ OutStream.err.type (bytes "?") greeted).2 = .ok ()
          ∧ rs.flatMap content = bytes "?"
        ∨ (FcgistreamSink.write slowWorld ⟨1, 7⟩ OutStream.err.type (bytes "?") greeted).2
            = .error .socketWrite
          ∧ (∃ n, slowWorld.written n = .failed) ∧ rs.flatMap content <+: bytes "?") :=
  Runs.secures_text noAgain_slowWorld runs_greeted ⟨1, 7⟩ .err (bytes "?")

/-- A query whose first name is known gets one reply. The web server finds
no pairs in its record, and two bytes more in front of what comes next. -/
theorem Runs.query (hw : NoAgain w) (h : Runs w (init data socket wakeUpFdIn) hist t) (id : FullId)
    {message rest : Bytes} {p : Param} {reply : ManagementReply}
    (htype : (Header.ofBytes message).type = RecordType.getValues.toByte)
    (hbody : message.drop Header.size = p.encode ++ rest)
    (hname : ManagementReply.ofName p.name = some reply) :
    ∃ record last,
      secured (localHandler w id message t).1.log
        = secured t.log ++ [{ id, data := record ++ last, closeFd := false }]
      ∧ last.length = 2
      ∧ (∀ s, records.frames (record ++ last ++ s)
        = (record :: (records.frames (last ++ s)).1, (records.frames (last ++ s)).2))
      ∧ ∀ ps : List Param, content record ≠ ps.flatMap Param.encode := by
  obtain ⟨value, paddingLength, rfl, hfits, hpadding, hlen, hsize⟩ :=
    ManagementReply.exists_make hname
  obtain ⟨record, last, hbytes, hlast, hcut, hcontent⟩ := ManagementReply.cut hfits hpadding
  refine ⟨record, last, ?_, hlast, fun s => Framing.Cutter.frames_of_some (hcut s), fun ps => ?_⟩
  · rw [localHandler_getValues id p rest htype hbody, hname, Option.elim_some, ← hbytes]
    exact (sendReply_spec (h.ledger hw) hw id hsize).2.1
  · rw [hcontent]
    exact ManagementReply.not_pairs hfits hlen ps

/-- The value asked for is empty, as it is in a query. -/
def maxConnsQuery : Param where
  name := bytes "FCGI_MAX_CONNS"
  value := []
  longName := false
  longValue := false
  name_lt := by decide
  value_lt := by decide

theorem query_greeted :
    ∃ record last,
      secured (localHandler slowWorld ⟨0, 7⟩ ([1, 9, 0, 0, 0, 16, 0, 0] ++ maxConnsQuery.encode)
          greeted).1.log
        = secured greeted.log ++ [{ id := ⟨0, 7⟩, data := record ++ last, closeFd := false }]
      ∧ last.length = 2
      ∧ (∀ s, records.frames (record ++ last ++ s)
        = (record :: (records.frames (last ++ s)).1, (records.frames (last ++ s)).2))
      ∧ ∀ ps : List Param, content record ≠ ps.flatMap Param.encode :=
  Runs.query noAgain_slowWorld runs_greeted ⟨0, 7⟩ (p := maxConnsQuery) rfl
    (List.append_nil _).symm rfl

/-! ## The transcript -/

/-- What was said on a descriptor: what each call has to say there, or a
beginning of it when the call ended in an exception. -/
inductive Said (fd : UInt16) : List Ended → List Letter → Prop where
  | nil : Said fd [] []
  | call {hist : List Ended} {text part : List Letter} {c : Call} {r : Except Failure Unit}
      (h : Said fd hist text) (hfd : c.fd = some fd) (hpart : part <+: c.letters)
      (hall : r = .ok () → part = c.letters) : Said fd (hist ++ [(c, r)]) (text ++ part)
  | other {hist : List Ended} {text : List Letter} {c : Call} {r : Except Failure Unit}
      (h : Said fd hist text) (hfd : c.fd ≠ some fd) : Said fd (hist ++ [(c, r)]) text

/-- The records secured for a descriptor. -/
def recordsFor (fd : UInt16) (ps : List Parcel) : List Bytes :=
  (ps.filter fun p => p.id.fd == fd).map Parcel.data

/-- The bytes that a descriptor has taken. -/
def written (fd : UInt16) (log : List Event) : Bytes :=
  log.flatMap fun
    | .wrote fd' s => if fd' = fd then s else []
    | _ => []

/-- The bytes of one descriptor in a stream. -/
def bytesFor (fd : UInt16) (s : List (UInt16 × UInt8)) : Bytes :=
  (s.filter fun x => x.1 == fd).map Prod.snd

variable {fd : UInt16}

theorem bytesFor_append (s s' : List (UInt16 × UInt8)) :
    bytesFor fd (s ++ s') = bytesFor fd s ++ bytesFor fd s' := by
  rw [bytesFor, List.filter_append, List.map_append]
  rfl

theorem bytesFor_map (fd' : UInt16) (s : Bytes) :
    bytesFor fd (s.map (Prod.mk fd')) = if fd' = fd then s else [] := by
  induction s with
  | nil => simp [bytesFor]
  | cons b s ih =>
      have hcons : bytesFor fd ((b :: s).map (Prod.mk fd'))
          = bytesFor fd [(fd', b)] ++ bytesFor fd (s.map (Prod.mk fd')) :=
        bytesFor_append [(fd', b)] (s.map (Prod.mk fd'))
      rw [hcons, ih]
      by_cases hfd : fd' = fd <;> simp [bytesFor, hfd]

theorem bytesFor_stream (fd : UInt16) (ps : List Parcel) :
    bytesFor fd (Outbox.stream ps) = (recordsFor fd ps).flatMap id := by
  induction ps with
  | nil => rfl
  | cons p ps ih =>
      rw [Outbox.stream_cons, bytesFor_append, bytesFor_map, ih]
      by_cases hfd : p.id.fd = fd <;> simp [recordsFor, hfd]

/-- Without EPIPE and EBADF what is gone was taken. -/
theorem written_eq {log : List Event} (h : ∀ s, .refused fd s ∉ log) :
    written fd log = bytesFor fd (taken log) := by
  induction log with
  | nil => rfl
  | cons e log ih =>
      have ih := ih fun s hs => h s (List.mem_cons_of_mem _ hs)
      have hcons : taken (e :: log) = taken [e] ++ taken log := taken_append [e] log
      have hwritten : written fd (e :: log) = written fd [e] ++ written fd log :=
        @List.flatMap_append _ _ [e] log _
      rw [hcons, hwritten, bytesFor_append, ih]
      refine congrArg (· ++ _) ?_
      cases e with
      | wrote fd' s => simp [written, taken, bytesFor_map]
      | refused fd' s =>
          have hfd : fd' ≠ fd := fun hfd => h s (hfd ▸ List.mem_cons_self ..)
          simp [written, taken, bytesFor_map, hfd]
      | _ => rfl

/-- The records of a descriptor are whole and say what was said. -/
structure Transcribed (fd : UInt16) (hist : List Ended) (t : Transceiver) : Prop where
  isRecord : ∀ r ∈ recordsFor fd (secured t.log), IsRecord r
  said : Said fd hist ((recordsFor fd (secured t.log)).flatMap Transceiver.letters)

theorem recordsFor_append (ps qs : List Parcel) :
    recordsFor fd (ps ++ qs) = recordsFor fd ps ++ recordsFor fd qs := by
  rw [recordsFor, List.filter_append, List.map_append]
  rfl

theorem recordsFor_of_fd {ps : List Parcel} {conn : Option UInt16}
    (h : ∀ p ∈ ps, conn = some p.id.fd) :
    recordsFor fd ps = if conn = some fd then ps.map Parcel.data else [] := by
  unfold recordsFor
  by_cases hconn : conn = some fd
  · have hall : (ps.filter fun p => p.id.fd == fd) = ps :=
      List.filter_eq_self.mpr fun p hp => by
        rw [beq_iff_eq]
        exact Option.some.inj ((h p hp).symm.trans hconn)
    rw [if_pos hconn, hall]
  · have hnone : (ps.filter fun p => p.id.fd == fd) = [] :=
      List.filter_eq_nil_iff.mpr fun p hp => by
        rw [beq_iff_eq]
        exact fun hfd => hconn ((h p hp).trans (congrArg some hfd))
    rw [if_neg hconn, hnone]
    rfl

/-- Runs without a query for values on the descriptor. -/
theorem Runs.transcribed (hw : NoAgain w) (h : Runs w (init data socket wakeUpFdIn) hist t)
    (hquery : ∀ e ∈ hist, e.1.fd = some fd → e.1.queries = false) : Transcribed fd hist t := by
  refine h.invariant_of (fun _ t => t.Ledger)
    (fun hist t => (∀ e ∈ hist, e.1.fd = some fd → e.1.queries = false) → Transcribed fd hist t)
    (fun h => Runs.ledger hw h) (fun _ => ⟨by simp [recordsFor, secured, init], .nil⟩)
    (fun {hist es t t' c} hledger ih _ hstep hquery => ?_) hquery
  obtain ⟨hrecord, hsaid⟩ := ih fun e he => hquery e (List.mem_append_left _ he)
  obtain ⟨rfl, rfl⟩ := callStep_eq_some hstep
  by_cases hfd : c.fd = some fd
  · have hc := hquery (c, (c.run w t).2) (List.mem_append_right _ (List.mem_singleton.mpr rfl)) hfd
    obtain ⟨ps, -, hsecured, hwhole, hpart, hall⟩ := Call.run_spec hledger hw hc
    have hps : recordsFor fd ps = ps.map Parcel.data := by
      rw [recordsFor_of_fd fun p hp => (hwhole p hp).1, if_pos hfd]
    refine ⟨fun r hr => ?_, ?_⟩
    · rw [hsecured, recordsFor_append, hps] at hr
      rcases List.mem_append.mp hr with hr | hr
      · exact hrecord r hr
      · obtain ⟨p, hp, rfl⟩ := List.mem_map.mp hr
        exact (hwhole p hp).2
    · rw [hsecured, recordsFor_append, hps, List.flatMap_append, List.flatMap_map]
      exact .call hsaid hfd hpart hall
  · obtain ⟨ps, -, hsecured, hps⟩ := Call.run_steps hledger hw c
    have hnone : recordsFor fd ps = [] := by rw [recordsFor_of_fd hps, if_neg hfd]
    refine ⟨fun r hr => ?_, ?_⟩
    · rw [hsecured, recordsFor_append, hnone, List.append_nil] at hr
      exact hrecord r hr
    · rw [hsecured, recordsFor_append, hnone, List.append_nil]
      exact .other hsaid hfd

/-- What is read on a descriptor are the records secured for it, as far as
they have gone out. -/
theorem Ledger.reads (h : t.Ledger) (hrecord : ∀ r ∈ recordsFor fd (secured t.log), IsRecord r)
    (hgone : ∀ s, .refused fd s ∉ t.log) :
    (records.frames (written fd t.log)).1 <+: recordsFor fd (secured t.log)
      ∧ (t.buffer.outbox = [] →
        records.frames (written fd t.log) = (recordsFor fd (secured t.log), [])) := by
  have hwrites : ∀ r ∈ recordsFor fd (secured t.log), records.Writes id r :=
    fun r hr => (hrecord r hr).writes
  have hstream := congrArg (bytesFor fd) h.stream_secured
  rw [bytesFor_append, bytesFor_stream fd (secured t.log), ← written_eq hgone] at hstream
  refine ⟨?_, fun hempty => ?_⟩
  · obtain ⟨done, todo, hdone, hframes, -, -⟩ :=
      Framing.Cutter.frames_of_isPrefix hwrites ⟨_, hstream⟩
    rw [hframes, hdone]
    exact List.prefix_append _ _
  · rw [hempty, Outbox.stream_nil] at hstream
    have hwritten : written fd t.log = (recordsFor fd (secured t.log)).flatMap id ++ [] := by
      rw [← hstream]
      simp [bytesFor]
    rw [hwritten, Framing.Cutter.frames_flatMap hwrites, Framing.Cutter.frames_nil,
      List.append_nil]

/-- What the web server reads on a descriptor is a beginning of what was
said there, and all of it when nothing is left to be sent. -/
theorem transcript (hw : NoAgain w) (h : Runs w (init data socket wakeUpFdIn) hist t)
    (hquery : ∀ e ∈ hist, e.1.fd = some fd → e.1.queries = false)
    (hgone : ∀ s, .refused fd s ∉ t.log) :
    ∃ text, Said fd hist text
      ∧ (records.frames (written fd t.log)).1.flatMap Transceiver.letters <+: text
      ∧ (t.buffer.outbox = [] →
        (records.frames (written fd t.log)).1.flatMap Transceiver.letters = text
          ∧ (records.frames (written fd t.log)).2 = []) := by
  obtain ⟨hrecord, hsaid⟩ := Runs.transcribed hw h hquery
  obtain ⟨hpart, hall⟩ := (h.ledger hw).reads hrecord hgone
  refine ⟨_, hsaid, hpart.flatMap _, fun hempty => ?_⟩
  rw [hall hempty]
  exact ⟨rfl, rfl⟩

/-- Two whole records, and nothing left behind. -/
theorem transcript_dismissed :
    (records.frames (written 7 dismissed.log)).1.length = 2 ∧ dismissed.buffer.outbox = []
      ∧ ∃ text, Said 7 visit text
        ∧ (records.frames (written 7 dismissed.log)).1.flatMap Transceiver.letters <+: text
        ∧ (dismissed.buffer.outbox = [] →
          (records.frames (written 7 dismissed.log)).1.flatMap Transceiver.letters = text
            ∧ (records.frames (written 7 dismissed.log)).2 = []) := by
  refine ⟨by decide +kernel, by decide +kernel,
    transcript noAgain_slowWorld runs_dismissed ?_ fun s hs => ?_⟩
  · intro e he _
    simp only [visit, List.mem_cons, List.not_mem_nil, or_false] at he
    rcases he with rfl | rfl | rfl <;> rfl
  · have hnone : dismissed.log.all fun e => !(e matches .refused ..) := by decide +kernel
    have hrefused := List.all_eq_true.mp hnone _ hs
    simp at hrefused

end Run

end Transceiver

end Simurga
