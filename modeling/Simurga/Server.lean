import Simurga.Receive
import Simurga.ManagerStep

/-!
# The server at the level of bytes

The requests, the manager and the job thread (`System`) on a transceiver:
the messages of `handler` are pushed as the records they are, and what the
requests put out is written through `FcgistreamSink` and END_REQUEST
records. Records with id 0 wait for `localHandler`, and the error log may be
written to at any time.

A run of the server is a run of the requests on the records that come in,
and a run of calls on the transceiver; so what is known of either holds of
the server. The web server reads on each connection the answers that the
requests give (`answers`).

The sockets fail with EPIPE and EBADF only, since any other error ends the
program. A record that is read behind its end is undefined: there is no step
for a BEGIN_REQUEST without its body, and the manager makes none behind a
call of `handler` that left its memory.
-/

namespace Simurga

open Protocol Transceiver

/-! ## Messages as records -/

namespace Protocol

/-- `getRole` and `getKeepConn` of a `BeginRequest`. -/
def beginRequest : Bytes → Option (Nat × Bool)
  | roleB1 :: roleB0 :: flags :: _ => some (BigEndian.value [roleB1, roleB0], flags &&& 1 ≠ 0)
  | _ => none

/-- The record that a message is, as `push` and `handler` read it. -/
def recordOf (message : Bytes) : Option Record :=
  let header := Header.ofBytes message
  let body := message.drop Header.size
  if header.type = RecordType.beginRequest.toByte then
    (beginRequest body).map fun b => .beginRequest b.1 b.2
  else if header.type = RecordType.params.toByte then
    some (.params (content message) (body.drop header.getContentLength))
  else if header.type = RecordType.input.toByte then some (.input (content message))
  else if header.type = RecordType.abortRequest.toByte then some .abortRequest
  else some .other

end Protocol

/-! ## What requests put out -/

def ProtocolStatus.sent : ProtocolStatus → Protocol.ProtocolStatus
  | .requestComplete => .requestComplete
  | .unknownRole => .unknownRole

/-- The calls behind an output of a request. -/
def Output.calls (id : FullId) : Output → List Call
  | .response _ => []
  | .wrote _ text => [.write id .out text]
  | .endRequest status killCon => [.endRequest id status.sent killCon]

/-- The calls behind an event of the requests. -/
def System.Event.calls : System.Event FullId → List Call
  | .output _ id o => o.calls id
  | _ => []

/-! ## The server -/

variable {Class : Type}

structure Server (Class : Type) where
  transceiver : Transceiver
  system : System FullId Class := {}
  /-- `ManagerPar::messages`, each with the id of its task. -/
  messages : List (FullId × Bytes) := []

namespace Server

inductive Act where
  /-- `transceiver.handler()` in `Manager::handler`. -/
  | handler (p : Poll)
  | localHandler
  /-- Anything but the receipt of a record. -/
  | step (a : System.Act FullId)
  /-- A flush of `err`. -/
  | err (id : FullId) (s : Bytes)

inductive Event where
  | called (e : Ended)
  | system (e : System.Event FullId)

/-- A call that comes back. -/
def call (w : World) (t : Transceiver) (c : Call) : Option (Transceiver × List Event) :=
  match (c.run w t).2 with
  | .ok _ => some ((c.run w t).1, [.called (c, .ok ())])
  | .error _ => none

def calls (w : World) : Transceiver → List Call → Option (Transceiver × List Event)
  | t, [] => some (t, [])
  | t, c :: cs =>
      match call w t c with
      | none => none
      | some (t, es) => (calls w t cs).map fun r => (r.1, es ++ r.2)

/-- The messages among events of the transceiver. -/
def messagesOf (log : List Transceiver.Event) : List (FullId × Bytes) :=
  log.filterMap fun
    | .message _ id message => some (id, message)
    | _ => none

/-- `push` of a message from the transceiver. -/
def push (table : ObjectTable Class) (s : Server Class) (m : FullId × Bytes) :
    Option (Server Class × List Event) :=
  if m.1.fcgiId = 0 then some ({ s with messages := s.messages ++ [m] }, [])
  else
    match recordOf m.2 with
    | none => none
    | some record =>
        (s.system.step table (.receive m.1 record)).map fun r =>
          ({ s with system := r.1 }, r.2.map .system)

def pushAll (table : ObjectTable Class) : Server Class → List (FullId × Bytes) →
    Option (Server Class × List Event)
  | s, [] => some (s, [])
  | s, m :: ms =>
      match push table s m with
      | none => none
      | some (s, es) => (pushAll table s ms).map fun r => (r.1, es ++ r.2)

def step (w : World) (table : ObjectTable Class) (s : Server Class) :
    Act → Option (Server Class × List Event)
  | .handler p =>
      match s.system.thread, call w s.transceiver (.handler p) with
      | .idle, some (transceiver, es) =>
          (pushAll table { s with transceiver }
            (messagesOf (transceiver.log.drop s.transceiver.log.length))).map fun r =>
              (r.1, es ++ r.2)
      | _, _ => none
  | .localHandler =>
      match s.system.thread, s.messages with
      | .idle, m :: messages =>
          (call w s.transceiver (.localHandler m.1 m.2)).map fun r =>
            ({ s with messages, transceiver := r.1 }, r.2)
      | _, _ => none
  | .step a =>
      match a, s.system.step table a with
      | .receive _ _, _ => none
      | _, none => none
      | _, some (system, es) =>
          (calls w s.transceiver (es.flatMap System.Event.calls)).map fun r =>
            ({ s with system, transceiver := r.1 }, es.map .system ++ r.2)
  | .err id text =>
      (call w s.transceiver (.write id .err text)).map fun r => ({ s with transceiver := r.1 }, r.2)

/-- The events of the requests. -/
def Event.system? : Event → Option (System.Event FullId)
  | .system e => some e
  | .called _ => none

/-- The calls on the transceiver. -/
def Event.called? : Event → Option Ended
  | .called e => some e
  | .system _ => none

/-- Of a management record, the id of its task and its bytes. -/
def Event.managed? : Event → Option (FullId × Bytes)
  | .called (.localHandler id message, _) => some (id, message)
  | _ => none

/-- A record that a request is given. -/
def received? : System.Event FullId → Option (FullId × Record)
  | .received id record => some (id, record)
  | _ => none

/-- A message for the manager itself. -/
def isManagement (m : FullId × Bytes) : Bool := m.1.fcgiId == 0

/-- The record of a message for a request. -/
def recordFor (m : FullId × Bytes) : Option (FullId × Record) :=
  if m.1.fcgiId = 0 then none else (recordOf m.2).map fun record => (m.1, record)

/-- What an answer says on a descriptor: the bytes of `out` and the ends of
requests. -/
def answersOf (fd : UInt16) : Call → List Letter
  | .write id .out s =>
      if id.fd = fd then s.map (.byte id.fcgiId RecordType.output.toByte) else []
  | .endRequest id status _ => if id.fd = fd then [.ended id.fcgiId status.toByte] else []
  | _ => []

/-! ## The events of a step -/

variable {w : World} {table : ObjectTable Class} {s s' : Server Class} {t t' : Transceiver}
  {es : List Event} {fd : UInt16}

theorem call_eq_some {c : Call} (h : call w t c = some (t', es)) :
    t' = (c.run w t).1 ∧ es = [.called (c, .ok ())] ∧ callStep w t c = some (t', [(c, .ok ())]) := by
  unfold call at h
  split at h
  · rename_i hr
    cases h
    refine ⟨rfl, rfl, ?_⟩
    unfold callStep
    rw [hr]
  · cases h

/-- Calls of a server are calls of a run that come back. -/
theorem calls_spec {t₀ : Transceiver} {hist : List Ended} {cs : List Call}
    (h : calls w t cs = some (t', es)) :
    es = cs.map (fun c => .called (c, .ok ()))
      ∧ (Runs w t₀ hist t → Runs w t₀ (hist ++ cs.map fun c => (c, .ok ())) t') := by
  induction cs generalizing t es hist with
  | nil =>
      cases h
      exact ⟨rfl, fun hruns => (List.append_nil hist).symm ▸ hruns⟩
  | cons c cs ih =>
      rw [calls] at h
      split at h
      · cases h
      · rename_i t₁ es₁ hc
        obtain ⟨-, rfl, hstep⟩ := call_eq_some hc
        obtain ⟨⟨t₂, es₂⟩, hcs, heq⟩ := Option.map_eq_some_iff.mp h
        cases heq
        obtain ⟨rfl, hruns⟩ := ih hcs
        refine ⟨rfl, fun h => ?_⟩
        rw [List.map_cons, ← List.singleton_append, ← List.append_assoc]
        exact hruns (h.step trivial hstep)

/-- The receipt of a record is said first, and puts nothing out. -/
theorem receive_spec {system system' : System FullId Class} {id : FullId} {record : Record}
    {sys : List (System.Event FullId)}
    (h : system.step table (.receive id record) = some (system', sys)) :
    sys.filterMap received? = [(id, record)] ∧ sys.flatMap System.Event.calls = [] := by
  unfold System.step at h
  dsimp only at h
  split at h
  · cases h
    unfold System.push
    split
    · exact ⟨rfl, rfl⟩
    · split <;> exact ⟨rfl, rfl⟩
  · cases h

/-- Any other step receives nothing. -/
theorem received_step {system system' : System FullId Class} {a : System.Act FullId}
    {sys : List (System.Event FullId)} (ha : ∀ id record, a ≠ .receive id record)
    (h : system.step table a = some (system', sys)) : sys.filterMap received? = [] := by
  have houts : ∀ serial id (outs : List Output),
      (outs.map (System.Event.output serial id)).filterMap received? = [] :=
    fun serial id outs => List.filterMap_eq_nil_iff.mpr fun e he => by
      obtain ⟨o, -, rfl⟩ := List.mem_map.mp he
      rfl
  cases System.step_cases h with
  | queue => exact absurd rfl (ha _ _)
  | opened => exact absurd rfl (ha _ _)
  | dropped => exact absurd rfl (ha _ _)
  | keep => exact houts ..
  | finished => exact houts ..
  | scheduled => rw [List.filterMap_append, houts]; rfl
  | _ => rfl

/-- The messages of a call are pushed one after the other. -/
theorem pushAll_spec {ms : List (FullId × Bytes)} {sys : List (System.Event FullId)}
    (h : pushAll table s ms = some (s', es))
    (hreach : Machine.Reach (System.step table) Machine.anyOrder {} sys s.system) :
    ∃ new : List (System.Event FullId), es = new.map .system
      ∧ Machine.Reach (System.step table) Machine.anyOrder {} (sys ++ new) s'.system
      ∧ new.filterMap received? = ms.filterMap recordFor
      ∧ new.flatMap System.Event.calls = []
      ∧ s'.transceiver = s.transceiver
      ∧ s'.messages = s.messages ++ ms.filter isManagement := by
  induction ms generalizing s es sys with
  | nil =>
      cases h
      exact ⟨[], rfl, by rwa [List.append_nil], rfl, rfl, rfl, (List.append_nil _).symm⟩
  | cons m ms ih =>
      rw [pushAll] at h
      split at h
      · cases h
      · rename_i s₁ es₁ hm
        obtain ⟨⟨s₂, es₂⟩, hms, heq⟩ := Option.map_eq_some_iff.mp h
        cases heq
        unfold push at hm
        split at hm
        · rename_i hid
          cases hm
          obtain ⟨new, rfl, hnew, hreceived, hcalls, ht, hmessages⟩ := ih hms hreach
          refine ⟨new, rfl, hnew, ?_, hcalls, ht, ?_⟩
          · have hfor : recordFor m = none := if_pos hid
            rw [hreceived, List.filterMap_cons_none hfor]
          · have hmanagement : isManagement m = true := beq_iff_eq.mpr hid
            rw [hmessages, List.filter_cons_of_pos hmanagement, List.append_assoc]
            rfl
        · rename_i hid
          split at hm
          · cases hm
          · rename_i record hrecord
            obtain ⟨⟨system, sys'⟩, hstep, heq⟩ := Option.map_eq_some_iff.mp hm
            cases heq
            obtain ⟨hrec, hnone⟩ := receive_spec hstep
            obtain ⟨new, rfl, hnew, hreceived, hcalls, ht, hmessages⟩ :=
              ih hms (hreach.step trivial hstep)
            have hfor : recordFor m = some (m.1, record) := by
              rw [recordFor, if_neg hid, hrecord, Option.map_some]
            refine ⟨sys' ++ new, by rw [List.map_append], by rwa [← List.append_assoc], ?_, ?_, ht, ?_⟩
            · rw [List.filterMap_append, hrec, hreceived, List.filterMap_cons_some hfor]
              rfl
            · rw [List.flatMap_append, hnone, hcalls]
              rfl
            · have hrequest : ¬ isManagement m = true := fun h => hid (beq_iff_eq.mp h)
              rw [hmessages, List.filter_cons_of_neg hrequest]

theorem system_map (sys : List (System.Event FullId)) :
    (sys.map Event.system).filterMap Event.system? = sys := by
  rw [List.filterMap_map]
  exact List.filterMap_some

theorem called_map_system (sys : List (System.Event FullId)) :
    (sys.map Event.system).filterMap Event.called? = [] :=
  List.filterMap_eq_nil_iff.mpr fun e he => by
    obtain ⟨e', -, rfl⟩ := List.mem_map.mp he
    rfl

theorem managed_map_system (sys : List (System.Event FullId)) :
    (sys.map Event.system).filterMap Event.managed? = [] :=
  List.filterMap_eq_nil_iff.mpr fun e he => by
    obtain ⟨e', -, rfl⟩ := List.mem_map.mp he
    rfl

theorem system_map_called (cs : List Call) :
    (cs.map fun c => Event.called (c, .ok ())).filterMap Event.system? = [] :=
  List.filterMap_eq_nil_iff.mpr fun e he => by
    obtain ⟨c, -, rfl⟩ := List.mem_map.mp he
    rfl

theorem called_map (cs : List Call) :
    (cs.map fun c => Event.called (c, .ok ())).filterMap Event.called?
      = cs.map fun c => (c, .ok ()) := by
  rw [List.filterMap_map, ← List.filterMap_eq_map]
  rfl

/-! ## The messages of the transceiver -/

theorem messagesOf_append (log es : List Transceiver.Event) :
    messagesOf (log ++ es) = messagesOf log ++ messagesOf es := List.filterMap_append

/-- Sending brings no message. -/
theorem messagesOf_sends (h : Sends t t') : messagesOf t'.log = messagesOf t.log := by
  induction h with
  | refl => rfl
  | tail _ hsend ih =>
      rw [← ih]
      cases hsend with
      | quiet es hpollFds hfdBuffers hsocket hlog hes =>
          have hnone : messagesOf es = [] := List.filterMap_eq_nil_iff.mpr fun e he => by
            have hquiet := hes e he
            cases e with
            | message fd id message => exact absurd rfl hquiet.not_message
            | _ => rfl
          rw [hlog, messagesOf_append, hnone, List.append_nil]
      | freeFd fd =>
          rcases (freeFd_cases _ fd).2 with hlog | hlog <;> rw [hlog]
          rw [messagesOf_append]
          exact List.append_nil _

theorem log_sends (h : Sends t t') : t.log <+: t'.log := by
  induction h with
  | refl => exact List.prefix_refl _
  | tail _ hsend ih =>
      refine ih.trans ?_
      cases hsend with
      | quiet es hpollFds hfdBuffers hsocket hlog hes => exact ⟨es, hlog.symm⟩
      | freeFd fd =>
          rcases (freeFd_cases _ fd).2 with hlog | hlog <;> rw [hlog]
          exact List.prefix_append _ _

theorem log_handler (w : World) (p : Poll) (t : Transceiver) :
    t.log <+: (handler w p t).1.log := by
  have hsends := log_sends (transmit_sends w t)
  unfold handler
  generalize transmit w t = r at hsends ⊢
  obtain ⟨t', _ | transmitEmpty⟩ := r
  · exact hsends
  · obtain ⟨es, hlog, -⟩ := (Frames.recvs (poll_recvs t' transmitEmpty p)).log
    exact hsends.trans ⟨es, hlog.symm⟩

/-- A request writes and ends, and does nothing else to the transceiver. -/
theorem calls_cases {e : System.Event FullId} {c : Call} (hc : c ∈ e.calls) :
    (∃ id s, c = .write id .out s) ∨ ∃ id status killCon, c = .endRequest id status killCon := by
  cases e with
  | output serial id o =>
      cases o with
      | response state => simp [System.Event.calls, Output.calls] at hc
      | wrote answer text => exact .inl ⟨id, text, List.mem_singleton.mp hc⟩
      | endRequest status killCon => exact .inr ⟨id, status.sent, killCon, List.mem_singleton.mp hc⟩
  | _ => simp [System.Event.calls] at hc

theorem calls_ne_handler {e : System.Event FullId} {c : Call} (hc : c ∈ e.calls) (p : Poll) :
    c ≠ .handler p := by
  rcases calls_cases hc with ⟨id, s, rfl⟩ | ⟨id, status, killCon, rfl⟩ <;> exact nofun

theorem managed_calls {e : System.Event FullId} {c : Call} (hc : c ∈ e.calls) :
    Event.managed? (.called (c, .ok ())) = none := by
  rcases calls_cases hc with ⟨id, s, rfl⟩ | ⟨id, status, killCon, rfl⟩ <;> rfl

theorem calls_sends {cs : List Call} (hcs : ∀ c ∈ cs, ∀ p, c ≠ .handler p)
    (h : calls w t cs = some (t', es)) : Sends t t' := by
  induction cs generalizing t es with
  | nil =>
      cases h
      exact .refl
  | cons c cs ih =>
      rw [calls] at h
      split at h
      · cases h
      · rename_i t₁ es₁ hc
        obtain ⟨rfl, -, -⟩ := call_eq_some hc
        obtain ⟨⟨t₂, es₂⟩, hrest, heq⟩ := Option.map_eq_some_iff.mp h
        cases heq
        exact (Call.run_sends w t (hcs c (List.mem_cons_self ..))).trans
          (ih (fun c hc => hcs c (List.mem_cons_of_mem _ hc)) hrest)

/-! ## Runs -/

/-- What links a server to the runs of its parts. -/
structure Linked (w : World) (table : ObjectTable Class) (t₀ : Transceiver) (log : List Event)
    (s : Server Class) : Prop where
  system : Machine.Reach (System.step table) Machine.anyOrder {} (log.filterMap Event.system?)
    s.system
  runs : Runs w t₀ (log.filterMap Event.called?) s.transceiver
  ok : ∀ e ∈ log.filterMap Event.called?, e.2 = .ok ()
  answers : ∀ fd, (log.filterMap Event.called?).flatMap (fun e => answersOf fd e.1)
    = (log.filterMap Event.system?).flatMap fun e => e.calls.flatMap (answersOf fd)
  received : (log.filterMap Event.system?).filterMap received?
    = (messagesOf s.transceiver.log).filterMap recordFor
  managed : log.filterMap Event.managed? ++ s.messages
    = (messagesOf s.transceiver.log).filter isManagement

/-- More events keep the links, each with what belongs to it. -/
theorem Linked.append {t₀ : Transceiver} {log : List Event} (h : Linked w table t₀ log s)
    (sys : List (System.Event FullId)) (cs : List Call) (new : List (FullId × Bytes))
    (hsys : es.filterMap Event.system? = sys)
    (hcs : es.filterMap Event.called? = cs.map fun c => (c, .ok ()))
    (hsystem : Machine.Reach (System.step table) Machine.anyOrder {}
      (log.filterMap Event.system? ++ sys) s'.system)
    (hruns : Runs w t₀ (log.filterMap Event.called? ++ cs.map fun c => (c, .ok ())) s'.transceiver)
    (hanswers : ∀ fd, cs.flatMap (answersOf fd) = sys.flatMap fun e => e.calls.flatMap (answersOf fd))
    (hreceived : sys.filterMap received? = new.filterMap recordFor)
    (hmessages : messagesOf s'.transceiver.log = messagesOf s.transceiver.log ++ new)
    (hmanaged : es.filterMap Event.managed? ++ s'.messages
      = s.messages ++ new.filter isManagement) :
    Linked w table t₀ (log ++ es) s' where
  system := by rwa [List.filterMap_append, hsys]
  runs := by rwa [List.filterMap_append, hcs]
  ok e he := by
    rw [List.filterMap_append, hcs] at he
    rcases List.mem_append.mp he with he | he
    · exact h.ok e he
    · obtain ⟨c, -, rfl⟩ := List.mem_map.mp he
      rfl
  answers fd := by
    rw [List.filterMap_append, List.filterMap_append, hsys, hcs, List.flatMap_append,
      List.flatMap_append, h.answers, List.flatMap_map, hanswers]
  received := by
    rw [List.filterMap_append, hsys, List.filterMap_append, h.received, hreceived, hmessages,
      List.filterMap_append]
  managed := by
    rw [List.filterMap_append, List.append_assoc, hmanaged, ← List.append_assoc, h.managed,
      hmessages, List.filter_append]

/-- A call that is not one of `handler`, and answers nothing. -/
theorem Linked.call {t₀ : Transceiver} {log : List Event} {c : Call}
    (h : Linked w table t₀ log s) (hc : ∀ p, c ≠ .handler p) (hanswers : ∀ fd, answersOf fd c = [])
    (hcall : Server.call w s.transceiver c = some (t', es)) (messages : List (FullId × Bytes))
    (hmanaged : es.filterMap Event.managed? ++ messages = s.messages) :
    Linked w table t₀ (log ++ es) { s with messages, transceiver := t' } := by
  obtain ⟨ht, hes, hstep⟩ := call_eq_some hcall
  have hmessages : messagesOf t'.log = messagesOf s.transceiver.log := by
    rw [ht]
    exact messagesOf_sends (Call.run_sends w s.transceiver hc)
  refine h.append [] [c] [] ?_ ?_ ?_ (h.runs.step trivial hstep) (fun fd => ?_) rfl ?_ ?_
  · rw [hes]
    rfl
  · rw [hes]
    rfl
  · rw [List.append_nil]
    exact h.system
  · exact (List.append_nil _).trans (hanswers fd)
  · rw [hmessages, List.append_nil]
  · rw [hmanaged]
    exact (List.append_nil _).symm

theorem linked_step {t₀ : Transceiver} {log : List Event} {a : Act}
    (h : Linked w table t₀ log s) (hstep : step w table s a = some (s', es)) :
    Linked w table t₀ (log ++ es) s' := by
  cases a with
  | handler p =>
      simp only [step] at hstep
      split at hstep
      · rename_i t₁ es₁ hidle hcall
        obtain ⟨ht₁, rfl, hcallStep⟩ := call_eq_some hcall
        obtain ⟨⟨s₂, es₂⟩, hpush, heq⟩ := Option.map_eq_some_iff.mp hstep
        cases heq
        obtain ⟨new, rfl, hsystem, hreceived, hcalls, ht, hmessages⟩ := pushAll_spec hpush h.system
        have hall : messagesOf s₂.transceiver.log = messagesOf s.transceiver.log
            ++ messagesOf (t₁.log.drop s.transceiver.log.length) := by
          obtain ⟨rest, hrest⟩ := log_handler w p s.transceiver
          have hlog : t₁.log = s.transceiver.log ++ rest := by
            rw [ht₁]
            exact hrest.symm
          rw [ht, hlog, List.drop_left, messagesOf_append]
        refine h.append new [.handler p] _ ?_ ?_ hsystem (ht ▸ h.runs.step trivial hcallStep)
          (fun fd => ?_) hreceived hall ?_
        · rw [List.filterMap_append]
          exact system_map new
        · rw [List.filterMap_append, called_map_system]
          rfl
        · rw [← List.flatMap_assoc, hcalls]
          rfl
        · rw [List.filterMap_append, managed_map_system, hmessages]
          rfl
      · cases hstep
  | localHandler =>
      simp only [step] at hstep
      split at hstep
      · rename_i m messages hidle hcons
        obtain ⟨⟨t₁, es₁⟩, hcall, heq⟩ := Option.map_eq_some_iff.mp hstep
        cases heq
        refine h.call (c := .localHandler m.1 m.2) nofun (fun _ => rfl) hcall messages ?_
        obtain ⟨-, rfl, -⟩ := call_eq_some hcall
        rw [hcons]
        rfl
      · cases hstep
  | err id text =>
      simp only [step] at hstep
      obtain ⟨⟨t₁, es₁⟩, hcall, heq⟩ := Option.map_eq_some_iff.mp hstep
      cases heq
      refine h.call (c := .write id .err text) nofun (fun _ => rfl) hcall s.messages ?_
      obtain ⟨-, rfl, -⟩ := call_eq_some hcall
      rfl
  | step a =>
      simp only [step] at hstep
      split at hstep
      · cases hstep
      · cases hstep
      · rename_i system sys hreceive hsystem
        obtain ⟨⟨t₁, es₁⟩, hcalls, heq⟩ := Option.map_eq_some_iff.mp hstep
        cases heq
        have hreceived := received_step hreceive hsystem
        have hhandler : ∀ c ∈ sys.flatMap System.Event.calls, ∀ p, c ≠ .handler p := by
          intro c hc
          obtain ⟨e, -, hc⟩ := List.mem_flatMap.mp hc
          exact calls_ne_handler hc
        obtain ⟨rfl, hruns⟩ := calls_spec hcalls
        have hmessages := messagesOf_sends (calls_sends hhandler hcalls)
        refine h.append sys (sys.flatMap System.Event.calls) [] ?_ ?_
          (h.system.step trivial hsystem) (hruns h.runs) (fun fd => List.flatMap_assoc) hreceived
          (hmessages.trans (List.append_nil _).symm) ?_
        · rw [List.filterMap_append, system_map, system_map_called, List.append_nil]
        · rw [List.filterMap_append, called_map_system, called_map, List.nil_append]
        · have hmanaged : ((sys.flatMap System.Event.calls).map fun c =>
              Event.called (c, .ok ())).filterMap Event.managed? = [] :=
            List.filterMap_eq_nil_iff.mpr fun e he => by
              obtain ⟨c, hc, rfl⟩ := List.mem_map.mp he
              obtain ⟨e, -, hc⟩ := List.mem_flatMap.mp hc
              exact managed_calls hc
          rw [List.filterMap_append, managed_map_system, hmanaged]
          exact (List.append_nil _).symm

section Run

variable {data : Nat → UInt8} {socket wakeUpFdIn : Nat} {log : List Event}

/-- The server before its first step. -/
def init (data : Nat → UInt8) (socket wakeUpFdIn : Nat) : Server Class where
  transceiver := Transceiver.init data socket wakeUpFdIn

theorem linked_of_run
    (h : Machine.Reach (step w table) Machine.anyOrder (init data socket wakeUpFdIn) log s) :
    Linked w table (Transceiver.init data socket wakeUpFdIn) log s :=
  h.invariant (Linked w table (Transceiver.init data socket wakeUpFdIn))
    ⟨.init, .init, by simp, fun _ => rfl, rfl, rfl⟩ fun h _ hstep => linked_step h hstep

/-- A run of the server is a run of the requests, on the records that the
messages of the transceiver are, and a run of calls that all come back.
Management records are handled once, in their order. -/
theorem projects
    (h : Machine.Reach (step w table) Machine.anyOrder (init data socket wakeUpFdIn) log s) :
    Machine.Reach (System.step table) Machine.anyOrder {} (log.filterMap Event.system?) s.system
      ∧ Runs w (Transceiver.init data socket wakeUpFdIn) (log.filterMap Event.called?) s.transceiver
      ∧ (∀ e ∈ log.filterMap Event.called?, e.2 = .ok ())
      ∧ (log.filterMap Event.system?).filterMap received?
        = (messagesOf s.transceiver.log).filterMap recordFor
      ∧ log.filterMap Event.managed? ++ s.messages
        = (messagesOf s.transceiver.log).filter isManagement := by
  obtain ⟨hsystem, hruns, hok, -, hreceived, hmanaged⟩ := linked_of_run h
  exact ⟨hsystem, hruns, hok, hreceived, hmanaged⟩

/-! ## Answers -/

/-- A byte of `out`, or the end of a request. -/
def isAnswer : Letter → Bool
  | .byte _ type _ => type == RecordType.output.toByte
  | .ended _ _ => true
  | .unknown _ => false

/-- What the web server has read on a connection, but for the error log. -/
def heard (fd : UInt16) (t : Transceiver) : List Letter :=
  ((records.frames (Transceiver.written fd t.log)).1.flatMap Transceiver.letters).filter isAnswer

/-- What requests answer on a descriptor. -/
def answered (fd : UInt16) (sys : List (System.Event FullId)) : List Letter :=
  sys.flatMap fun e => e.calls.flatMap (answersOf fd)

theorem answersOf_of_fd {c : Call} (hfd : c.fd = some fd) :
    c.letters.filter isAnswer = answersOf fd c := by
  cases c with
  | write id stream s =>
      have hid : id.fd = fd := Option.some.inj hfd
      cases stream with
      | out =>
          rw [answersOf, if_pos hid]
          refine List.filter_eq_self.mpr fun l hl => ?_
          obtain ⟨b, -, rfl⟩ := List.mem_map.mp hl
          rfl
      | err =>
          refine List.filter_eq_nil_iff.mpr fun l hl => ?_
          obtain ⟨b, -, rfl⟩ := List.mem_map.mp hl
          simp [isAnswer, OutStream.type, RecordType.toByte]
  | endRequest id status killCon =>
      have hid : id.fd = fd := Option.some.inj hfd
      rw [answersOf, if_pos hid]
      rfl
  | localHandler id message => rfl
  | handler p => cases hfd

theorem answersOf_of_ne {c : Call} (hfd : c.fd ≠ some fd) : answersOf fd c = [] := by
  cases c with
  | write id stream s =>
      cases stream with
      | out => exact if_neg fun hid => hfd (congrArg some hid)
      | err => rfl
  | endRequest id status killCon => exact if_neg fun hid => hfd (congrArg some hid)
  | localHandler id message => rfl
  | handler p => rfl

/-- When every call comes back, all that is to be said has been said. -/
theorem answers_of_said {hist : List Ended} {text : List Letter} (h : Said fd hist text)
    (hok : ∀ e ∈ hist, e.2 = .ok ()) :
    text.filter isAnswer = hist.flatMap fun e => answersOf fd e.1 := by
  induction h with
  | nil => rfl
  | call hsaid hfd hpart hall ih =>
      have hlast := hall (hok _ (List.mem_append_right _ (List.mem_singleton.mpr rfl)))
      rw [List.filter_append, List.flatMap_append, ih fun e he => hok e (List.mem_append_left _ he),
        hlast, answersOf_of_fd hfd, List.flatMap_singleton]
  | other hsaid hfd ih =>
      rw [List.flatMap_append, ih fun e he => hok e (List.mem_append_left _ he),
        List.flatMap_singleton, answersOf_of_ne hfd, List.append_nil]

/-- What the web server reads on a connection, but for the error log, is a
beginning of what the requests answer there, and all of it when nothing is
left to be sent. -/
theorem answers (hw : NoAgain w)
    (h : Machine.Reach (step w table) Machine.anyOrder (init data socket wakeUpFdIn) log s)
    (hquery : ∀ e ∈ log.filterMap Event.called?, e.1.fd = some fd → e.1.queries = false)
    (hgone : ∀ text, .refused fd text ∉ s.transceiver.log) :
    heard fd s.transceiver <+: answered fd (log.filterMap Event.system?)
      ∧ (s.transceiver.buffer.outbox = [] →
        heard fd s.transceiver = answered fd (log.filterMap Event.system?)) := by
  have hlinked := linked_of_run h
  obtain ⟨hrecord, hsaid⟩ := Runs.transcribed hw hlinked.runs hquery
  obtain ⟨hpart, hall⟩ := (hlinked.runs.ledger hw).reads hrecord hgone
  have hanswers := answers_of_said hsaid hlinked.ok
  rw [hlinked.answers fd] at hanswers
  rw [answered, ← hanswers]
  refine ⟨(hpart.flatMap _).filter isAnswer, fun hempty => ?_⟩
  rw [heard, hall hempty]

end Run

/-! ## A request that is not found -/

/-- A world whose sockets take all there is. -/
def openWorld : World where
  written := fun _ => .accepted 4096
  fresh := fun _ _ => 0

theorem noAgain_openWorld : NoAgain openWorld := fun _ => nofun

/-- A record on the first connection. -/
def incoming (header body : Bytes) : Act :=
  .handler { ready := .entry 2 false, header := .data header, body := .data body }

/-- A pass of the job thread. -/
def passOnce : List Act := [.step .take, .step (.handle false)]

/-- A GET request, up to the end of its input. -/
def oneGet : List Act :=
  .handler { ready := .entry 0 false, accepted := some 7, header := .data [1, 1, 0, 1, 0, 8, 0, 0]
             body := .data [0, 1, 0, 0, 0, 0, 0, 0] }
    :: incoming [1, 4, 0, 1, 0, 19, 0, 0] ([14, 3] ++ bytes "REQUEST_METHOD" ++ bytes "GET")
    :: passOnce
    ++ incoming [1, 4, 0, 1, 0, 0, 0, 0] [] :: passOnce
    ++ incoming [1, 5, 0, 1, 0, 0, 0, 0] [] :: passOnce

/-- No object handles the URI. -/
def noObject : ObjectTable Unit := fun _ => none

/-- A block for the descriptor is thrown away. -/
def refuses (fd : UInt16) : Transceiver.Event → Bool
  | .refused fd' _ => fd' == fd
  | _ => false

/-- The run has answered, without a query and without a loss. -/
def isPlain (log : List Event) (s : Server Unit) : Bool :=
  decide ((records.frames (Transceiver.written 7 s.transceiver.log)).1.length = 2
      ∧ s.transceiver.buffer.outbox = [])
    && ((log.filterMap Event.called?).all fun e => !e.1.queries)
    && s.transceiver.log.all fun e => !refuses 7 e

theorem exists_oneGet :
    ∃ log s, Machine.Reach (step openWorld noObject) Machine.anyOrder (init (fun _ => 0) 0 3) log s
      ∧ isPlain log s :=
  Machine.exists_reach_of_run _ _ _ oneGet isPlain (by decide +kernel)

theorem projects_oneGet :
    ∃ log : List Event, ∃ s : Server Unit, isPlain log s
      ∧ Machine.Reach (System.step noObject) Machine.anyOrder {} (log.filterMap Event.system?)
        s.system
      ∧ Runs openWorld (Transceiver.init (fun _ => 0) 0 3) (log.filterMap Event.called?)
        s.transceiver
      ∧ (∀ e ∈ log.filterMap Event.called?, e.2 = .ok ())
      ∧ (log.filterMap Event.system?).filterMap received?
        = (messagesOf s.transceiver.log).filterMap recordFor
      ∧ log.filterMap Event.managed? ++ s.messages
        = (messagesOf s.transceiver.log).filter isManagement := by
  obtain ⟨log, s, hreach, hplain⟩ := exists_oneGet
  exact ⟨log, s, hplain, projects hreach⟩

theorem answers_oneGet :
    ∃ log : List Event, ∃ s : Server Unit,
      (records.frames (Transceiver.written 7 s.transceiver.log)).1.length = 2
      ∧ heard 7 s.transceiver <+: answered 7 (log.filterMap Event.system?)
      ∧ (s.transceiver.buffer.outbox = [] →
        heard 7 s.transceiver = answered 7 (log.filterMap Event.system?)) := by
  obtain ⟨log, s, hreach, hplain⟩ := exists_oneGet
  unfold isPlain at hplain
  rw [Bool.and_eq_true, Bool.and_eq_true, decide_eq_true_iff, List.all_eq_true,
    List.all_eq_true] at hplain
  obtain ⟨⟨⟨hlength, -⟩, hquery⟩, hgone⟩ := hplain
  refine ⟨log, s, hlength,
    answers noAgain_openWorld hreach (fun e he _ => ?_) fun text hm => ?_⟩
  · simpa using hquery e he
  · have hnot := hgone _ hm
    simp [refuses] at hnot

end Server

end Simurga
